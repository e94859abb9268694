import Peripherals.FrontPanel.Playback

namespace Peripherals.FrontPanel

open Execution Thunder

/-- A pattern that is being played: how often it is to be played (without end where
there is no number), how many frames have been shown, and how long the last one stays. -/
structure Track where
  list : List FrontPanelBlinkInfo
  rounds : Option ℕ
  shown : ℕ
  delay : Int

/-- What blinking is about, in terms of one position in a repeated pattern. -/
structure Player where
  started : Bool
  track : Option Track
  applied : List FrontPanelBlinkInfo

namespace Player

def init : Player := ⟨false, none, []⟩

def roundsOf (iterations : Int) : Option ℕ :=
  if iterations < 0 then none else some (iterations.toNat + 1)

end Player

def Track.next (t : Track) : Option FrontPanelBlinkInfo :=
  match t.rounds with
  | none => t.list[t.shown % t.list.length]?
  | some rounds =>
    if t.shown < rounds * t.list.length then t.list[t.shown % t.list.length]? else none

namespace Player

def showNext (p : Player) (t : Track) : Player :=
  match t.next with
  | some frame => { p with
      track := some { t with shown := t.shown + 1, delay := frame.durationInMs }
      applied := p.applied ++ [frame] }
  | none => { p with track := none }

/-- The first `start` puts a pattern that is being played back to its first frame,
and has it played once from there. -/
def step (p : Player) : Action → Player
  | .setBlink blinkInfo =>
    p.showNext ⟨FrontPanel.frames blinkInfo, roundsOf (FrontPanel.iterations blinkInfo), 0, 0⟩
  | .fire _ =>
    match p.track with
    | some t => p.showNext t
    | none => p
  | .start =>
    if p.started then p
    else { p with
      started := true
      track := p.track.map fun t ↦ { t with rounds := some 1, shown := 1 } }
  | a => if stops a then { p with track := none } else p

def run (tr : List Action) : Player := tr.foldl step init

end Player

variable {D : Type} {dev : Device D} {s s' : State D} {this : InstanceId} {k : Int} {m : ℕ}
  {list : List FrontPanelBlinkInfo} {b : Blink} {t : Track} {p : Player} {a : Action}
  {tr : List Action} {device : D}

structure Follows (t : Track) (b : Blink) (this : InstanceId) (k : Int) (m : ℕ) : Prop extends
    At this t.list k m b where
  shown : t.shown = m + 1
  counted : t.rounds = Player.roundsOf k
  length : t.list.length ≤ 2 ^ 31
  bounded : k < 2 ^ 31 - 1
  pos : 0 < t.list.length
  job : b.blinkTimer = [⟨this, t.delay⟩]

structure Matches (p : Player) (b : Blink) : Prop where
  started : b.started = p.started
  applied : b.applied = p.applied
  idle : p.track = none → b.blinkTimer = []
  track : ∀ t, p.track = some t → ∃ this k m, Follows t b this k m

theorem Matches.of_idle (hstarted : b.started = p.started) (happlied : b.applied = p.applied)
    (hjob : b.blinkTimer = []) : Matches { p with track := none } b :=
  ⟨hstarted, happlied, fun _ ↦ hjob, nofun⟩

theorem Matches.no_track (h : Matches p b) (hjob : b.blinkTimer = []) : p.track = none := by
  cases ht : p.track with
  | none => rfl
  | some t =>
    obtain ⟨this, k, m, hfollows⟩ := h.track t ht
    simp [hfollows.job] at hjob

/-- The cursor moves on whatever has been applied. -/
theorem advance_applied (b : Blink) (applied : List FrontPanelBlinkInfo) :
    advance { b with applied } = ((advance b).1, { (advance b).2 with applied }) := by
  unfold advance
  dsimp only
  split <;> rfl

theorem advance_started (b : Blink) : (advance b).2.started = b.started ∧
    (advance b).2.blinkTimer = b.blinkTimer := by
  unfold advance
  dsimp only
  split <;> exact ⟨rfl, rfl⟩

theorem advance_at (h : At this list k m b) (hjob : b.blinkTimer = [])
    (hlen : list.length ≤ 2 ^ 31) (hk : k < 2 ^ 31 - 1) (hpos : 0 < list.length) :
    (advance b).1 = true ∧ At this list k (m + 1) (advance b).2 ∨
      (advance b).1 = false ∧ 0 ≤ k ∧ m + 1 = total list k := by
  have hat : At this list k m { b with applied := [] ++ played list (m + 1) } :=
    ⟨h.list_eq, h.blinking, h.owner, h.repeats, h.index, h.rounds⟩
  have hadvance := advance_due hat hjob rfl hlen hk hpos
  rw [advance_applied] at hadvance
  rcases hadvance with ⟨hagain, hdue⟩ | ⟨hagain, hover⟩
  · exact .inl ⟨hagain, hdue.list_eq, hdue.blinking, hdue.owner, hdue.repeats, hdue.index,
      hdue.rounds⟩
  · exact .inr ⟨hagain, hover.counted, hover.fired⟩

theorem roundsOf_none (hk : k < 0) : Player.roundsOf k = none := if_pos hk

theorem roundsOf_some (hk : 0 ≤ k) : Player.roundsOf k = some (k.toNat + 1) :=
  if_neg (Int.not_lt.mpr hk)

/-- A track has a next frame as long as its rounds have not been played. -/
theorem next_of_lt (hrounds : t.rounds = Player.roundsOf k)
    (hlt : 0 ≤ k → t.shown < total t.list k) : t.next = t.list[t.shown % t.list.length]? := by
  unfold Track.next
  rw [hrounds]
  by_cases hk : 0 ≤ k
  · rw [roundsOf_some hk]
    exact if_pos (hlt hk)
  · rw [roundsOf_none (Int.not_le.mp hk)]

theorem next_of_total (hrounds : t.rounds = Player.roundsOf k) (hk : 0 ≤ k)
    (hshown : t.shown = total t.list k) : t.next = none := by
  unfold Track.next
  rw [hrounds, roundsOf_some hk]
  exact if_neg (Nat.not_lt.mpr (Nat.le_of_eq hshown.symm))

/-- The frame at the cursor is shown, and the timer is set for it. -/
theorem playCurrent_matches (hat : At this t.list k t.shown s.blink)
    (hrounds : t.rounds = Player.roundsOf k) (hlen : t.list.length ≤ 2 ^ 31)
    (hk : k < 2 ^ 31 - 1) (hpos : 0 < t.list.length) (hjob : s.blink.blinkTimer = [])
    (hstarted : s.blink.started = p.started) (happlied : s.blink.applied = p.applied) :
    Matches (p.showNext t) (playCurrent dev this s).blink := by
  obtain ⟨frame, hframe⟩ : ∃ frame, t.list[t.shown % t.list.length]? = some frame :=
    ⟨_, List.getElem?_eq_getElem (Nat.mod_lt t.shown hpos)⟩
  have hcurrent : at? s.blink.m_blinkList s.blink.m_currentBlinkListIndex = some frame := by
    rw [hat.list_eq, hat.index, at?_natCast, hframe]
  have hplay : (playCurrent dev this s).blink = { s.blink with
      applied := s.blink.applied ++ [frame]
      blinkTimer := [⟨this, frame.durationInMs⟩] } := by
    simp [playCurrent, applyCurrent, hcurrent, scheduleIfBlinking, setBlinkLed, hat.blinking,
      schedule, hjob]
  have hnext : t.next = some frame :=
    (next_of_lt hrounds fun hk₀ ↦ (hat.rounds hk₀).2).trans hframe
  rw [hplay, Player.showNext, hnext]
  refine ⟨hstarted, ?_, fun hidle ↦ (Option.some_ne_none _ hidle).elim, ?_⟩
  · dsimp only
    rw [happlied]
  · intro t' ht'
    obtain rfl := Option.some.inj ht'
    exact ⟨this, k, t.shown, ⟨hat.list_eq, hat.blinking, hat.owner, hat.repeats, hat.index,
      hat.rounds⟩, rfl, hrounds, hlen, hk, hpos, rfl⟩

theorem fire_matches {j : ℕ} (hvalid : Valid s.blink) (h : Matches p s.blink)
    (hs : step dev s (.fire j) = some s') : Matches (p.step (.fire j)) s'.blink := by
  obtain ⟨job, hjob, rfl⟩ := step_fire hs
  rw [hvalid.timed_eq hjob]
  cases ht : p.track with
  | none => simp [h.idle ht] at hjob
  | some t =>
    obtain ⟨this, k, m, hfollows⟩ := h.track t ht
    obtain rfl : job = ⟨this, t.delay⟩ := by
      have hmem := List.mem_of_getElem? hjob
      rwa [hfollows.job, List.mem_singleton] at hmem
    have hat : At this t.list k m { s.blink with blinkTimer := [] } :=
      ⟨hfollows.list_eq, hfollows.blinking, hfollows.owner, hfollows.repeats, hfollows.index,
        hfollows.rounds⟩
    obtain ⟨hstarted, hjobs⟩ := advance_started { s.blink with blinkTimer := [] }
    have happlied := (advance_lists { s.blink with blinkTimer := [] }).2
    have hcases := advance_at hat rfl hfollows.length hfollows.bounded hfollows.pos
    simp only [Player.step, ht]
    unfold onBlinkTimer
    rcases hadv : advance { s.blink with blinkTimer := [] } with ⟨again, b⟩
    rw [hadv] at hstarted hjobs happlied hcases
    rcases hcases with ⟨hagain, hnext⟩ | ⟨hagain, hk₀, htotal⟩
    · obtain rfl : again = true := hagain
      rw [← hfollows.shown] at hnext
      exact playCurrent_matches (s := { s with blink := b }) hnext hfollows.counted
        hfollows.length hfollows.bounded hfollows.pos hjobs (hstarted.trans h.started)
        (happlied.trans h.applied)
    · obtain rfl : again = false := hagain
      have hnone := next_of_total hfollows.counted hk₀ (hfollows.shown.trans htotal)
      rw [Player.showNext, hnone]
      exact Matches.of_idle (hstarted.trans h.started) (happlied.trans h.applied) hjobs

theorem setBlink_matches {blinkInfo : JsonObject} (hvalid : Valid s.blink)
    (hthis : s.blink.s_instance = some this) (hstarted : s.blink.started = p.started)
    (happlied : s.blink.applied = p.applied) (hlen : (frames blinkInfo).length ≤ 2 ^ 31)
    (hk : iterations blinkInfo < 2 ^ 31 - 1) :
    Matches (p.step (.setBlink blinkInfo)) (setBlink dev this blinkInfo s).blink := by
  have hjob := ((hvalid.stop hthis).stop this).no_job
  have hstart : setBlink dev this blinkInfo s =
      if 0 < (frames blinkInfo).length then playCurrent dev this { s with
        blink := rewind this (iterations blinkInfo)
          { stopBlinkTimer this s.blink with m_blinkList := frames blinkInfo } }
      else { s with
        blink := rewind this (iterations blinkInfo)
          { stopBlinkTimer this s.blink with m_blinkList := frames blinkInfo } } := rfl
  rw [hstart]
  split
  next hpos =>
    refine playCurrent_matches ?_ rfl hlen hk hpos hjob hstarted happlied
    refine ⟨rfl, rfl, hthis, rfl, by simp [rewind], ?_⟩
    intro _
    exact ⟨by simp [rewind], Nat.mul_pos (Nat.succ_pos _) hpos⟩
  next hempty =>
    have hnil : frames blinkInfo = [] := by
      rwa [Nat.not_lt, Nat.le_zero, List.length_eq_zero_iff] at hempty
    have hnone : Track.next ⟨frames blinkInfo, Player.roundsOf (iterations blinkInfo), 0, 0⟩ =
        none := by
      unfold Track.next
      rw [hnil]
      split
      · rfl
      · exact if_neg (Nat.lt_irrefl 0)
    rw [Player.step, Player.showNext, hnone]
    exact Matches.of_idle hstarted happlied hjob

theorem start_matches (h : Matches p s.blink) :
    Matches (p.step .start) (start dev s).2.blink := by
  have hkept := h.started
  simp only [start, Player.step, ← hkept]
  split
  · exact h
  · refine ⟨rfl, h.applied, ?_, ?_⟩
    · intro hnone
      exact h.idle (Option.map_eq_none_iff.mp hnone)
    · intro t' ht'
      obtain ⟨t, ht, rfl⟩ := Option.map_eq_some_iff.mp ht'
      obtain ⟨this, k, m, hfollows⟩ := h.track t ht
      refine ⟨this, 0, 0, ⟨hfollows.list_eq, hfollows.blinking, hfollows.owner, rfl, ?_, ?_⟩, rfl,
        rfl, hfollows.length, by decide, hfollows.pos, hfollows.job⟩
      · simp
      · intro _
        refine ⟨by simp, ?_⟩
        rw [total]
        simpa using hfollows.pos

theorem instance_matches {poweredOn : Bool} {profileType : Profile} (hvalid : Valid s.blink)
    (h : Matches p s.blink) :
    Matches (p.step (.instance_ this poweredOn profileType))
      (instance_ dev this poweredOn profileType s).blink := by
  unfold instance_
  split
  · exact h
  · simp only [construct]
    split
    · exact h
    next hnone =>
      have hjob := hvalid.no_job hnone
      refine ⟨h.started, h.applied, fun _ ↦ hjob, ?_⟩
      intro t ht
      cases (h.no_track hjob).symm.trans ht

theorem step_matches (hvalid : Valid s.blink) (h : Matches p s.blink)
    (hset : ∀ blinkInfo, a = .setBlink blinkInfo →
      (frames blinkInfo).length ≤ 2 ^ 31 ∧ iterations blinkInfo < 2 ^ 31 - 1)
    (hs : step dev s a = some s') : Matches (p.step a) s'.blink := by
  rcases step_method hs with ⟨fp, poweredOn, profileType, rfl⟩ | ⟨j, rfl⟩ | ⟨this, hthis, hm⟩
  · obtain rfl := Option.some.inj hs
    exact instance_matches hvalid h
  · exact fire_matches hvalid h hs
  · have hstop : Matches { p with track := none } (stopBlinkTimer this s.blink) :=
      Matches.of_idle h.started h.applied (hvalid.stop hthis).no_job
    cases a with
    | instance_ fp poweredOn profileType => cases hm
    | fire j => cases hm
    | setBlink blinkInfo =>
      obtain rfl := Option.some.inj hm
      obtain ⟨hlen, hk⟩ := hset blinkInfo rfl
      exact setBlink_matches hvalid hthis h.started h.applied hlen hk
    | start =>
      obtain rfl := Option.some.inj hm
      exact start_matches h
    | setPowerStatus bPowerStatus =>
      obtain rfl := Option.some.inj hm
      exact h
    | getBrightness =>
      obtain rfl := Option.some.inj hm
      exact h
    | deinit =>
      obtain rfl := Option.some.inj hm
      exact ⟨hstop.started, hstop.applied, hstop.idle, nofun⟩
    | setBrightness b =>
      obtain rfl := Option.some.inj hm
      exact Matches.of_idle h.started h.applied ((hvalid.stop hthis).stop this).no_job
    | stop =>
      obtain rfl := Option.some.inj hm
      exact hstop
    | powerOnLed fp_indicator =>
      obtain rfl := Option.some.inj hm
      exact hstop
    | powerOffLed fp_indicator =>
      obtain rfl := Option.some.inj hm
      exact hstop
    | powerOnAllLed =>
      obtain rfl := Option.some.inj hm
      exact hstop
    | powerOffAllLed =>
      obtain rfl := Option.some.inj hm
      exact hstop
    | setLED parameters =>
      obtain rfl := Option.some.inj hm
      exact hstop

theorem run_matches (hvalid : Valid s.blink) (h : Matches p s.blink)
    (hrun : Run (step dev) s tr s')
    (hset : ∀ blinkInfo, .setBlink blinkInfo ∈ tr →
      (frames blinkInfo).length ≤ 2 ^ 31 ∧ iterations blinkInfo < 2 ^ 31 - 1) :
    Matches (tr.foldl Player.step p) s'.blink ∧ Valid s'.blink := by
  induction hrun with
  | nil => exact ⟨h, hvalid⟩
  | @snoc tr s₁ s₂ a _ hs ih =>
    obtain ⟨hbefore, hvalid₁⟩ := ih fun blinkInfo hmem ↦
      hset blinkInfo (List.mem_append_left _ hmem)
    rw [List.foldl_append]
    refine ⟨step_matches hvalid₁ hbefore ?_ hs, step_valid hvalid₁ hs⟩
    rintro blinkInfo rfl
    exact hset blinkInfo (List.mem_append_right _ (List.mem_singleton_self _))

/-- Over any run, the frames that the indicators are given and the time that the
timer is set for are those of the player. -/
theorem run_plays (hrun : Run (step dev) (.init device) tr s)
    (hset : ∀ blinkInfo, .setBlink blinkInfo ∈ tr →
      (frames blinkInfo).length ≤ 2 ^ 31 ∧ iterations blinkInfo < 2 ^ 31 - 1) :
    s.blink.applied = (Player.run tr).applied ∧
      s.blink.blinkTimer.map Job.delay = ((Player.run tr).track.map Track.delay).toList := by
  have hstart : Matches Player.init (State.init device).blink := ⟨rfl, rfl, fun _ ↦ rfl, nofun⟩
  have hvalid : Valid (State.init device).blink := Idle.valid ⟨rfl, rfl, rfl⟩
  obtain ⟨hmatches, -⟩ := run_matches hvalid hstart hrun hset
  refine ⟨hmatches.applied, ?_⟩
  cases ht : (Player.run tr).track with
  | none =>
    rw [hmatches.idle ht]
    rfl
  | some t =>
    obtain ⟨this, k, m, hfollows⟩ := hmatches.track t ht
    rw [hfollows.job]
    rfl

/-- A blink that the first `start` cuts to one round. -/
def startedLate : List Action :=
  [.instance_ 1 true .stb, .setBlink fivefold, .fire 0, .start, .getBrightness,
    .setPowerStatus true]

theorem run_plays_startedLate : ∃ s, Run (step quietDevice) (.init ()) startedLate s ∧
    s.blink.applied = (Player.run startedLate).applied ∧
      s.blink.blinkTimer.map Job.delay =
        ((Player.run startedLate).track.map Track.delay).toList := by
  obtain ⟨s, hs⟩ : ∃ s, Run (step quietDevice) (.init ()) startedLate s :=
    exists_run (by decide +kernel)
  refine ⟨s, hs, run_plays hs ?_⟩
  intro blinkInfo hmem
  obtain rfl : blinkInfo = fivefold := by simpa [startedLate] using hmem
  exact ⟨by decide, by decide⟩

namespace Player

variable {list before : List FrontPanelBlinkInfo} {rounds : Option ℕ} {t : Track} {p : Player}
  {a : Action} {tr : List Action}

/-- Nothing but `list` has been shown since `before`, no more often than `rounds` tells. -/
structure Plays (list : List FrontPanelBlinkInfo) (rounds : Option ℕ)
    (before : List FrontPanelBlinkInfo) (n : ℕ) (p : Player) : Prop where
  applied : p.applied = before ++ played list n
  bounded : ∀ r, rounds = some r → n ≤ r * list.length
  track : ∀ t, p.track = some t → t.list = list ∧ t.rounds = rounds ∧ t.shown = n

theorem next_eq_some {frame : FrontPanelBlinkInfo} (h : t.next = some frame) :
    t.list[t.shown % t.list.length]? = some frame ∧
      ∀ r, t.rounds = some r → t.shown + 1 ≤ r * t.list.length := by
  unfold Track.next at h
  split at h
  next hrounds => exact ⟨h, by simp [hrounds]⟩
  next r hrounds =>
    split at h
    next hlt =>
      refine ⟨h, fun r' hr' ↦ ?_⟩
      obtain rfl := Option.some.inj (hrounds.symm.trans hr')
      exact hlt
    · cases h

theorem showNext_plays {n : ℕ} (happlied : p.applied = before ++ played list n)
    (hbounded : ∀ r, rounds = some r → n ≤ r * list.length)
    (htrack : t.list = list ∧ t.rounds = rounds ∧ t.shown = n) :
    ∃ n', Plays list rounds before n' (p.showNext t) := by
  obtain ⟨rfl, rfl, rfl⟩ := htrack
  cases hnext : t.next with
  | none =>
    refine ⟨t.shown, ?_⟩
    rw [showNext, hnext]
    exact ⟨happlied, hbounded, nofun⟩
  | some frame =>
    obtain ⟨hframe, hle⟩ := next_eq_some hnext
    refine ⟨t.shown + 1, ?_⟩
    rw [showNext, hnext]
    refine ⟨?_, hle, ?_⟩
    · dsimp only
      rw [happlied, played_succ hframe, List.append_assoc]
    · intro t' ht'
      obtain rfl := Option.some.inj ht'
      exact ⟨rfl, rfl, rfl⟩

theorem showNext_started (p : Player) (t : Track) : (p.showNext t).started = p.started := by
  unfold showNext
  split <;> rfl

theorem step_started (h : p.started = true) (a : Action) : (p.step a).started = true := by
  cases a with
  | setBlink blinkInfo => rwa [step, showNext_started]
  | fire k =>
    unfold step
    cases p.track with
    | none => exact h
    | some t => rwa [showNext_started]
  | start => rwa [step, if_pos h]
  | _ => exact h

theorem step_plays {n : ℕ} (h : Plays list rounds before n p) (ha : isSetBlink a = false)
    (hstart : a = .start → p.started = true) : ∃ n', Plays list rounds before n' (p.step a) := by
  have hstop : Plays list rounds before n { p with track := none } :=
    ⟨h.applied, h.bounded, nofun⟩
  cases a with
  | setBlink blinkInfo => cases ha
  | fire k =>
    unfold step
    cases ht : p.track with
    | none => exact ⟨n, h⟩
    | some t => exact showNext_plays h.applied h.bounded (h.track t ht)
  | start =>
    rw [step, if_pos (hstart rfl)]
    exact ⟨n, h⟩
  | instance_ this poweredOn profileType => exact ⟨n, h⟩
  | setPowerStatus bPowerStatus => exact ⟨n, h⟩
  | getBrightness => exact ⟨n, h⟩
  | _ => exact ⟨n, hstop⟩

theorem foldl_plays {n : ℕ} (h : Plays list rounds before n p)
    (hset : ∀ a ∈ tr, isSetBlink a = false) (hstart : .start ∈ tr → p.started = true) :
    ∃ n', Plays list rounds before n' (tr.foldl step p) := by
  induction tr generalizing p n with
  | nil => exact ⟨n, h⟩
  | cons a tr ih =>
    obtain ⟨ha, hset⟩ := List.forall_mem_cons.mp hset
    obtain ⟨n', hstep⟩ := step_plays h ha fun he ↦ hstart (he ▸ List.mem_cons_self)
    exact ih hstep hset fun hmem ↦ step_started (hstart (List.mem_cons_of_mem a hmem)) a

end Player

/-- Whatever is called after a `setBlink`, but for a first `start`, the frames that are shown
up to the next one are its pattern played over and over, up to some frame and as often as is
asked for. -/
theorem blink_prefix {pre post : List Action} {u : State D} {blinkInfo : JsonObject}
    (hrun : Run (step dev) (.init device) (pre ++ .setBlink blinkInfo :: post) s)
    (hpre : Run (step dev) (.init device) pre u) (hlen : (frames blinkInfo).length ≤ 2 ^ 31)
    (hk : iterations blinkInfo < 2 ^ 31 - 1) (hpost : ∀ a ∈ post, isSetBlink a = false)
    (hstart : .start ∈ post → u.blink.started = true) :
    ∃ n, s.blink.applied = u.blink.applied ++ played (frames blinkInfo) n ∧
      (0 ≤ iterations blinkInfo →
        n ≤ ((iterations blinkInfo).toNat + 1) * (frames blinkInfo).length) := by
  obtain ⟨u₀, u', hu₀, hset, hrest⟩ := hrun.split
  obtain rfl := hu₀.functional hpre
  obtain ⟨this, hthis, rfl⟩ := step_setBlink hset
  have hvalid := run_valid hpre
  set p : Player := ⟨u₀.blink.started, none, u₀.blink.applied⟩
  have hbegin : Matches (p.step (.setBlink blinkInfo)) (setBlink dev this blinkInfo u₀).blink :=
    setBlink_matches hvalid hthis rfl rfl hlen hk
  obtain ⟨hmatches, -⟩ := run_matches (step_valid hvalid hset) hbegin hrest fun info hmem ↦ by
    cases hpost _ hmem
  obtain ⟨n, hplays⟩ := Player.showNext_plays (p := p)
    (t := ⟨frames blinkInfo, Player.roundsOf (iterations blinkInfo), 0, 0⟩) (n := 0)
    (List.append_nil _).symm (fun r _ ↦ Nat.zero_le _) ⟨rfl, rfl, rfl⟩
  obtain ⟨n', hplayed⟩ := Player.foldl_plays hplays hpost fun hmem ↦ by
    rw [Player.showNext_started]
    exact hstart hmem
  refine ⟨n', hmatches.applied.trans hplayed.applied, fun hk₀ ↦ ?_⟩
  exact hplayed.bounded _ (roundsOf_some hk₀)

theorem blink_prefix_startedEarly : ∃ u s, Run (step quietDevice) (.init ())
      [.instance_ 1 true .stb, .start] u ∧
    Run (step quietDevice) (.init ()) [.instance_ 1 true .stb, .start, .setBlink fivefold, .fire 0,
      .start, .fire 0, .setLED [], .getBrightness] s ∧
    ∃ n, s.blink.applied = u.blink.applied ++ played (frames fivefold) n ∧
      (0 ≤ iterations fivefold →
        n ≤ ((iterations fivefold).toNat + 1) * (frames fivefold).length) := by
  obtain ⟨s, hs⟩ : ∃ s, Run (step quietDevice) (.init ()) ([.instance_ 1 true .stb, .start] ++
      .setBlink fivefold :: [.fire 0, .start, .fire 0, .setLED [], .getBrightness]) s :=
    exists_run (by decide +kernel)
  obtain ⟨u, -, hu, -, -⟩ := hs.split
  obtain ⟨w, hw, hstart⟩ : ∃ w, Run (step quietDevice) (.init ())
      [.instance_ 1 true .stb, .start] w ∧ w.blink.started = true :=
    ⟨_, run_iff_foldlM.mpr rfl, rfl⟩
  obtain rfl := hu.functional hw
  exact ⟨u, s, hu, hs, blink_prefix hs hu (by decide) (by decide) (by simp [isSetBlink])
    fun _ ↦ hstart⟩

end Peripherals.FrontPanel
