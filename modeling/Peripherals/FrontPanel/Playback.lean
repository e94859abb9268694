import Peripherals.FrontPanel.BlinkInvariant

namespace Peripherals.FrontPanel

open Thunder Execution

section Played

variable {A : Type*} {list : List A} {t : ℕ} {a : A}

/-- The first `t` elements of a list that is repeated without end. -/
def played (list : List A) (t : ℕ) : List A :=
  (List.range t).filterMap fun i ↦ list[i % list.length]?

theorem played_succ (h : list[t % list.length]? = some a) :
    played list (t + 1) = played list t ++ [a] := by
  simp [played, List.range_succ, List.filterMap_append, h]

theorem played_eq_take (h : t ≤ list.length) : played list t = list.take t := by
  induction t with
  | zero => rfl
  | succ t ih =>
    have hlt : t < list.length := by omega
    have hat : list[t % list.length]? = some list[t] := by
      rw [Nat.mod_eq_of_lt hlt, List.getElem?_eq_getElem hlt]
    rw [played_succ hat, ih (by omega), List.take_succ_eq_append_getElem hlt]

theorem played_rounds (list : List A) (rounds : ℕ) :
    played list (rounds * list.length) = (List.replicate rounds list).flatten := by
  induction rounds with
  | zero => simp [played]
  | succ rounds ih =>
    have hround : ((List.range list.length).map (rounds * list.length + ·)).filterMap
        (fun i ↦ list[i % list.length]?) = played list list.length := by
      simp [played, List.filterMap_map]
    rw [Nat.succ_mul, played, List.range_add, List.filterMap_append, hround,
      played_eq_take (Nat.le_refl _), List.take_length, List.replicate_succ',
      List.flatten_append, ← ih, played]
    simp

end Played

variable {D : Type} {dev : Device D} {s s' : State D} {this : InstanceId} {k : Int} {m j : ℕ}
  {list before : List FrontPanelBlinkInfo} {blinkInfo : JsonObject}

/-- The pattern that `setBlink` reads, as it comes into `m_blinkList`. -/
def frames (blinkInfo : JsonObject) : List FrontPanelBlinkInfo :=
  (blinkInfo.get "pattern").array.map fun pattern ↦
    blinkFrame (svc2iarm (blinkInfo.get "ledIndicator").string) pattern.object

def iterations (blinkInfo : JsonObject) : Int :=
  toInt (getNumberParameterObject blinkInfo "iterations")

/-- How many frames are to be applied, where the repeats are counted. -/
def total (list : List FrontPanelBlinkInfo) (k : Int) : ℕ := (k.toNat + 1) * list.length

structure At (this : InstanceId) (list : List FrontPanelBlinkInfo) (k : Int) (m : ℕ)
    (b : Blink) : Prop where
  list_eq : b.m_blinkList = list
  blinking : b.m_isBlinking = true
  owner : b.s_instance = some this
  repeats : b.m_maxNumberOfBlinkRepeats = k
  index : b.m_currentBlinkListIndex = (m % list.length : ℕ)
  rounds : 0 ≤ k → b.m_numberOfBlinks = (m / list.length : ℕ) ∧ m < total list k

structure Due (this : InstanceId) (list : List FrontPanelBlinkInfo) (k : Int)
    (before : List FrontPanelBlinkInfo) (m : ℕ) (b : Blink) : Prop extends At this list k m b where
  no_job : b.blinkTimer = []
  applied : b.applied = before ++ played list m

structure Playing (this : InstanceId) (list : List FrontPanelBlinkInfo) (k : Int)
    (before : List FrontPanelBlinkInfo) (m : ℕ) (b : Blink) : Prop extends At this list k m b where
  job : ∃ frame, list[m % list.length]? = some frame ∧ b.blinkTimer = [⟨this, frame.durationInMs⟩]
  applied : b.applied = before ++ played list (m + 1)

structure Over (list : List FrontPanelBlinkInfo) (k : Int) (before : List FrontPanelBlinkInfo)
    (m : ℕ) (b : Blink) : Prop where
  counted : 0 ≤ k
  fired : m = total list k
  no_job : b.blinkTimer = []
  applied : b.applied = before ++ played list (total list k)

theorem at?_natCast (i : ℕ) : at? list (i : Int) = list[i]? := by
  rw [at?, if_neg (by omega), Int.toNat_natCast]

theorem pastEnd_iff {index : Int} {size : ℕ} :
    pastEnd index size = true ↔ index < 0 ∨ size ≤ index.toNat := by
  simp [pastEnd]

theorem toInt_succ {n : ℕ} (h : n + 1 < 2 ^ 31) : toInt (n + 1) = (n + 1 : ℕ) := by
  unfold toInt
  omega

theorem playCurrent_playing (h : Due this list k before m s.blink) (hpos : 0 < list.length) :
    Playing this list k before m (playCurrent dev this s).blink := by
  obtain ⟨frame, hframe⟩ : ∃ frame, list[m % list.length]? = some frame :=
    ⟨_, List.getElem?_eq_getElem (Nat.mod_lt m hpos)⟩
  have hat : at? s.blink.m_blinkList s.blink.m_currentBlinkListIndex = some frame := by
    rw [h.list_eq, h.index, at?_natCast, hframe]
  have hplay : (playCurrent dev this s).blink = { s.blink with
      applied := s.blink.applied ++ [frame]
      blinkTimer := s.blink.blinkTimer ++ [⟨this, frame.durationInMs⟩] } := by
    simp [playCurrent, applyCurrent, hat, scheduleIfBlinking, setBlinkLed, h.blinking, schedule]
  rw [hplay]
  refine ⟨⟨h.list_eq, h.blinking, h.owner, h.repeats, h.index, h.rounds⟩, ⟨frame, hframe, ?_⟩, ?_⟩
  · rw [h.no_job]
    rfl
  · rw [h.applied, played_succ hframe, List.append_assoc]

theorem setBlink_playing (dev : Device D) (hvalid : Valid s.blink)
    (hthis : s.blink.s_instance = some this) (hne : frames blinkInfo ≠ []) :
    Playing this (frames blinkInfo) (iterations blinkInfo) s.blink.applied 0
      (setBlink dev this blinkInfo s).blink := by
  have hpos : 0 < (frames blinkInfo).length := List.length_pos_of_ne_nil hne
  have hstart : setBlink dev this blinkInfo s = playCurrent dev this { s with
      blink := rewind this (iterations blinkInfo)
        { stopBlinkTimer this s.blink with m_blinkList := frames blinkInfo } } := if_pos hpos
  rw [hstart]
  apply playCurrent_playing
  · refine ⟨⟨rfl, rfl, hthis, rfl, ?_, ?_⟩, ?_, ?_⟩
    · simp [rewind]
    · intro _
      refine ⟨by simp [rewind], ?_⟩
      exact Nat.mul_pos (Nat.succ_pos _) hpos
    · exact ((hvalid.stop hthis).stop this).no_job
    · exact (List.append_nil _).symm
  · exact hpos

theorem next_mod {n : ℕ} (h : m % n + 1 < n) :
    (m + 1) % n = m % n + 1 ∧ (m + 1) / n = m / n := by
  have hm : m + 1 = m % n + 1 + n * (m / n) := by
    have hdiv := Nat.mod_add_div m n
    omega
  rw [hm, Nat.add_mul_mod_self_left, Nat.mod_eq_of_lt h, Nat.add_mul_div_left _ _ (by omega),
    Nat.div_eq_of_lt h, Nat.zero_add]
  exact ⟨rfl, rfl⟩

theorem wrap_mod {n : ℕ} (h : m % n + 1 = n) :
    (m + 1) % n = 0 ∧ (m + 1) / n = m / n + 1 := by
  have hm : m + 1 = n * (m / n + 1) := by
    have hdiv := Nat.mod_add_div m n
    rw [Nat.mul_succ]
    omega
  rw [hm, Nat.mul_mod_right, Nat.mul_div_cancel_left _ (by omega)]
  exact ⟨rfl, rfl⟩

theorem advance_next {b : Blink} (h : At this list k m b) (hlen : list.length ≤ 2 ^ 31)
    (hnext : m % list.length + 1 < list.length) : advance b =
      (true, { b with m_currentBlinkListIndex := (m % list.length + 1 : ℕ) }) := by
  have hindex : toInt (b.m_currentBlinkListIndex + 1) = (m % list.length + 1 : ℕ) := by
    rw [h.index]
    exact toInt_succ (by omega)
  have hend : pastEnd (toInt (b.m_currentBlinkListIndex + 1)) b.m_blinkList.length = false := by
    rw [hindex, h.list_eq, Bool.eq_false_iff, ne_eq, pastEnd_iff]
    omega
  rw [← hindex]
  exact if_neg (ne_true_of_eq_false hend)

theorem advance_wrap {b : Blink} (h : At this list k m b) (hlen : list.length ≤ 2 ^ 31)
    (hwrap : m % list.length + 1 = list.length) : advance b =
      (decide (k < 0 ∨ toInt (b.m_numberOfBlinks + 1) ≤ k),
        { b with
          m_currentBlinkListIndex := 0
          m_numberOfBlinks := toInt (b.m_numberOfBlinks + 1) }) := by
  have hend : pastEnd (toInt (b.m_currentBlinkListIndex + 1)) b.m_blinkList.length = true := by
    rw [h.index, h.list_eq, pastEnd_iff, toInt]
    omega
  rw [← h.repeats]
  exact if_pos hend

theorem At.lt_total {b : Blink} (h : At this list k m b) (hk : 0 ≤ k) (hpos : 0 < list.length) :
    m / list.length < k.toNat + 1 := by
  rw [Nat.div_lt_iff_lt_mul hpos]
  exact (h.rounds hk).2

/-- The step of the cursor: to the next frame, around the end of the list, or to
the end of the last repeat. -/
theorem advance_due {b : Blink} (h : At this list k m b) (hjob : b.blinkTimer = [])
    (happlied : b.applied = before ++ played list (m + 1)) (hlen : list.length ≤ 2 ^ 31)
    (hk : k < 2 ^ 31 - 1) (hpos : 0 < list.length) :
    ((advance b).1 = true ∧ Due this list k before (m + 1) (advance b).2) ∨
      ((advance b).1 = false ∧ Over list k before (m + 1) (advance b).2) := by
  have hlt := Nat.mod_lt m hpos
  obtain hnext | hwrap : m % list.length + 1 < list.length ∨ m % list.length + 1 = list.length := by
    omega
  · obtain ⟨hmod, hdiv⟩ := next_mod hnext
    rw [advance_next h hlen hnext, ← hmod]
    refine .inl ⟨rfl, ⟨h.list_eq, h.blinking, h.owner, h.repeats, rfl, ?_⟩, hjob, happlied⟩
    intro hk₀
    rw [total, ← Nat.div_lt_iff_lt_mul hpos, hdiv]
    exact ⟨(h.rounds hk₀).1, h.lt_total hk₀ hpos⟩
  · obtain ⟨hmod, hdiv⟩ := wrap_mod hwrap
    have hindex : (0 : Int) = ((m + 1) % list.length : ℕ) := by
      rw [hmod]
      rfl
    rw [advance_wrap h hlen hwrap]
    by_cases hk₀ : 0 ≤ k
    · have hlast := h.lt_total hk₀ hpos
      have hnumber : toInt (b.m_numberOfBlinks + 1) = ((m + 1) / list.length : ℕ) := by
        rw [(h.rounds hk₀).1, hdiv]
        exact toInt_succ (by omega)
      obtain hagain | hover : (m + 1) / list.length ≤ k.toNat ∨
          (m + 1) / list.length = k.toNat + 1 := by omega
      · refine .inl ⟨?_, ⟨h.list_eq, h.blinking, h.owner, h.repeats, hindex, ?_⟩, hjob, happlied⟩
        · apply decide_eq_true
          rw [hnumber]
          omega
        · intro _
          refine ⟨hnumber, ?_⟩
          rw [total, ← Nat.div_lt_iff_lt_mul hpos]
          omega
      · have htotal : m + 1 = total list k := by
          have hdivmod := Nat.mod_add_div (m + 1) list.length
          rw [hmod, hover, Nat.zero_add, Nat.mul_comm] at hdivmod
          exact hdivmod.symm
        refine .inr ⟨?_, hk₀, htotal, hjob, ?_⟩
        · apply decide_eq_false
          rw [hnumber]
          omega
        · rw [← htotal]
          exact happlied
    · refine .inl ⟨?_, ⟨h.list_eq, h.blinking, h.owner, h.repeats, hindex, ?_⟩, hjob, happlied⟩
      · apply decide_eq_true
        omega
      · exact fun h₀ ↦ (hk₀ h₀).elim

theorem fire_playing (h : Playing this list k before m s.blink) (hlen : list.length ≤ 2 ^ 31)
    (hk : k < 2 ^ 31 - 1) (hs : step dev s (.fire j) = some s') :
    Playing this list k before (m + 1) s'.blink ∨ Over list k before (m + 1) s'.blink := by
  obtain ⟨frame, hframe, hjob⟩ := h.job
  have hpos : 0 < list.length := by
    have hlt := (List.getElem?_eq_some_iff.mp hframe).1
    omega
  obtain rfl : j = 0 := by
    by_contra hj
    have hnone : s.blink.blinkTimer[j]? = none := by
      rw [hjob, List.getElem?_eq_none_iff, List.length_singleton]
      omega
    simp [step, fire, hnone] at hs
  have hfire : step dev s (.fire 0) = some (onBlinkTimer dev this
      { s with blink := { s.blink with blinkTimer := [] } }) := by
    simp [step, fire, hjob, timed, h.owner]
  obtain rfl := Option.some.inj (hfire.symm.trans hs)
  have hat : At this list k m { s.blink with blinkTimer := [] } :=
    ⟨h.list_eq, h.blinking, h.owner, h.repeats, h.index, h.rounds⟩
  unfold onBlinkTimer
  rcases advance_due hat rfl h.applied hlen hk hpos with ⟨hagain, hdue⟩ | ⟨hagain, hover⟩
  · rcases hadv : advance { s.blink with blinkTimer := [] } with ⟨_ | _, b⟩
    · simp [hadv] at hagain
    · rw [hadv] at hdue
      exact .inl (playCurrent_playing hdue hpos)
  · rcases hadv : advance { s.blink with blinkTimer := [] } with ⟨_ | _, b⟩
    · rw [hadv] at hover
      exact .inr hover
    · simp [hadv] at hagain

theorem run_playing {tr : List Action} (h : Playing this list k before 0 s.blink)
    (hlen : list.length ≤ 2 ^ 31) (hk : k < 2 ^ 31 - 1) (hfires : ∀ a ∈ tr, ∃ j, a = .fire j)
    (hr : Run (step dev) s tr s') : Playing this list k before tr.length s'.blink ∨
      Over list k before tr.length s'.blink := by
  induction hr with
  | nil => exact .inl h
  | snoc _ hs ih =>
    obtain ⟨hbefore, ha⟩ := List.forall_mem_append.mp hfires
    obtain ⟨j, rfl⟩ := ha _ (List.mem_singleton_self _)
    rw [List.length_append, List.length_singleton]
    rcases ih hbefore with hplaying | hover
    · exact fire_playing hplaying hlen hk hs
    · simp [step, fire, hover.no_job] at hs

/-- The timer can fire as long as a frame is due: up to the end of a counted playback, and
without end otherwise. -/
theorem exists_firings (hlen : list.length ≤ 2 ^ 31) (hk : k < 2 ^ 31 - 1) {d : ℕ}
    (hd : 0 ≤ k → m + d ≤ total list k) (h : Playing this list k before m s.blink) :
    ∃ s', Run (step dev) s (List.replicate d (.fire 0)) s' := by
  induction d generalizing m s with
  | zero => exact ⟨s, .nil⟩
  | succ d ih =>
    obtain ⟨frame, -, hjob⟩ := h.job
    obtain ⟨u, hu⟩ : ∃ u, step dev s (.fire 0) = some u := by simp [step, fire, hjob]
    rcases fire_playing h hlen hk hu with hplaying | hover
    · obtain ⟨s', hs'⟩ := ih (by omega) hplaying
      exact ⟨s', .cons hu hs'⟩
    · obtain rfl : d = 0 := by
        have hfired := hover.fired
        have hlast := hd hover.counted
        omega
      exact ⟨u, .one hu⟩

/-- Playback of a list that is repeated `rounds` times, after a number of firings. -/
structure PlaysTimes (dev : Device D) (this : InstanceId) (list : List FrontPanelBlinkInfo)
    (rounds : ℕ) (before : List FrontPanelBlinkInfo) (fires : ℕ) (s : State D) : Prop where
  bounded : fires ≤ rounds * list.length
  applied : s.blink.applied = before ++ played list (min (fires + 1) (rounds * list.length))
  scheduled : fires < rounds * list.length → ∃ frame, list[fires % list.length]? = some frame ∧
    s.blink.blinkTimer = [⟨this, frame.durationInMs⟩]
  finishes : ∃ s', Run (step dev) s
    (List.replicate (rounds * list.length - fires) (.fire 0)) s'
  finished : fires = rounds * list.length → s.blink.blinkTimer = [] ∧
    s.blink.applied = before ++ (List.replicate rounds list).flatten ∧
      s.blink.applied.getLast? = list.getLast?

structure PlaysOn (this : InstanceId) (list before : List FrontPanelBlinkInfo) (fires : ℕ)
    (s : State D) : Prop where
  applied : s.blink.applied = before ++ played list (fires + 1)
  scheduled : ∃ frame, list[fires % list.length]? = some frame ∧
    s.blink.blinkTimer = [⟨this, frame.durationInMs⟩]

theorem getLast?_replicate_flatten {A : Type*} {list before : List A} (hne : list ≠ []) (n : ℕ) :
    (before ++ (List.replicate (n + 1) list).flatten).getLast? = list.getLast? := by
  rw [List.replicate_succ', List.flatten_append, List.flatten_singleton, ← List.append_assoc,
    List.getLast?_append_of_ne_nil _ hne]

/-- After a `setBlink`, the timer plays the pattern, whatever the device does. An
array of Thunder counts its elements in a `uint16_t`, and this holds up to the
lists that an `int` can index. -/
theorem blink_playback {device : D} {tr fires : List Action} {u s₀ : State D}
    (hu : Run (step dev) (State.init device) tr u)
    (hset : step dev u (.setBlink blinkInfo) = some s₀) (hne : frames blinkInfo ≠ [])
    (hlen : (frames blinkInfo).length ≤ 2 ^ 31) (hfires : ∀ a ∈ fires, ∃ j, a = .fire j)
    (h : Run (step dev) s₀ fires s) :
    ∃ this, u.blink.s_instance = some this ∧
      (0 ≤ iterations blinkInfo → iterations blinkInfo < 2 ^ 31 - 1 →
        PlaysTimes dev this (frames blinkInfo) ((iterations blinkInfo).toNat + 1) u.blink.applied
          fires.length s) ∧
      (iterations blinkInfo < 0 →
        PlaysOn this (frames blinkInfo) u.blink.applied fires.length s) := by
  obtain ⟨this, hthis, rfl⟩ := step_setBlink hset
  have hstart := setBlink_playing dev (run_valid hu) hthis hne
  refine ⟨this, hthis, ?_, ?_⟩
  · intro hk₀ hk
    rcases run_playing hstart hlen hk hfires h with hplaying | hover
    · obtain ⟨-, hlt⟩ := hplaying.rounds hk₀
      rw [total] at hlt
      refine ⟨hlt.le, ?_, fun _ ↦ hplaying.job, ?_, fun heq ↦ by omega⟩
      · rw [Nat.min_eq_left hlt]
        exact hplaying.applied
      · exact exists_firings hlen hk (by rw [total]; omega) hplaying
    · have hfired := hover.fired
      rw [total] at hfired
      have happlied := hover.applied
      rw [total] at happlied
      refine ⟨hfired.le, ?_, fun hlt ↦ by omega, ?_, ?_⟩
      · rw [hfired, Nat.min_eq_right (Nat.le_succ _)]
        exact happlied
      · rw [hfired, Nat.sub_self]
        exact ⟨s, .nil⟩
      · intro _
        rw [played_rounds] at happlied
        refine ⟨hover.no_job, happlied, ?_⟩
        rw [happlied]
        exact getLast?_replicate_flatten hne _
  · intro hk
    rcases run_playing hstart hlen (by omega) hfires h with hplaying | hover
    · exact ⟨hplaying.applied, hplaying.job⟩
    · have hcounted := hover.counted
      omega

theorem blink_playback_fivefold : ∃ u s₀ s,
    Run (step quietDevice) (State.init ()) [.instance_ 1 true .stb, .start] u ∧
      step quietDevice u (.setBlink fivefold) = some s₀ ∧
      Run (step quietDevice) s₀ [.fire 0, .fire 0] s ∧
      ∃ this, u.blink.s_instance = some this ∧
        (0 ≤ iterations fivefold → iterations fivefold < 2 ^ 31 - 1 →
          PlaysTimes quietDevice this (frames fivefold) ((iterations fivefold).toNat + 1)
            u.blink.applied 2 s) ∧
        (iterations fivefold < 0 → PlaysOn this (frames fivefold) u.blink.applied 2 s) := by
  obtain ⟨s, hs⟩ : ∃ s, Run (step quietDevice) (State.init ())
      ([.instance_ 1 true .stb, .start] ++ .setBlink fivefold :: [.fire 0, .fire 0]) s :=
    exists_run (by decide +kernel)
  obtain ⟨u, s₀, hu, hset, hfires⟩ := hs.split
  exact ⟨u, s₀, s, hu, hset, hfires,
    blink_playback hu hset (by decide) (by decide) (by simp) hfires⟩

end Peripherals.FrontPanel
