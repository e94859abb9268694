import Peripherals.Execution
import Peripherals.FrontPanel.CFrontPanel

namespace Peripherals.FrontPanel

open Thunder Execution

variable {D : Type} {dev : Device D} {s s' : State D} {b : Blink} {this : InstanceId} {a : Action}

/-- At most one job is pending, and it finds what it needs. -/
structure Valid (b : Blink) : Prop where
  one_job : b.blinkTimer.length ≤ 1
  blinking : b.blinkTimer ≠ [] → b.m_isBlinking = true
  index : b.blinkTimer ≠ [] → 0 ≤ b.m_currentBlinkListIndex ∧
    b.m_currentBlinkListIndex < b.m_blinkList.length
  owner : ∀ job ∈ b.blinkTimer, b.s_instance = some job.m_frontPanel
  no_throw : b.outOfRange = false
  no_dangling : b.dangling = false

structure Idle (b : Blink) : Prop where
  no_job : b.blinkTimer = []
  no_throw : b.outOfRange = false
  no_dangling : b.dangling = false

theorem Idle.valid (h : Idle b) : Valid b where
  one_job := by simp [h.no_job]
  blinking := fun hne ↦ (hne h.no_job).elim
  index := fun hne ↦ (hne h.no_job).elim
  owner := by simp [h.no_job]
  no_throw := h.no_throw
  no_dangling := h.no_dangling

theorem Valid.stop (h : Valid b) (hthis : b.s_instance = some this) :
    Idle (stopBlinkTimer this b) := by
  refine ⟨?_, h.no_throw, h.no_dangling⟩
  simp only [stopBlinkTimer, revoke, clearBlinking, List.filter_eq_nil_iff]
  intro job hjob
  have howner := hthis.symm.trans (h.owner job hjob)
  simpa using (Option.some.inj howner).symm

theorem Valid.no_job (h : Valid b) (hnone : b.s_instance = none) : b.blinkTimer = [] := by
  by_contra hne
  obtain ⟨job, hmem⟩ := List.exists_mem_of_ne_nil _ hne
  have howner := h.owner job hmem
  rw [hnone] at howner
  cases howner

/-- No job is pending and the current frame exists. -/
structure Ready (this : InstanceId) (b : Blink) : Prop extends Idle b where
  owner : b.s_instance = some this
  nonneg : 0 ≤ b.m_currentBlinkListIndex
  lt_length : b.m_currentBlinkListIndex < b.m_blinkList.length

theorem at?_isSome {l : List FrontPanelBlinkInfo} {index : Int} (h₀ : 0 ≤ index)
    (h : index < l.length) : ∃ blinkInfo, at? l index = some blinkInfo := by
  have hlt : index.toNat < l.length := by omega
  exact ⟨l[index.toNat], by rw [at?, if_neg (by omega), List.getElem?_eq_getElem hlt]⟩

theorem playCurrent_valid (h : Ready this s.blink) : Valid (playCurrent dev this s).blink := by
  obtain ⟨blinkInfo, hat⟩ := at?_isSome h.nonneg h.lt_length
  simp only [playCurrent, applyCurrent, hat, scheduleIfBlinking, setBlinkLed]
  split_ifs with hflag
  · refine ⟨?_, fun _ ↦ hflag, fun _ ↦ ⟨h.nonneg, h.lt_length⟩, ?_, h.no_throw, h.no_dangling⟩
    · simp [schedule, h.no_job]
    · simp [schedule, h.no_job, h.owner]
  · exact Idle.valid ⟨h.no_job, h.no_throw, h.no_dangling⟩

theorem advance_ready (h : Ready this b) : Ready this (advance b).2 := by
  obtain ⟨⟨hjob, hthrow, hdangling⟩, howner, h₀, hlt⟩ := h
  unfold advance
  dsimp only
  split_ifs with hend
  · exact ⟨⟨hjob, hthrow, hdangling⟩, howner, Int.le_refl 0, by dsimp only; omega⟩
  · simp only [pastEnd, Bool.or_eq_true, decide_eq_true_eq, not_or] at hend
    exact ⟨⟨hjob, hthrow, hdangling⟩, howner, by dsimp only; omega, by dsimp only; omega⟩

theorem onBlinkTimer_valid (h : Ready this s.blink) : Valid (onBlinkTimer dev this s).blink := by
  have hready := advance_ready h
  unfold onBlinkTimer
  split
  · rename_i b' hb
    rw [hb] at hready
    exact playCurrent_valid hready
  · rename_i b' hb
    rw [hb] at hready
    exact hready.toIdle.valid

theorem setBlink_valid (h : Valid s.blink) (hthis : s.blink.s_instance = some this)
    (blinkInfo : JsonObject) : Valid (setBlink dev this blinkInfo s).blink := by
  have hlist (l : List FrontPanelBlinkInfo) :
      Idle { stopBlinkTimer this s.blink with m_blinkList := l } :=
    let hstop := h.stop hthis
    ⟨hstop.no_job, hstop.no_throw, hstop.no_dangling⟩
  have hrewind (l : List FrontPanelBlinkInfo) (n : Int) :
      Idle (rewind this n { stopBlinkTimer this s.blink with m_blinkList := l }) :=
    let hstop := (hlist l).valid.stop hthis
    ⟨hstop.no_job, hstop.no_throw, hstop.no_dangling⟩
  unfold setBlink startBlinkTimer
  dsimp only
  split_ifs with hlen
  · exact playCurrent_valid ⟨hrewind _ _, hthis, Int.le_refl 0, Int.ofNat_lt.mpr hlen⟩
  · exact (hrewind _ _).valid

/-- The operations that call `stopBlinkTimer` and start nothing. -/
def stops : Action → Bool
  | .deinit | .stop | .powerOnLed _ | .powerOffLed _ | .powerOnAllLed | .powerOffAllLed
  | .setBrightness _ | .setLED _ => true
  | .instance_ .. | .start | .setPowerStatus _ | .getBrightness | .setBlink _ | .fire _ => false

/-- What the operations other than `setBlink` do to blinking. -/
inductive Control : Action → Blink → Blink → Prop
  | keep {a : Action} {b : Blink} : stops a = false → Control a b b
  | stop {a : Action} {b : Blink} {this : InstanceId} :
      b.s_instance = some this → Control a b (stopBlinkTimer this b)
  | stop_twice {a : Action} {b : Blink} {this : InstanceId} :
      b.s_instance = some this → Control a b (stopBlinkTimer this (stopBlinkTimer this b))
  | delete {b : Blink} {this : InstanceId} : b.s_instance = some this →
      Control .deinit b { stopBlinkTimer this b with s_instance := none }
  | construct {b : Blink} (this : InstanceId) (poweredOn : Bool) (profileType : Profile) :
      Control (.instance_ this poweredOn profileType) b (construct this b)
  | start {b : Blink} : Control .start b { b with
      m_numberOfBlinks := 0, m_maxNumberOfBlinkRepeats := 0, m_currentBlinkListIndex := 0,
      started := true }

theorem advance_lists (b : Blink) :
    (advance b).2.m_blinkList = b.m_blinkList ∧ (advance b).2.applied = b.applied := by
  unfold advance
  dsimp only
  split_ifs <;> exact ⟨rfl, rfl⟩

theorem step_method (hs : step dev s a = some s') : (∃ p q r, a = .instance_ p q r) ∨
    (∃ k, a = .fire k) ∨
    ∃ this, s.blink.s_instance = some this ∧ method dev this s a = some s' := by
  unfold step at hs
  split at hs
  · exact .inl ⟨_, _, _, rfl⟩
  · exact .inr (.inl ⟨_, rfl⟩)
  · split at hs
    · exact .inr (.inr ⟨_, ‹_›, hs⟩)
    · cases hs

theorem step_setBlink {blinkInfo : JsonObject} (hs : step dev s (.setBlink blinkInfo) = some s') :
    ∃ this, s.blink.s_instance = some this ∧ s' = setBlink dev this blinkInfo s := by
  rcases step_method hs with ⟨_, _, _, hinstance⟩ | ⟨_, hfire⟩ | ⟨this, hthis, hm⟩
  · cases hinstance
  · cases hfire
  · exact ⟨this, hthis, (Option.some.inj hm).symm⟩

theorem step_fire {k : ℕ} (hs : step dev s (.fire k) = some s') :
    ∃ job, s.blink.blinkTimer[k]? = some job ∧ s' = timed dev job.m_frontPanel
      { s with blink := { s.blink with blinkTimer := s.blink.blinkTimer.eraseIdx k } } := by
  simp only [step, fire] at hs
  split at hs
  · exact ⟨_, ‹_›, (Option.some.inj hs).symm⟩
  · cases hs

theorem method_control (hthis : s.blink.s_instance = some this)
    (hs : method dev this s a = some s') : Control a s.blink s'.blink ∨
      ∃ blinkInfo, a = .setBlink blinkInfo ∧ s' = setBlink dev this blinkInfo s := by
  cases a with
  | instance_ fp poweredOn profileType => cases hs
  | fire k => cases hs
  | deinit =>
    obtain rfl := Option.some.inj hs
    exact .inl (.delete hthis)
  | start =>
    obtain rfl := Option.some.inj hs
    left
    unfold start
    dsimp only
    split_ifs
    · exact .keep rfl
    · exact .start
  | stop =>
    obtain rfl := Option.some.inj hs
    exact .inl (.stop hthis)
  | setPowerStatus bPowerStatus =>
    obtain rfl := Option.some.inj hs
    exact .inl (.keep rfl)
  | powerOnLed fp_indicator =>
    obtain rfl := Option.some.inj hs
    exact .inl (.stop hthis)
  | powerOffLed fp_indicator =>
    obtain rfl := Option.some.inj hs
    exact .inl (.stop hthis)
  | powerOnAllLed =>
    obtain rfl := Option.some.inj hs
    exact .inl (.stop hthis)
  | powerOffAllLed =>
    obtain rfl := Option.some.inj hs
    exact .inl (.stop hthis)
  | setBrightness fp_brightness =>
    obtain rfl := Option.some.inj hs
    exact .inl (.stop_twice hthis)
  | getBrightness =>
    obtain rfl := Option.some.inj hs
    exact .inl (.keep rfl)
  | setLED parameters =>
    obtain rfl := Option.some.inj hs
    exact .inl (.stop hthis)
  | setBlink blinkInfo => exact .inr ⟨blinkInfo, rfl, (Option.some.inj hs).symm⟩

theorem step_control (hs : step dev s a = some s') : Control a s.blink s'.blink ∨
    (∃ this blinkInfo, a = .setBlink blinkInfo ∧ s.blink.s_instance = some this ∧
      s' = setBlink dev this blinkInfo s) ∨
    ∃ k job, a = .fire k ∧ s.blink.blinkTimer[k]? = some job ∧
      s' = timed dev job.m_frontPanel
        { s with blink := { s.blink with blinkTimer := s.blink.blinkTimer.eraseIdx k } } := by
  rcases step_method hs with ⟨fp, poweredOn, profileType, rfl⟩ | ⟨k, rfl⟩ | ⟨this, hthis, hm⟩
  · obtain rfl := Option.some.inj hs
    left
    unfold instance_
    split_ifs
    · exact .keep rfl
    · exact .construct fp poweredOn profileType
  · obtain ⟨job, hjob, hs'⟩ := step_fire hs
    exact .inr (.inr ⟨k, job, rfl, hjob, hs'⟩)
  · rcases method_control hthis hm with hc | ⟨blinkInfo, rfl, rfl⟩
    · exact .inl hc
    · exact .inr (.inl ⟨this, blinkInfo, rfl, hthis, rfl⟩)

theorem Idle.stop (h : Idle b) (this : InstanceId) : Idle (stopBlinkTimer this b) :=
  ⟨by simp [stopBlinkTimer, revoke, clearBlinking, h.no_job], h.no_throw, h.no_dangling⟩

theorem control_idle {b' : Blink} (hc : Control a b b') (h : Idle b) : Idle b' := by
  cases hc with
  | keep _ => exact h
  | stop _ => exact h.stop _
  | stop_twice _ => exact (h.stop _).stop _
  | delete _ =>
    obtain ⟨hjob, hthrow, hdangling⟩ := h.stop _
    exact ⟨hjob, hthrow, hdangling⟩
  | construct fp _ _ =>
    unfold construct
    split
    · exact h
    · exact ⟨h.no_job, h.no_throw, h.no_dangling⟩
  | start => exact ⟨h.no_job, h.no_throw, h.no_dangling⟩

theorem control_stops {b' : Blink} (hc : Control a b b') (ha : stops a = true) (h : Valid b) :
    Idle b' := by
  cases hc with
  | keep hkeep =>
    rw [ha] at hkeep
    cases hkeep
  | stop hthis => exact h.stop hthis
  | stop_twice hthis => exact (h.stop hthis).stop _
  | delete hthis =>
    obtain ⟨hjob, hthrow, hdangling⟩ := h.stop hthis
    exact ⟨hjob, hthrow, hdangling⟩
  | construct _ _ _ => cases ha
  | start => cases ha

theorem control_applied {b' : Blink} (hc : Control a b b') : b'.applied = b.applied := by
  cases hc with
  | construct fp _ _ =>
    unfold construct
    split <;> rfl
  | _ => rfl

theorem control_valid {b' : Blink} (hc : Control a b b') (h : Valid b) : Valid b' := by
  cases hc with
  | keep _ => exact h
  | stop hthis => exact (h.stop hthis).valid
  | stop_twice hthis => exact ((h.stop hthis).stop _).valid
  | delete hthis =>
    obtain ⟨hjob, hthrow, hdangling⟩ := h.stop hthis
    exact Idle.valid ⟨hjob, hthrow, hdangling⟩
  | construct fp _ _ =>
    unfold construct
    split
    · exact h
    · rename_i hnone
      exact Idle.valid ⟨h.no_job hnone, h.no_throw, h.no_dangling⟩
  | start => exact ⟨h.one_job, h.blinking, fun hne ↦ ⟨Int.le_refl 0, by
      have hindex := h.index hne
      dsimp only
      omega⟩, h.owner, h.no_throw, h.no_dangling⟩

theorem Valid.timed_eq {k : ℕ} {job : Job} (h : Valid s.blink)
    (hjob : s.blink.blinkTimer[k]? = some job) : timed dev job.m_frontPanel
      { s with blink := { s.blink with blinkTimer := s.blink.blinkTimer.eraseIdx k } } =
        onBlinkTimer dev job.m_frontPanel
          { s with blink := { s.blink with blinkTimer := [] } } := by
  have hempty : s.blink.blinkTimer.eraseIdx k = [] := by
    obtain ⟨hk, -⟩ := List.getElem?_eq_some_iff.mp hjob
    have hone := h.one_job
    rw [← List.length_eq_zero_iff, List.length_eraseIdx_of_lt hk]
    omega
  rw [timed, if_pos (h.owner job (List.mem_of_getElem? hjob)), hempty]

theorem timed_valid {k : ℕ} {job : Job} (h : Valid s.blink)
    (hjob : s.blink.blinkTimer[k]? = some job) : Valid (timed dev job.m_frontPanel
      { s with blink := { s.blink with blinkTimer := s.blink.blinkTimer.eraseIdx k } }).blink := by
  have hmem : job ∈ s.blink.blinkTimer := List.mem_of_getElem? hjob
  have hne : s.blink.blinkTimer ≠ [] := List.ne_nil_of_mem hmem
  rw [h.timed_eq hjob]
  exact onBlinkTimer_valid ⟨⟨rfl, h.no_throw, h.no_dangling⟩, h.owner job hmem,
    (h.index hne).1, (h.index hne).2⟩

theorem step_valid (h : Valid s.blink) (hs : step dev s a = some s') : Valid s'.blink := by
  rcases step_control hs with hc | ⟨this, blinkInfo, -, hthis, rfl⟩ | ⟨k, job, -, hjob, rfl⟩
  · exact control_valid hc h
  · exact setBlink_valid h hthis blinkInfo
  · exact timed_valid h hjob

theorem run_valid {device : D} {tr : List Action} (h : Run (step dev) (State.init device) tr s) :
    Valid s.blink :=
  h.invariant (I := fun s ↦ Valid s.blink) (Idle.valid ⟨rfl, rfl, rfl⟩)
    fun _ _ _ hv hs ↦ step_valid hv hs

def isSetBlink : Action → Bool
  | .setBlink _ => true
  | _ => false

theorem step_idle (h : Idle s.blink) (ha : isSetBlink a = false) (hs : step dev s a = some s') :
    Idle s'.blink ∧ s'.blink.applied = s.blink.applied := by
  rcases step_control hs with hc | ⟨this, blinkInfo, rfl, -, -⟩ | ⟨k, job, -, hjob, -⟩
  · exact ⟨control_idle hc h, control_applied hc⟩
  · cases ha
  · simp [h.no_job] at hjob

theorem step_stops (h : Valid s.blink) (ha : stops a = true) (hs : step dev s a = some s') :
    Idle s'.blink ∧ s'.blink.applied = s.blink.applied := by
  rcases step_control hs with hc | ⟨this, blinkInfo, rfl, -, -⟩ | ⟨k, job, rfl, -, -⟩
  · exact ⟨control_stops hc ha h, control_applied hc⟩
  · cases ha
  · cases ha

theorem run_idle {tr : List Action} (h : Idle s.blink) (htr : ∀ a ∈ tr, isSetBlink a = false)
    (hr : Run (step dev) s tr s') : Idle s'.blink ∧ s'.blink.applied = s.blink.applied :=
  hr.invariant_of_forall (I := fun u ↦ Idle u.blink ∧ u.blink.applied = s.blink.applied)
    (Q := fun a ↦ isSetBlink a = false) htr ⟨h, rfl⟩ fun _ _ _ hu ha hs ↦
      let hidle := step_idle hu.1 ha hs
      ⟨hidle.1, hidle.2.trans hu.2⟩

/-- The blink state machine never plays outside of its list, and an operation
that stops it silences it until the next `setBlink`. -/
theorem blinking_safe (dev : Device D) (device : D) (tr : List Action) (s : State D)
    (h : Run (step dev) (State.init device) tr s) : Valid s.blink ∧
      ∀ pre a mid post u v, tr = pre ++ a :: (mid ++ post) → stops a = true →
        (∀ b ∈ mid, isSetBlink b = false) → Run (step dev) (State.init device) pre u →
          Run (step dev) u (a :: mid) v → v.blink.applied = u.blink.applied := by
  refine ⟨run_valid h, fun pre a mid post u v _ ha hmid hu hv ↦ ?_⟩
  obtain ⟨u', hs, hv⟩ := run_cons.mp hv
  obtain ⟨hidle, happlied⟩ := step_stops (run_valid hu) ha hs
  exact (run_idle hidle hmid hv).2.trans happlied

def quietDevice : Device Unit where
  getIndicators := fun d ↦ (some [], d)
  getInstance := fun _ d ↦ (some (), d)
  getColor := fun _ d ↦ (some (), d)
  setState := fun _ _ d ↦ (some (), d)
  setColor := fun _ _ _ d ↦ (some (), d)
  getBrightness := fun _ _ d ↦ (some 100, d)
  setBrightness := fun _ _ _ d ↦ (some (), d)

def fivefold : JsonObject :=
  [("ledIndicator", .ofString "power_led"), ("iterations", .ofNat 5),
    ("pattern", .ofArray [.ofObject [("red", .ofNat 255), ("duration", .ofNat 100)]])]

def playback : List Action :=
  [.instance_ 1 true .stb, .start, .setBlink fivefold, .fire 0, .fire 0, .setLED fivefold, .deinit,
    .instance_ 2 true .tv, .getBrightness]

theorem blinking_safe_playback :
    ∃ s, Run (step quietDevice) (State.init ()) playback s ∧ Valid s.blink := by
  obtain ⟨s, hs⟩ : ∃ s, Run (step quietDevice) (State.init ()) playback s :=
    exists_run (by decide +kernel)
  exact ⟨s, hs, (blinking_safe quietDevice () playback s hs).1⟩

end Peripherals.FrontPanel
