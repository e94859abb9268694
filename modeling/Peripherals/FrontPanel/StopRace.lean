import Peripherals.Execution
import Peripherals.FrontPanel.BlinkInvariant

namespace Peripherals.FrontPanel.StopRace

open Thunder Execution

variable {D : Type}

inductive TimerThread
  | idle
  | testing (blinkInfo : FrontPanelBlinkInfo)
  | scheduling (blinkInfo : FrontPanelBlinkInfo)

inductive ApiThread
  | idle
  | stopping

structure Threads (D : Type) where
  front : State D
  timer : TimerThread
  api : ApiThread

/-- A front panel that `CFrontPanel::instance` has made at `this`. -/
def Threads.init (this : InstanceId) (device : D) : Threads D :=
  ⟨⟨.init device, construct this .init⟩, .idle, .idle⟩

inductive Action
  | enter (k : ℕ)
  | test
  | schedule
  | clearBlinking
  | revoke
  | setBlink (blinkInfo : JsonObject)

/-- `onBlinkTimer` up to its test of `m_isBlinking`. -/
def enter (dev : Device D) (s : State D) : TimerThread × State D :=
  match advance s.blink with
  | (true, b) =>
    match applyCurrent dev { s with blink := b } with
    | (some blinkInfo, s) => (.testing blinkInfo, s)
    | (none, s) => (.idle, s)
  | (false, b) => (.idle, { s with blink := b })

def step (dev : Device D) (this : InstanceId) (t : Threads D) : Action → Option (Threads D)
  | .enter k =>
    match t.timer, t.front.blink.blinkTimer[k]? with
    | .idle, some _ =>
      let b := { t.front.blink with blinkTimer := t.front.blink.blinkTimer.eraseIdx k }
      let (timer, front) := enter dev { t.front with blink := b }
      some { t with front, timer }
    | _, _ => none
  | .test =>
    match t.timer with
    | .testing blinkInfo => some { t with
        timer := if t.front.blink.m_isBlinking then .scheduling blinkInfo else .idle }
    | _ => none
  | .schedule =>
    match t.timer with
    | .scheduling blinkInfo => some { t with
        front := { t.front with blink := schedule this blinkInfo t.front.blink }
        timer := .idle }
    | _ => none
  | .clearBlinking =>
    match t.api with
    | .idle => some { t with
        front := { t.front with blink := clearBlinking t.front.blink }
        api := .stopping }
    | .stopping => none
  | .revoke =>
    match t.api with
    | .stopping => some { t with
        front := { t.front with blink := revoke this t.front.blink }
        api := .idle }
    | .idle => none
  | .setBlink blinkInfo =>
    match t.api with
    | .idle => some { t with front := setBlink dev this blinkInfo t.front }
    | .stopping => none

variable {dev : Device D} {this : InstanceId} {t t' : Threads D} {a : Action} {tr : List Action}

/-- The steps of a callback that nothing interrupts are the `fire` of the whole front panel. -/
theorem callback_refines {k : ℕ} {front : State D} (htimer : t.timer = .idle)
    (hinst : t.front.blink.s_instance = some this)
    (hthis : ∀ job ∈ t.front.blink.blinkTimer, job.m_frontPanel = this)
    (hs : fire dev k t.front = some front) :
    ∃ rest, Run (step dev this) t (.enter k :: rest) { t with front } := by
  obtain ⟨⟨panel, blink⟩, timer, api⟩ := t
  dsimp only at htimer hinst hthis hs ⊢
  subst timer
  unfold fire at hs
  split at hs
  case h_2 => cases hs
  rename_i job hjob
  obtain rfl := Option.some.inj hs
  have howner := hthis job (List.mem_of_getElem? hjob)
  rw [timed, howner, if_pos hinst]
  have henter : step dev this ⟨⟨panel, blink⟩, .idle, api⟩ (.enter k) =
      some ⟨(enter dev ⟨panel, { blink with blinkTimer := blink.blinkTimer.eraseIdx k }⟩).2,
        (enter dev ⟨panel, { blink with blinkTimer := blink.blinkTimer.eraseIdx k }⟩).1, api⟩ := by
    simp only [step, hjob]
  generalize { blink with blinkTimer := blink.blinkTimer.eraseIdx k } = b at henter ⊢
  unfold enter at henter
  unfold onBlinkTimer playCurrent
  rcases hadv : advance b with ⟨_ | _, b'⟩
  · simp only [hadv] at henter ⊢
    exact ⟨[], .one henter⟩
  · rcases hcur : applyCurrent dev ⟨panel, b'⟩ with ⟨_ | blinkInfo, s⟩
    · simp only [hadv, hcur] at henter ⊢
      exact ⟨[], .one henter⟩
    · simp only [hadv, hcur] at henter ⊢
      cases hflag : s.blink.m_isBlinking with
      | false =>
        have htest : step dev this ⟨s, .testing blinkInfo, api⟩ .test = some ⟨s, .idle, api⟩ := by
          simp [step, hflag]
        have hkeep : scheduleIfBlinking this blinkInfo s.blink = s.blink := by
          simp [scheduleIfBlinking, hflag]
        rw [hkeep]
        exact ⟨[.test], .cons henter (.one htest)⟩
      | true =>
        have htest : step dev this ⟨s, .testing blinkInfo, api⟩ .test =
            some ⟨s, .scheduling blinkInfo, api⟩ := by simp [step, hflag]
        have hschedule : step dev this ⟨s, .scheduling blinkInfo, api⟩ .schedule =
            some ⟨⟨s.panel, schedule this blinkInfo s.blink⟩, .idle, api⟩ := rfl
        have hjob : scheduleIfBlinking this blinkInfo s.blink =
            schedule this blinkInfo s.blink := by
          simp [scheduleIfBlinking, hflag]
        rw [hjob]
        exact ⟨[.test, .schedule], .cons henter (.cons htest (.one hschedule))⟩

/-- `true` when `stopBlinkTimer` has returned, `false` with the next `setBlink`. -/
def mark : Action → Option Bool
  | .revoke => some true
  | .setBlink _ => some false
  | .enter _ | .test | .schedule | .clearBlinking => none

def Stopped (tr : List Action) : Prop := latest mark tr = some true

/-- A callback that begins after a stop and before the next `setBlink` applies nothing. -/
def SilentWhenStopped (dev : Device D) (this : InstanceId) (device : D) (tr : List Action) : Prop :=
  ∀ pre k post u u', tr = pre ++ .enter k :: post →
    Run (step dev this) (.init this device) pre u → step dev this u (.enter k) = some u' →
      Stopped pre → u'.front.blink.applied = u.front.blink.applied

/-- A `Revoke` between a callback's test and its `Schedule` is followed by a
`setBlink` before that `Schedule`. -/
def Undisturbed (tr : List Action) : Prop :=
  ∀ pre mid post, tr = pre ++ .test :: (mid ++ .schedule :: post) → .test ∉ mid →
    ∀ x y, mid = x ++ .revoke :: y → ∃ blinkInfo, .setBlink blinkInfo ∈ y

theorem Undisturbed.prefix (h : Undisturbed (tr ++ [a])) : Undisturbed tr :=
  fun pre mid post he ↦ h pre mid (post ++ [a]) (by simp [he])

/-- What a stop leaves behind, and where a callback about to schedule comes from. -/
structure Quiet (this : InstanceId) (tr : List Action) (t : Threads D) : Prop where
  owner : ∀ job ∈ t.front.blink.blinkTimer, job.m_frontPanel = this
  stopping : t.api = .stopping → t.front.blink.m_isBlinking = false
  stopped : Stopped tr → t.front.blink.blinkTimer = [] ∧ t.front.blink.m_isBlinking = false
  tested : ∀ blinkInfo, t.timer = .scheduling blinkInfo → ∃ pre mid,
    tr = pre ++ .test :: mid ∧ .test ∉ mid ∧ ¬ Stopped pre

theorem advance_keeps (b : Blink) : (advance b).2.blinkTimer = b.blinkTimer ∧
    (advance b).2.m_isBlinking = b.m_isBlinking := by
  unfold advance
  dsimp only
  split_ifs <;> exact ⟨rfl, rfl⟩

theorem applyCurrent_keeps (dev : Device D) (s : State D) :
    (applyCurrent dev s).2.blink.blinkTimer = s.blink.blinkTimer ∧
      (applyCurrent dev s).2.blink.m_isBlinking = s.blink.m_isBlinking := by
  unfold applyCurrent
  split <;> exact ⟨rfl, rfl⟩

theorem enter_keeps (dev : Device D) (s : State D) :
    (enter dev s).2.blink.blinkTimer = s.blink.blinkTimer ∧
      (enter dev s).2.blink.m_isBlinking = s.blink.m_isBlinking ∧
      ∀ blinkInfo, (enter dev s).1 ≠ .scheduling blinkInfo := by
  obtain ⟨hqueue, hflag⟩ := advance_keeps s.blink
  unfold enter
  rcases hadv : advance s.blink with ⟨_ | _, b⟩
  · rw [hadv] at hqueue hflag
    exact ⟨hqueue, hflag, fun _ he ↦ by cases he⟩
  · rw [hadv] at hqueue hflag
    obtain ⟨hqueue', hflag'⟩ := applyCurrent_keeps dev { s with blink := b }
    rcases hcur : applyCurrent dev { s with blink := b } with ⟨_ | blinkInfo, s'⟩
    · rw [hcur] at hqueue' hflag'
      simp only [hcur]
      exact ⟨hqueue'.trans hqueue, hflag'.trans hflag, fun _ he ↦ by cases he⟩
    · rw [hcur] at hqueue' hflag'
      simp only [hcur]
      exact ⟨hqueue'.trans hqueue, hflag'.trans hflag, fun _ he ↦ by cases he⟩

theorem playCurrent_owner {s : State D} (h : ∀ job ∈ s.blink.blinkTimer, job.m_frontPanel = this) :
    ∀ job ∈ (playCurrent dev this s).blink.blinkTimer, job.m_frontPanel = this := by
  obtain ⟨hqueue, -⟩ := applyCurrent_keeps dev s
  unfold playCurrent
  rcases hcur : applyCurrent dev s with ⟨_ | blinkInfo, s'⟩
  · rw [hcur] at hqueue
    exact fun job hjob ↦ h job (hqueue ▸ hjob)
  · rw [hcur] at hqueue
    have h' : ∀ job ∈ s'.blink.blinkTimer, job.m_frontPanel = this :=
      fun job hjob ↦ h job (hqueue ▸ hjob)
    simp only [scheduleIfBlinking, schedule]
    split_ifs
    · simpa [or_imp, forall_and] using h'
    · exact h'

theorem setBlink_owner {s : State D} (blinkInfo : JsonObject)
    (h : ∀ job ∈ s.blink.blinkTimer, job.m_frontPanel = this) :
    ∀ job ∈ (setBlink dev this blinkInfo s).blink.blinkTimer, job.m_frontPanel = this := by
  have hrewind (l : List FrontPanelBlinkInfo) (n : Int) : ∀ job ∈ (rewind this n
      { stopBlinkTimer this s.blink with m_blinkList := l }).blinkTimer,
        job.m_frontPanel = this := by
    intro job hjob
    simp only [rewind, stopBlinkTimer, revoke, clearBlinking, List.mem_filter] at hjob
    exact h job hjob.1.1
  unfold setBlink startBlinkTimer
  dsimp only
  split_ifs
  · exact playCurrent_owner (hrewind _ _)
  · exact hrewind _ _

theorem stopped_snoc (ha : mark a = none) : Stopped (tr ++ [a]) ↔ Stopped tr := by
  simp [Stopped, latest_snoc, ha]

theorem not_stopped {blinkInfo : FrontPanelBlinkInfo} (h : Quiet this tr t)
    (ht : t.timer = .scheduling blinkInfo) (hund : Undisturbed (tr ++ [.schedule])) :
    ¬ Stopped tr := by
  obtain ⟨pre, mid, rfl, hmid, hpre⟩ := h.tested blinkInfo ht
  intro hstop
  have hlatest : latest mark (pre ++ .test :: mid) = (latest mark mid).or (latest mark pre) := by
    rw [← List.singleton_append, ← List.append_assoc, latest_append, latest_snoc]
    rfl
  rw [Stopped, hlatest] at hstop
  cases hlast : latest mark mid with
  | none =>
    rw [hlast] at hstop
    exact hpre hstop
  | some v =>
    obtain rfl : v = true := by simpa [hlast] using hstop
    obtain ⟨x, b, y, rfl, hb, hy⟩ := latest_eq_some.mp hlast
    cases b with
    | revoke =>
      obtain ⟨blinkInfo', hmem⟩ := hund pre _ [] (by simp) hmid x y rfl
      have hnone := hy _ hmem
      simp [mark] at hnone
    | _ => cases hb

theorem step_quiet (h : Quiet this tr t) (hund : Undisturbed (tr ++ [a]))
    (hs : step dev this t a = some t') : Quiet this (tr ++ [a]) t' := by
  have hkeep (ha : a ≠ .test) (blinkInfo : FrontPanelBlinkInfo)
      (ht : t.timer = .scheduling blinkInfo) :
      ∃ pre mid, tr ++ [a] = pre ++ .test :: mid ∧ .test ∉ mid ∧ ¬ Stopped pre := by
    obtain ⟨pre, mid, rfl, hmid, hpre⟩ := h.tested blinkInfo ht
    exact ⟨pre, mid ++ [a], by simp, by simp [hmid, Ne.symm ha], hpre⟩
  cases a with
  | enter k =>
    simp only [step] at hs
    split at hs
    case h_2 => cases hs
    rename_i job _ hjob
    obtain rfl := Option.some.inj hs
    obtain ⟨hqueue, hflag, htimer⟩ := enter_keeps dev { t.front with blink :=
      { t.front.blink with blinkTimer := t.front.blink.blinkTimer.eraseIdx k } }
    refine ⟨fun job' hjob' ↦ ?_, fun hapi ↦ hflag.trans (h.stopping hapi), fun hstop ↦ ?_,
      fun blinkInfo ht ↦ (htimer blinkInfo ht).elim⟩
    · rw [hqueue] at hjob'
      exact h.owner job' (List.mem_of_mem_eraseIdx hjob')
    · have hempty := (h.stopped ((stopped_snoc rfl).mp hstop)).1
      simp [hempty] at hjob
  | test =>
    simp only [step] at hs
    split at hs
    case h_2 => cases hs
    obtain rfl := Option.some.inj hs
    refine ⟨h.owner, h.stopping, fun hstop ↦ h.stopped ((stopped_snoc rfl).mp hstop),
      fun blinkInfo ht ↦ ⟨tr, [], rfl, List.not_mem_nil, fun hstop ↦ ?_⟩⟩
    simp [(h.stopped hstop).2] at ht
  | schedule =>
    simp only [step] at hs
    split at hs
    case h_2 => cases hs
    rename_i blinkInfo ht
    obtain rfl := Option.some.inj hs
    refine ⟨?_, h.stopping, fun hstop ↦ ?_, fun _ ht ↦ by cases ht⟩
    · simpa [schedule, or_imp, forall_and] using h.owner
    · exact (not_stopped h ht hund ((stopped_snoc rfl).mp hstop)).elim
  | clearBlinking =>
    simp only [step] at hs
    split at hs
    case h_2 => cases hs
    obtain rfl := Option.some.inj hs
    exact ⟨h.owner, fun _ ↦ rfl,
      fun hstop ↦ ⟨(h.stopped ((stopped_snoc rfl).mp hstop)).1, rfl⟩, hkeep (by simp)⟩
  | revoke =>
    simp only [step] at hs
    split at hs
    case h_2 => cases hs
    rename_i hapi
    obtain rfl := Option.some.inj hs
    refine ⟨fun job hjob ↦ h.owner job (List.mem_of_mem_filter hjob), fun hidle ↦ ?_,
      fun _ ↦ ⟨?_, h.stopping hapi⟩, hkeep (by simp)⟩
    · cases hidle
    · simp only [revoke, List.filter_eq_nil_iff]
      intro job hjob
      simp [h.owner job hjob]
  | setBlink blinkInfo =>
    simp only [step] at hs
    split at hs
    case h_2 => cases hs
    rename_i hapi
    obtain rfl := Option.some.inj hs
    refine ⟨setBlink_owner blinkInfo h.owner, fun hstopping ↦ ?_, fun hstop ↦ ?_, hkeep (by simp)⟩
    · cases hapi.symm.trans hstopping
    · simp [Stopped, latest_snoc, mark] at hstop

theorem run_quiet {device : D} (h : Run (step dev this) (.init this device) tr t)
    (hund : Undisturbed tr) : Quiet this tr t := by
  induction h with
  | nil =>
    refine ⟨fun job hjob ↦ ?_, fun hapi ↦ ?_, fun hstop ↦ ?_, fun _ ht ↦ ?_⟩
    · cases hjob
    · cases hapi
    · cases hstop
    · cases ht
  | snoc _ hs ih => exact step_quiet (ih hund.prefix) hund hs

/-- As long as no stop falls between a callback's test and its `Schedule`, no
callback begins after a stop, and nothing is applied. -/
theorem silent_of_undisturbed (dev : Device D) (this : InstanceId) (device : D)
    (tr : List Action) (hund : Undisturbed tr) : SilentWhenStopped dev this device tr := by
  intro pre k post u u' he hu hs hstop
  have hprefix : Undisturbed pre := by
    intro p mid q hq
    exact hund p mid (q ++ .enter k :: post) (by simp [he, hq])
  have hempty := ((run_quiet hu hprefix).stopped hstop).1
  simp only [step, hempty, List.getElem?_nil] at hs
  split at hs
  · simp_all
  · cases hs

theorem advance_queue (b : Blink) (queue : List Job) :
    advance { b with blinkTimer := queue } =
      ((advance b).1, { (advance b).2 with blinkTimer := queue }) := by
  unfold advance
  dsimp only
  split_ifs <;> rfl

theorem enter_applied {panel : Panel D} {b : Blink} {next : FrontPanelBlinkInfo} (queue : List Job)
    (hagain : (advance b).1 = true)
    (hnext : at? b.m_blinkList (advance b).2.m_currentBlinkListIndex = some next) :
    (enter dev ⟨panel, { b with blinkTimer := queue }⟩).2.blink.applied = b.applied ++ [next] := by
  obtain ⟨hlist, happlied⟩ := advance_lists b
  unfold enter
  rw [advance_queue, hagain]
  simp only [applyCurrent, hlist, hnext, setBlinkLed, happlied]

/-- The condition is sharp: a `Schedule` after a stop makes room for one more
frame if the pattern goes on. -/
theorem not_silent_of_overtaken {device : D} {blinkInfo next : FrontPanelBlinkInfo}
    (h : Run (step dev this) (.init this device) tr t) (ht : t.timer = .scheduling blinkInfo)
    (hstop : Stopped tr) (hagain : (advance t.front.blink).1 = true)
    (hnext : at? t.front.blink.m_blinkList (advance t.front.blink).2.m_currentBlinkListIndex =
      some next) :
    ¬ SilentWhenStopped dev this device (tr ++ [.schedule, .enter 0]) := by
  intro hsilent
  obtain ⟨⟨panel, b⟩, timer, api⟩ := t
  dsimp only at ht hagain hnext
  subst timer
  have hs : step dev this ⟨⟨panel, b⟩, .scheduling blinkInfo, api⟩ .schedule =
      some ⟨⟨panel, schedule this blinkInfo b⟩, .idle, api⟩ := rfl
  have hlen : 0 < (schedule this blinkInfo b).blinkTimer.length := by simp [schedule]
  have hjob := List.getElem?_eq_getElem hlen
  have henter : step dev this ⟨⟨panel, schedule this blinkInfo b⟩, .idle, api⟩ (.enter 0) =
      some ⟨(enter dev ⟨panel, { b with
          blinkTimer := (schedule this blinkInfo b).blinkTimer.eraseIdx 0 }⟩).2,
        (enter dev ⟨panel, { b with
          blinkTimer := (schedule this blinkInfo b).blinkTimer.eraseIdx 0 }⟩).1, api⟩ := by
    simp only [step, hjob]
    rfl
  have heq := hsilent (tr ++ [.schedule]) 0 [] _ _ (by simp) (.snoc h hs) henter
    ((stopped_snoc rfl).mpr hstop)
  rw [enter_applied _ hagain hnext] at heq
  have hlength := congrArg List.length heq
  simp [schedule] at hlength

def stopInTime : List Action := [.setBlink fivefold, .enter 0, .clearBlinking, .test, .revoke]

theorem silent_of_undisturbed_stopInTime : SilentWhenStopped quietDevice 1 () stopInTime := by
  refine silent_of_undisturbed quietDevice 1 () stopInTime fun pre mid post he ↦ ?_
  have hmem : Action.schedule ∈ stopInTime := by simp [he]
  simp [stopInTime] at hmem

/-- The stop falls between the test and the `Schedule`, whose job applies another frame. -/
theorem overtaken_stop_not_silent :
    ¬ ∀ (dev : Device Unit) this device tr, SilentWhenStopped dev this device tr := by
  intro hall
  let pre : List Action := [.setBlink fivefold, .enter 0, .test, .clearBlinking, .revoke, .schedule]
  have h : ((pre.foldlM (step quietDevice 1) (.init 1 ())).bind fun u ↦
      (step quietDevice 1 u (.enter 0)).map fun u' ↦
        (u.front.blink.applied.length, u'.front.blink.applied.length)) = some (2, 3) := by
    decide +kernel
  obtain ⟨u, hu, h⟩ := Option.bind_eq_some_iff.mp h
  obtain ⟨u', hu', h⟩ := Option.map_eq_some_iff.mp h
  have heq := hall quietDevice 1 () _ pre 0 [] u u' rfl (run_iff_foldlM.mpr hu) hu' rfl
  rw [heq] at h
  have hlt := (Prod.mk.inj h).1.symm.trans (Prod.mk.inj h).2
  cases hlt

end Peripherals.FrontPanel.StopRace
