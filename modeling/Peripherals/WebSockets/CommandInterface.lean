import Peripherals.Execution
import Peripherals.WebSockets.Endpoint
import Mathlib.Logic.Function.Basic
import Mathlib.Tactic.Common

namespace Peripherals.WebSockets.CommandInterface

open Function Execution WSEndpoint

abbrev CallId := ℕ

inductive Wakeup
  | notified | spurious | timeout
  deriving DecidableEq, Repr

/-- Where one call of `sendCommand` stands. A waiting call remembers whether
`notify_one` has picked it. -/
inductive Phase
  | idle
  | sent
  | waiting (notified : Bool)
  | returned (result : Bool) (response : Option String)
  deriving DecidableEq, Repr

structure State where
  lastResponse : String
  calls : CallId → Phase

def State.init : State := ⟨"", fun _ ↦ .idle⟩

def State.setCall (s : State) (c : CallId) (p : Phase) : State :=
  { s with calls := update s.calls c p }

def opcode_ : Opcode := .text

/-- A frame names the waiter that its `notify_one` picks, if any. -/
inductive Action
  | send (c : CallId) (command : String) (ec : Bool)
  | wait (c : CallId)
  | wake (c : CallId) (why : Wakeup)
  | frame (opcode : Opcode) (payload : String) (picked : Option CallId)
  deriving DecidableEq, Repr

/-- The wait has no predicate and its status is dropped: every way to wake up
returns what `lastResponse_` holds. -/
def wake (s : State) (c : CallId) : State := s.setCall c (.returned true (some s.lastResponse))

def onMessage (s : State) (message : String) (picked : Option CallId) : Option State :=
  match picked with
  | none => some { s with lastResponse := message }
  | some c => match s.calls c with
    | .waiting false => some ({ s with lastResponse := message }.setCall c (.waiting true))
    | _ => none

def step (s : State) : Action → Option State
  | .send c command ec => match s.calls c with
    | .idle =>
      if send command ec then some (s.setCall c .sent)
      else some (s.setCall c (.returned false none))
    | _ => none
  | .wait c => match s.calls c with
    | .sent => some (s.setCall c (.waiting false))
    | _ => none
  | .wake c why => match s.calls c with
    | .waiting notified => if why = .notified ∧ ¬ notified then none else some (wake s c)
    | _ => none
  | .frame opcode payload picked => match WSEndpoint.onMessage opcode_ opcode payload with
    | some message => onMessage s message picked
    | none => some s

def delivered : Action → Option String
  | .frame opcode payload _ => WSEndpoint.onMessage opcode_ opcode payload
  | _ => none

variable {s s' t : State} {a : Action} {tr : List Action} {c : CallId}

def Phase.stage : Phase → ℕ
  | .idle => 0
  | .sent => 1
  | .waiting _ => 2
  | .returned _ _ => 3

inductive Moves (s : State) : Action → CallId → Phase → Prop
  | sent {c : CallId} {command : String} {ec : Bool} : s.calls c = .idle →
      Moves s (.send c command ec) c .sent
  | sendFailed {c : CallId} {command : String} {ec : Bool} : s.calls c = .idle →
      Moves s (.send c command ec) c (.returned false none)
  | waiting {c : CallId} : s.calls c = .sent → Moves s (.wait c) c (.waiting false)
  | woken {c : CallId} {why : Wakeup} {notified : Bool} : s.calls c = .waiting notified →
      Moves s (.wake c why) c (.returned true (some s.lastResponse))
  | picked {c : CallId} {opcode : Opcode} {payload : String} : s.calls c = .waiting false →
      Moves s (.frame opcode payload (some c)) c (.waiting true)

theorem step_moves (h : step s a = some s') :
    s'.lastResponse = (delivered a).getD s.lastResponse ∧
      ((s'.calls = s.calls ∧ ∃ opcode payload picked, a = .frame opcode payload picked) ∨
        ∃ c p, Moves s a c p ∧ s'.calls = update s.calls c p) := by
  cases a with
  | send c command ec =>
    simp only [step] at h
    split at h
    case h_2 => cases h
    case h_1 hc =>
      split_ifs at h <;> obtain rfl := Option.some.inj h
      · exact ⟨rfl, .inr ⟨c, _, .sent hc, rfl⟩⟩
      · exact ⟨rfl, .inr ⟨c, _, .sendFailed hc, rfl⟩⟩
  | wait c =>
    simp only [step] at h
    split at h
    case h_2 => cases h
    case h_1 hc =>
      obtain rfl := Option.some.inj h
      exact ⟨rfl, .inr ⟨c, _, .waiting hc, rfl⟩⟩
  | wake c why =>
    simp only [step] at h
    split at h
    case h_2 => cases h
    case h_1 notified hc =>
      split_ifs at h
      obtain rfl := Option.some.inj h
      exact ⟨rfl, .inr ⟨c, _, .woken hc, rfl⟩⟩
  | frame opcode payload picked =>
    simp only [step] at h
    cases hm : WSEndpoint.onMessage opcode_ opcode payload with
    | none =>
      simp only [hm, Option.some.injEq] at h
      subst h
      exact ⟨by simp [delivered, hm], .inl ⟨rfl, _, _, _, rfl⟩⟩
    | some message =>
      simp only [hm, onMessage] at h
      cases picked with
      | none =>
        obtain rfl := Option.some.inj h
        exact ⟨by simp [delivered, hm], .inl ⟨rfl, _, _, _, rfl⟩⟩
      | some c =>
        simp only at h
        split at h
        case h_2 => cases h
        case h_1 hc =>
          obtain rfl := Option.some.inj h
          exact ⟨by simp [delivered, hm, State.setCall], .inr ⟨c, _, .picked hc, rfl⟩⟩

theorem run_lastResponse (h : Run step State.init tr s) :
    s.lastResponse = (latest delivered tr).getD "" :=
  h.eq_latest (v := State.lastResponse) fun _ _ _ hs ↦ (step_moves hs).1

theorem Moves.stage_le {p : Phase} (h : Moves s a c p) : (s.calls c).stage ≤ p.stage := by
  cases h <;> simp [*, Phase.stage]

theorem step_stage (c : CallId) (s : State) (a : Action) (s' : State) (h : step s a = some s') :
    (s.calls c).stage ≤ (s'.calls c).stage := by
  rcases (step_moves h).2 with ⟨he, -⟩ | ⟨d, p, hm, he⟩
  · simp [he]
  · by_cases hd : c = d
    · subst d
      simpa [he] using hm.stage_le
    · simp [he, hd]

def Action.sends (c : CallId) : Action → Prop
  | .send d _ _ => d = c
  | _ => False

def Action.wakes (c : CallId) : Action → Prop
  | .wake d _ => d = c
  | _ => False

theorem step_sends (s : State) (a : Action) (s' : State) (ha : a.sends c)
    (h : step s a = some s') : (s.calls c).stage ≤ 0 ∧ 0 < (s'.calls c).stage := by
  rcases (step_moves h).2 with ⟨-, _, _, _, rfl⟩ | ⟨d, p, hm, he⟩
  · exact ha.elim
  · cases hm with
    | sent hc | sendFailed hc =>
      obtain rfl := ha
      simp [he, hc, Phase.stage]
    | waiting | woken | picked => exact ha.elim

theorem step_wakes (s : State) (a : Action) (s' : State) (ha : a.wakes c)
    (h : step s a = some s') : (s.calls c).stage ≤ 2 ∧ 2 < (s'.calls c).stage := by
  rcases (step_moves h).2 with ⟨-, _, _, _, rfl⟩ | ⟨d, p, hm, he⟩
  · exact ha.elim
  · cases hm with
    | woken hc =>
      obtain rfl := ha
      simp [he, hc, Phase.stage]
    | sent | sendFailed | waiting | picked => exact ha.elim

theorem step_returned {result : Bool} {response : Option String} (h : step s a = some s')
    (hc : s.calls c = .returned result response) : s'.calls c = .returned result response := by
  rcases (step_moves h).2 with ⟨he, -⟩ | ⟨d, p, hm, he⟩
  · rwa [he]
  · by_cases hd : c = d
    · subst d
      cases hm <;> simp_all
    · rwa [he, update_of_ne hd]

theorem run_returned {result : Bool} {response : Option String} (h : Run step s tr s')
    (hc : s.calls c = .returned result response) : s'.calls c = .returned result response :=
  h.invariant (I := fun s ↦ s.calls c = .returned result response) hc
    fun _ _ _ hc hs ↦ step_returned hs hc

theorem run_wake {pre post : List Action} {why : Wakeup}
    (h : Run step State.init (pre ++ .wake c why :: post) s) :
    s.calls c = .returned true (some ((latest delivered pre).getD "")) := by
  obtain ⟨u, u', hu, hs, hpost⟩ := h.split
  refine run_returned hpost ?_
  rcases (step_moves hs).2 with ⟨-, _, _, _, ha⟩ | ⟨d, p, hm, he⟩
  · cases ha
  · cases hm
    rw [he, update_self, run_lastResponse hu]

theorem run_woken {response : Option String} (h : Run step State.init tr s)
    (hc : s.calls c = .returned true response) :
    ∃ pre why post, tr = pre ++ .wake c why :: post := by
  revert hc
  refine h.history (P := fun tr s ↦ s.calls c = .returned true response →
    ∃ pre why post, tr = pre ++ .wake c why :: post) (fun hc ↦ by cases hc) ?_
  intro tr s a s' _ ih hs hc
  have keep (hold : s.calls c = .returned true response) :
      ∃ pre why post, tr ++ [a] = pre ++ .wake c why :: post := by
    obtain ⟨pre, why, post, rfl⟩ := ih hold
    exact ⟨pre, why, post ++ [a], by simp⟩
  rcases (step_moves hs).2 with ⟨he, -⟩ | ⟨d, p, hm, he⟩
  · exact keep (he ▸ hc)
  · by_cases hd : c = d
    · subst d
      rw [he, update_self] at hc
      subst p
      cases hm
      exact ⟨tr, _, [], rfl⟩
    · rw [he, update_of_ne hd] at hc
      exact keep hc

theorem run_sent (h : Run step State.init tr s) (hc : 0 < (s.calls c).stage) :
    ∃ pre command ec post, tr = pre ++ .send c command ec :: post := by
  revert hc
  refine h.history (P := fun tr s ↦ 0 < (s.calls c).stage →
    ∃ pre command ec post, tr = pre ++ .send c command ec :: post) (fun hc ↦ by cases hc) ?_
  intro tr s a s' _ ih hs hc
  have keep (hold : 0 < (s.calls c).stage) :
      ∃ pre command ec post, tr ++ [a] = pre ++ .send c command ec :: post := by
    obtain ⟨pre, command, ec, post, rfl⟩ := ih hold
    exact ⟨pre, command, ec, post ++ [a], by simp⟩
  rcases (step_moves hs).2 with ⟨he, -⟩ | ⟨d, p, hm, he⟩
  · exact keep (he ▸ hc)
  · by_cases hd : c = d
    · subst d
      cases hm with
      | sent | sendFailed => exact ⟨tr, _, _, [], rfl⟩
      | waiting hold | woken hold | picked hold => exact keep (by simp [hold, Phase.stage])
    · rw [he, update_of_ne hd] at hc
      exact keep hc

/-- Delivery `n` is the newest one when call `c` wakes up, so its text is the
one that the call returns. -/
def AnsweredBy (tr : List Action) (c : CallId) (n : ℕ) (text : String) : Prop :=
  ∃ pre a mid why post, tr = (pre ++ a :: mid) ++ .wake c why :: post ∧ n = pre.length ∧
    delivered a = some text ∧ ∀ b ∈ mid, delivered b = none

/-- Every successful call returns a message that came after its own send, and
no two calls return the same message. -/
structure Truthful (tr : List Action) (s : State) : Prop where
  own_answer : ∀ c response, s.calls c = .returned true response → ∃ n text,
    AnsweredBy tr c n text ∧ response = some text ∧
      ∃ command ec, Action.send c command ec ∈ tr.take n
  distinct : ∀ c c' n text text', AnsweredBy tr c n text → AnsweredBy tr c' n text' → c = c'

/-- A message arrives between the send and the wake-up of each call, and between
any two wake-ups. -/
structure Timely (tr : List Action) : Prop where
  before_wake : ∀ c command ec why pre mid post,
    tr = pre ++ .send c command ec :: (mid ++ .wake c why :: post) → ∃ b ∈ mid, delivered b ≠ none
  between_wakes : ∀ c why c' why' pre mid post,
    tr = pre ++ .wake c why :: (mid ++ .wake c' why' :: post) → ∃ b ∈ mid, delivered b ≠ none

theorem wake_split {pre post pre' post' : List Action} {why why' : Wakeup}
    (h : Run step State.init (pre ++ .wake c why :: post) s)
    (he : pre ++ .wake c why :: post = pre' ++ .wake c why' :: post') :
    pre = pre' ∧ post = post' := by
  obtain ⟨hpre, -, hpost⟩ := h.split_unique (Q := Action.wakes c) (step_stage c) step_wakes he
    rfl rfl
  exact ⟨hpre, hpost⟩

theorem send_split {pre post pre' post' : List Action} {command command' : String} {ec ec' : Bool}
    (h : Run step State.init (pre ++ .send c command ec :: post) s)
    (he : pre ++ .send c command ec :: post = pre' ++ .send c command' ec' :: post') :
    pre = pre' ∧ post = post' := by
  obtain ⟨hpre, -, hpost⟩ := h.split_unique (Q := Action.sends c) (step_stage c) step_sends he
    rfl rfl
  exact ⟨hpre, hpost⟩

theorem Truthful.before_wake (ht : Truthful tr s) (h : Run step State.init tr s) {command : String}
    {ec : Bool} {why : Wakeup} {pre mid post : List Action}
    (he : tr = pre ++ .send c command ec :: (mid ++ .wake c why :: post)) :
    ∃ b ∈ mid, delivered b ≠ none := by
  have he' : tr = (pre ++ .send c command ec :: mid) ++ .wake c why :: post := by simp [he]
  obtain ⟨n, text, ⟨p, a, m, why', q, hq, rfl, ha, -⟩, -, command', ec', hmem⟩ :=
    ht.own_answer c _ (run_wake (he' ▸ h))
  rw [hq, List.append_assoc, List.take_left] at hmem
  obtain ⟨x, y, rfl⟩ := List.append_of_mem hmem
  obtain ⟨hpre, -⟩ := wake_split (he' ▸ h) (he'.symm.trans hq)
  obtain ⟨u, hu, -⟩ := run_append.mp (he' ▸ h)
  obtain ⟨-, hmid⟩ := send_split hu (hpre.trans (by simp :
    (x ++ .send c command' ec' :: y) ++ a :: m = x ++ .send c command' ec' :: (y ++ a :: m)))
  exact ⟨a, by simp [hmid], by simp [ha]⟩

theorem Truthful.between_wakes (ht : Truthful tr s) (h : Run step State.init tr s) {c' : CallId}
    {why why' : Wakeup} {pre mid post : List Action}
    (he : tr = pre ++ .wake c why :: (mid ++ .wake c' why' :: post)) :
    ∃ b ∈ mid, delivered b ≠ none := by
  by_contra hnone
  simp only [ne_eq, not_exists, not_and, not_not] at hnone
  obtain ⟨n, text, hans, -, -⟩ := ht.own_answer c _ (run_wake (he ▸ h))
  obtain ⟨p, a, m, why₀, q, hq, rfl, ha, hm⟩ := id hans
  obtain ⟨rfl, -⟩ := wake_split (he ▸ h) (he.symm.trans hq)
  -- nothing arrives in between, so the second call returns the same message
  have hans' : AnsweredBy tr c' p.length text := by
    refine ⟨p, a, m ++ .wake c why :: mid, why', post, by simp [he], rfl, ha, ?_⟩
    simp only [List.forall_mem_append, List.forall_mem_cons]
    exact ⟨hm, rfl, hnone⟩
  obtain rfl := ht.distinct c c' _ _ _ hans hans'
  exact (he ▸ h).once (Q := Action.wakes c) (step_stage c) step_wakes rfl (.wake c why')
    (by simp) rfl

theorem Timely.own_answer (ht : Timely tr) (h : Run step State.init tr s)
    {response : Option String} (hc : s.calls c = .returned true response) : ∃ n text,
      AnsweredBy tr c n text ∧ response = some text ∧
        ∃ command ec, Action.send c command ec ∈ tr.take n := by
  obtain ⟨pre, why, post, rfl⟩ := run_woken h hc
  obtain ⟨u, u', hu, hs, -⟩ := h.split
  have hstage : 0 < (u.calls c).stage := by
    rcases (step_moves hs).2 with ⟨-, _, _, _, ha⟩ | ⟨d, p, hm, -⟩
    · cases ha
    · cases hm
      simp [*, Phase.stage]
  obtain ⟨x, command, ec, y, rfl⟩ := run_sent hu hstage
  obtain ⟨b, hb, hd⟩ := ht.before_wake c command ec why x y post (by simp)
  obtain ⟨text, htext⟩ : ∃ text, latest delivered y = some text := by
    rw [← Option.ne_none_iff_exists', ne_eq, latest_eq_none]
    exact fun hall ↦ hd (hall b hb)
  have hresponse : response = some text := by
    have hr := hc.symm.trans (run_wake h)
    rw [latest_append, ← List.singleton_append, latest_append, htext] at hr
    simpa using hr
  obtain ⟨m₁, a, m₂, rfl, ha, hm⟩ := latest_eq_some.mp htext
  refine ⟨(x ++ .send c command ec :: m₁).length, text,
    ⟨x ++ .send c command ec :: m₁, a, m₂, why, post, by simp, rfl, ha, hm⟩, hresponse,
    command, ec, ?_⟩
  have hsplit : (x ++ .send c command ec :: (m₁ ++ a :: m₂)) ++ .wake c why :: post =
      (x ++ .send c command ec :: m₁) ++ (a :: m₂ ++ .wake c why :: post) := by simp
  rw [hsplit, List.take_left]
  simp

/-- The stretch from the answer of one call to its wake-up ends before the other
call's does, or the two wake-ups are one. -/
theorem Timely.not_before (ht : Timely tr) {c' : CallId} {pre mid mid' rest rest' : List Action}
    {a : Action} {why why' : Wakeup} (he : tr = pre ++ a :: (mid ++ .wake c why :: rest))
    (he' : tr = pre ++ a :: (mid' ++ .wake c' why' :: rest')) {l : List Action}
    (hl : mid' = mid ++ l) (hm : ∀ b ∈ mid', delivered b = none) : c = c' := by
  subst hl
  have heq : .wake c why :: rest = l ++ .wake c' why' :: rest' := by
    simpa using he.symm.trans he'
  cases l with
  | nil => exact (Action.wake.inj (List.cons.inj heq).1).1
  | cons x l =>
    obtain ⟨rfl, rfl⟩ := List.cons.inj heq
    obtain ⟨b, hb, hd⟩ := ht.between_wakes c why c' why' (pre ++ a :: mid) l rest' (by simp [he])
    exact (hd (hm b (by simp [hb]))).elim

theorem Timely.distinct (ht : Timely tr) {c' : CallId} {n : ℕ} {text text' : String}
    (ha : AnsweredBy tr c n text) (ha' : AnsweredBy tr c' n text') : c = c' := by
  obtain ⟨p, a, m, why, q, hq, hn, -, hm⟩ := ha
  obtain ⟨p', a', m', why', q', hq', hn', -, hm'⟩ := ha'
  simp only [List.append_assoc, List.cons_append] at hq hq'
  obtain ⟨rfl, htail⟩ := List.append_inj (hq.symm.trans hq') (hn.symm.trans hn')
  obtain ⟨rfl, hmid⟩ := List.cons.inj htail
  rcases List.append_eq_append_iff.mp hmid with ⟨l, hl, -⟩ | ⟨l, hl, -⟩
  · exact ht.not_before hq hq' hl hm'
  · exact (ht.not_before hq' hq hl hm).symm

/-- Commands get answers of their own exactly when the peer's messages come in
time, whatever the reason of the wake-ups. -/
theorem truthful_iff_timely (tr : List Action) (s : State) (h : Run step State.init tr s) :
    Truthful tr s ↔ Timely tr :=
  ⟨fun ht ↦ ⟨fun _ _ _ _ _ _ _ ↦ ht.before_wake h, fun _ _ _ _ _ _ _ ↦ ht.between_wakes h⟩,
    fun ht ↦ ⟨fun _ _ ↦ ht.own_answer h, fun _ _ _ _ _ ↦ ht.distinct⟩⟩

def exchange : List Action :=
  [.send 0 "status" false, .wait 0, .frame .text "ready" (some 0), .wake 0 .notified]

theorem truthful_iff_timely_exchange :
    ∃ s, Run step State.init exchange s ∧ (Truthful exchange s ↔ Timely exchange) := by
  obtain ⟨s, hs⟩ : ∃ s, Run step State.init exchange s := exists_run (by decide)
  exact ⟨s, hs, truthful_iff_timely exchange s hs⟩

/-- Nothing arrives within five seconds, and the empty initial string is the
response. -/
theorem timeout_is_not_truthful : ¬ ∀ tr s, Run step State.init tr s → Truthful tr s := by
  intro hall
  let tr : List Action := [.send 0 "status" false, .wait 0, .wake 0 .timeout]
  obtain ⟨s, hrun⟩ : ∃ s, Run step State.init tr s := exists_run (by decide)
  have htr : tr = [] ++ .send 0 "status" false :: ([.wait 0] ++ .wake 0 .timeout :: []) := rfl
  obtain ⟨b, hb, hd⟩ := (hall tr s hrun).before_wake hrun htr
  obtain rfl : b = .wait 0 := by simpa using hb
  exact hd rfl

end Peripherals.WebSockets.CommandInterface
