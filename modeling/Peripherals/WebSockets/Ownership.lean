import Peripherals.Mailbox
import Peripherals.WebSockets.JsonRpcInterface
import Mathlib.Tactic.Common

namespace Peripherals.WebSockets.JsonRpcInterface

open Function Thunder JsonRpc Execution

namespace Phase

/-- The id and promise a call has in the map, from its `createFutureResponse`
to its `removePromise`. -/
def entry : Phase → Option (UInt32 × PromiseId)
  | .registered request future | .waiting request future | .leaving request future _ =>
    some (Request.getId request, future)
  | _ => none

def outcome : Phase → Option (UInt32 × Bool × Option Message)
  | .returned request result response => some (Request.getId request, result, response)
  | _ => none

end Phase

/-- The part of the state that says which call owns which promise. -/
structure View where
  responseToPromise : UInt32 → Option PromiseId
  promises : PromiseId → Option String
  nextPromise : PromiseId
  escaped : ℕ
  entry : CallId → Option (UInt32 × PromiseId)
  outcome : CallId → Option (UInt32 × Bool × Option Message)

def State.view (s : State) : View where
  responseToPromise := s.responseToPromise
  promises := s.promises
  nextPromise := s.nextPromise
  escaped := s.escaped
  entry c := (s.calls c).entry
  outcome c := (s.calls c).outcome

theorem setCall_view (s : State) (c : CallId) (p : Phase) : (s.setCall c p).view =
    { s.view with
      entry := update s.view.entry c p.entry
      outcome := update s.view.outcome c p.outcome } := by
  simp only [State.view, State.setCall, View.mk.injEq, true_and]
  constructor <;> funext d <;> by_cases h : d = c
  · subst d; simp
  · simp [h]
  · subst d; simp
  · simp [h]

theorem setCall_view_of_outcome {s : State} {c : CallId} {p : Phase}
    (ho : p.outcome = (s.calls c).outcome) :
    (s.setCall c p).view = { s.view with entry := update s.view.entry c p.entry } := by
  have h : update s.view.outcome c p.outcome = s.view.outcome := by
    rw [ho]
    exact update_eq_self c _
  rw [setCall_view, h]

theorem setCall_view_of_eq {s : State} {c : CallId} {p : Phase}
    (he : p.entry = (s.calls c).entry) (ho : p.outcome = (s.calls c).outcome) :
    (s.setCall c p).view = s.view := by
  have h : update s.view.entry c p.entry = s.view.entry := by
    rw [he]
    exact update_eq_self c _
  rw [setCall_view_of_outcome ho, h]

variable {codec : Codec}

inductive Effect (codec : Codec) (v : View) : Action → View → Prop
  | quiet {a : Action} : (∀ c i, a ≠ .remove c i) → (∀ c i, a ≠ .register c i) →
      (∀ text i, a = .message text → dispatch codec text ≠ .response i) → Effect codec v a v
  | rejected (c : CallId) (i : UInt32) (p : PromiseId) : v.entry c = none →
      v.responseToPromise i = some p → Effect codec v (.register c i) v
  | opened (c : CallId) (i : UInt32) : v.entry c = none → v.outcome c = none →
      v.responseToPromise i = none → Effect codec v (.register c i)
        { v with
          responseToPromise := update v.responseToPromise i (some v.nextPromise)
          promises := update v.promises v.nextPromise none
          nextPromise := v.nextPromise + 1
          entry := update v.entry c (some (i, v.nextPromise)) }
  | closed (c : CallId) (i : UInt32) (p : PromiseId) (result : Bool) (response : Option Message) :
      v.entry c = some (i, p) → v.outcome c = none →
      (result = true → ∃ text message, v.promises p = some text ∧ response = some message ∧
        processResponse codec i text = (true, message)) →
      Effect codec v (.remove c i)
        { v with
          responseToPromise := update v.responseToPromise i none
          entry := update v.entry c none
          outcome := update v.outcome c (some (i, result, response)) }
  | ignored (text : String) (i : UInt32) : dispatch codec text = .response i →
      v.responseToPromise i = none → Effect codec v (.message text) v
  | fulfilled (text : String) (i : UInt32) (p : PromiseId) : dispatch codec text = .response i →
      v.responseToPromise i = some p → v.promises p = none →
      Effect codec v (.message text) { v with promises := update v.promises p (some text) }
  | threw (text : String) (i : UInt32) (p : PromiseId) (first : String) :
      dispatch codec text = .response i → v.responseToPromise i = some p →
      v.promises p = some first →
      Effect codec v (.message text) { v with escaped := v.escaped + 1 }

theorem register_effect {s s' : State} {c : CallId} {i : UInt32}
    (h : step codec s (.register c i) = some s') :
    Effect codec s.view (.register c i) s'.view := by
  simp only [step] at h
  split at h
  case h_2 => cases h
  case h_1 request hc =>
    split_ifs at h with hi
    subst i
    have he : s.view.entry c = none := by simp only [State.view, hc, Phase.entry]
    have ho : s.view.outcome c = none := by simp only [State.view, hc, Phase.outcome]
    simp only [createFutureResponse] at h
    cases hm : s.responseToPromise (Request.getId request) with
    | some p =>
      simp only [hm, Option.some.injEq] at h
      subst h
      rw [setCall_view_of_eq (p := .rejected request) he.symm ho.symm]
      exact .rejected c _ p he hm
    | none =>
      simp only [hm, Option.some.injEq] at h
      subst h
      rw [setCall_view_of_outcome]
      · exact .opened c _ he ho hm
      · exact ho.symm

theorem remove_effect {s s' : State} {c : CallId} {i : UInt32}
    (h : step codec s (.remove c i) = some s') :
    Effect codec s.view (.remove c i) s'.view := by
  simp only [step] at h
  split at h
  case h_2 => cases h
  case h_1 request future status hc =>
    split_ifs at h with hi
    subst i
    have he : s.view.entry c = some (Request.getId request, future) := by
      simp only [State.view, hc, Phase.entry]
    have ho : s.view.outcome c = none := by simp only [State.view, hc, Phase.outcome]
    obtain ⟨phase, hf, rfl⟩ := Option.map_eq_some_iff.mp h
    rw [setCall_view]
    cases status with
    | none =>
      obtain rfl := Option.some.inj hf
      exact .closed c _ future false none he ho (by simp)
    | some status =>
      cases status with
      | ready =>
        simp only [finish] at hf
        cases ht : s.promises future with
        | none => simp [ht] at hf
        | some text =>
          simp only [ht, Option.some.injEq] at hf
          subst hf
          refine .closed c _ future _ _ he ho fun hr ↦ ?_
          exact ⟨text, _, ht, rfl, Prod.ext hr rfl⟩
      | timeout | deferred =>
        obtain rfl := Option.some.inj hf
        exact .closed c _ future false none he ho (by simp)

theorem message_effect {s s' : State} {text : String}
    (h : step codec s (.message text) = some s') :
    Effect codec s.view (.message text) s'.view := by
  have quiet (hd : ∀ i, dispatch codec text ≠ .response i) :
      Effect codec s.view (.message text) s.view :=
    .quiet (by simp) (by simp) fun text' i he ↦ by
      obtain rfl := Action.message.inj he
      exact hd i
  simp only [step, onMessage] at h
  cases hd : dispatch codec text with
  | response i =>
    simp only [hd, handleResponse] at h
    cases hm : s.responseToPromise i with
    | none =>
      simp only [hm, Option.some.injEq] at h
      subst h
      exact .ignored text i hd hm
    | some p =>
      cases hp : s.promises p with
      | none =>
        simp only [hm, hp, Option.some.injEq] at h
        subst h
        exact .fulfilled text i p hd hm hp
      | some first =>
        simp only [hm, hp, Option.some.injEq] at h
        subst h
        exact .threw text i p first hd hm hp
  | notification =>
    simp only [hd, Option.some.injEq] at h
    subst h
    have hv : (handleNotification codec s text).view = s.view := by
      simp only [handleNotification]
      split_ifs <;> rfl
    rw [hv]
    exact quiet (by simp [hd])
  | malformed | request | invalidId =>
    simp only [hd, Option.some.injEq] at h
    subst h
    exact quiet (by simp [hd])

theorem step_effect {s s' : State} {a : Action} (h : step codec s a = some s') :
    Effect codec s.view a s'.view := by
  have quiet {c : CallId} {p : Phase} (hr : ∀ c i, a ≠ .remove c i)
      (hg : ∀ c i, a ≠ .register c i) (hm : ∀ text, a ≠ .message text)
      (he : p.entry = (s.calls c).entry) (ho : p.outcome = (s.calls c).outcome) :
      Effect codec s.view a (s.setCall c p).view := by
    rw [setCall_view_of_eq he ho]
    exact .quiet hr hg fun text _ ha ↦ (hm text ha).elim
  cases a with
  | register c i => exact register_effect h
  | remove c i => exact remove_effect h
  | message text => exact message_effect h
  | setNotificationHandler present =>
    obtain rfl := Option.some.inj h
    exact .quiet (by simp) (by simp) (by simp)
  | create c method parameters =>
    simp only [step] at h
    split at h
    case h_2 => cases h
    case h_1 hc =>
      split at h <;> obtain rfl := Option.some.inj h
      · exact quiet (by simp) (by simp) (by simp) (by simp [hc, Phase.entry])
          (by simp [hc, Phase.outcome])
      · exact .quiet (by simp) (by simp) (by simp)
  | supply c request =>
    simp only [step] at h
    split at h
    case h_2 => cases h
    case h_1 hc =>
      obtain rfl := Option.some.inj h
      exact quiet (by simp) (by simp) (by simp) (by simp [hc, Phase.entry])
        (by simp [hc, Phase.outcome])
  | check c =>
    simp only [step] at h
    split at h
    case h_2 => cases h
    case h_1 request hc =>
      split_ifs at h <;> obtain rfl := Option.some.inj h <;>
        exact quiet (by simp) (by simp) (by simp) (by simp [hc, Phase.entry])
          (by simp [hc, Phase.outcome])
  | send c ec =>
    simp only [step] at h
    split at h
    case h_2 => cases h
    case h_1 request future hc =>
      split_ifs at h <;> obtain rfl := Option.some.inj h <;>
        exact quiet (by simp) (by simp) (by simp) (by simp [hc, Phase.entry])
          (by simp [hc, Phase.outcome])
  | wait c status =>
    simp only [step] at h
    split at h
    case h_2 => cases h
    case h_1 request future hc =>
      split_ifs at h
      obtain rfl := Option.some.inj h
      exact quiet (by simp) (by simp) (by simp) (by simp [hc, Phase.entry])
        (by simp [hc, Phase.outcome])

/-- Map entries and calls between their two sections correspond one to one. -/
structure Owned (v : View) : Prop where
  entry_of_key : ∀ i p, v.responseToPromise i = some p → ∃ c, v.entry c = some (i, p)
  key_of_entry : ∀ c i p, v.entry c = some (i, p) → v.responseToPromise i = some p
  owner_unique : ∀ c c' i i' p, v.entry c = some (i, p) → v.entry c' = some (i', p) → c = c'
  lt_next : ∀ c i p, v.entry c = some (i, p) → p < v.nextPromise

theorem Owned.owner_eq {v : View} (h : Owned v) {c c' : CallId} {i : UInt32} {p p' : PromiseId}
    (hc : v.entry c = some (i, p)) (hc' : v.entry c' = some (i, p')) : c = c' := by
  have hp : p = p' := Option.some.inj
    ((h.key_of_entry c i p hc).symm.trans (h.key_of_entry c' i p' hc'))
  subst p'
  exact h.owner_unique _ _ _ _ _ hc hc'

theorem init_owned : Owned State.init.view where
  entry_of_key _ _ h := by cases h
  key_of_entry _ _ _ h := by cases h
  owner_unique _ _ _ _ _ h := by cases h
  lt_next _ _ _ h := by cases h

theorem opened_owned {v : View} (h : Owned v) {c : CallId} {i : UInt32}
    (hc : v.entry c = none) (hi : v.responseToPromise i = none) :
    Owned { v with
      responseToPromise := update v.responseToPromise i (some v.nextPromise)
      promises := update v.promises v.nextPromise none
      nextPromise := v.nextPromise + 1
      entry := update v.entry c (some (i, v.nextPromise)) } := by
  have old {d : CallId} {j : UInt32} {p : PromiseId} (hd : d ≠ c)
      (he : update v.entry c (some (i, v.nextPromise)) d = some (j, p)) :
      v.entry d = some (j, p) := by rwa [update_of_ne hd] at he
  have new {j : UInt32} {p : PromiseId}
      (he : update v.entry c (some (i, v.nextPromise)) c = some (j, p)) :
      j = i ∧ p = v.nextPromise := by
    rw [update_self] at he
    obtain ⟨rfl, rfl⟩ := Prod.mk.inj (Option.some.inj he)
    exact ⟨rfl, rfl⟩
  refine ⟨?_, ?_, ?_, ?_⟩ <;> dsimp only
  · intro j p hj
    by_cases hji : j = i
    · subst j
      rw [update_self] at hj
      obtain rfl := Option.some.inj hj
      exact ⟨c, update_self _ _ _⟩
    · rw [update_of_ne hji] at hj
      obtain ⟨d, hd⟩ := h.entry_of_key j p hj
      have hdc : d ≠ c := by
        intro he
        subst he
        rw [hc] at hd
        cases hd
      exact ⟨d, by rwa [update_of_ne hdc]⟩
  · intro d j p hd
    by_cases hdc : d = c
    · subst d
      obtain ⟨rfl, rfl⟩ := new hd
      exact update_self _ _ _
    · have hj := h.key_of_entry d j p (old hdc hd)
      have hji : j ≠ i := by
        intro he
        subst he
        rw [hi] at hj
        cases hj
      rwa [update_of_ne hji]
  · intro d d' j j' p hd hd'
    by_cases hdc : d = c <;> by_cases hdc' : d' = c
    · rw [hdc, hdc']
    · subst d
      obtain ⟨-, rfl⟩ := new hd
      exact (Nat.lt_irrefl _ (h.lt_next _ _ _ (old hdc' hd'))).elim
    · subst d'
      obtain ⟨-, rfl⟩ := new hd'
      exact (Nat.lt_irrefl _ (h.lt_next _ _ _ (old hdc hd))).elim
    · exact h.owner_unique _ _ _ _ _ (old hdc hd) (old hdc' hd')
  · intro d j p hd
    by_cases hdc : d = c
    · subst d
      obtain ⟨-, rfl⟩ := new hd
      exact Nat.lt_succ_self _
    · exact Nat.lt_succ_of_lt (h.lt_next _ _ _ (old hdc hd))

theorem closed_owned {v : View} (h : Owned v) {c : CallId} {i : UInt32} {p : PromiseId}
    {out : CallId → Option (UInt32 × Bool × Option Message)} (hc : v.entry c = some (i, p)) :
    Owned { v with
      responseToPromise := update v.responseToPromise i none
      entry := update v.entry c none
      outcome := out } := by
  have old {d : CallId} {j : UInt32} {q : PromiseId} (he : update v.entry c none d = some (j, q)) :
      d ≠ c ∧ v.entry d = some (j, q) := by
    by_cases hd : d = c
    · subst d; simp at he
    · exact ⟨hd, by rwa [update_of_ne hd] at he⟩
  refine ⟨?_, ?_, ?_, ?_⟩ <;> dsimp only
  · intro j q hj
    have hji : j ≠ i := by
      intro he
      subst he
      simp at hj
    rw [update_of_ne hji] at hj
    obtain ⟨d, hd⟩ := h.entry_of_key j q hj
    have hdc : d ≠ c := by
      intro he
      subst he
      exact hji (Prod.mk.inj (Option.some.inj (hd.symm.trans hc))).1
    exact ⟨d, by rwa [update_of_ne hdc]⟩
  · intro d j q hd
    obtain ⟨hdc, hd⟩ := old hd
    have hji : j ≠ i := by
      intro he
      subst he
      exact hdc (h.owner_eq hd hc)
    rw [update_of_ne hji]
    exact h.key_of_entry d j q hd
  · exact fun d d' j j' q hd hd' ↦ h.owner_unique _ _ _ _ _ (old hd).2 (old hd').2
  · exact fun d j q hd ↦ h.lt_next _ _ _ (old hd).2

theorem effect_owned {v v' : View} {a : Action} (he : Effect codec v a v') (h : Owned v) :
    Owned v' := by
  cases he with
  | quiet | rejected | ignored => exact h
  | opened c i hc _ hi => exact opened_owned h hc hi
  | closed c i p result response hc => exact closed_owned h hc
  | fulfilled | threw => exact ⟨h.1, h.2, h.3, h.4⟩

theorem run_owned {tr : List Action} {s : State} (h : Run (step codec) State.init tr s) :
    Owned s.view :=
  h.invariant init_owned fun _ _ _ ho hs ↦ effect_owned (step_effect hs) ho

def event (codec : Codec) : Action → Mailbox.Event CallId UInt32 String
  | .register c i => .acquire c i
  | .remove c i => .release c i
  | .message text => match dispatch codec text with
    | .response i => .deliver i text
    | _ => .other
  | _ => .other

def View.boxes (v : View) : Mailbox.Boxes CallId UInt32 String :=
  fun c ↦ (v.entry c).map fun e ↦ (e.1, v.promises e.2)

theorem Owned.taken_iff {v : View} (h : Owned v) (i : UInt32) :
    Mailbox.Taken v.boxes i ↔ v.responseToPromise i ≠ none := by
  refine ⟨?_, ?_⟩
  · intro htaken
    obtain ⟨c, w, hc⟩ := htaken
    obtain ⟨⟨j, p⟩, he, hj⟩ := Option.map_eq_some_iff.mp hc
    obtain ⟨rfl, -⟩ := Prod.mk.inj hj
    simp [h.key_of_entry c j p he]
  · intro hi
    obtain ⟨p, hp⟩ := Option.ne_none_iff_exists'.mp hi
    obtain ⟨c, hc⟩ := h.entry_of_key i p hp
    exact ⟨c, v.promises p, by simp [View.boxes, hc]⟩

theorem boxes_fulfil {v : View} (h : Owned v) {i : UInt32} {p : PromiseId} {text : String}
    (hi : v.responseToPromise i = some p) (hp : v.promises p = none) :
    Mailbox.deliver v.boxes i text =
      View.boxes { v with promises := update v.promises p (some text) } := by
  funext c
  cases hc : v.entry c with
  | none => simp [Mailbox.deliver, View.boxes, hc]
  | some e =>
    obtain ⟨j, q⟩ := e
    by_cases hj : j = i
    · subst j
      obtain rfl : q = p := Option.some.inj ((h.key_of_entry c i q hc).symm.trans hi)
      simp [Mailbox.deliver, View.boxes, hc, hp]
    · have hq : q ≠ p := by
        intro he
        subst he
        obtain ⟨d, hd⟩ := h.entry_of_key i q hi
        obtain rfl := h.owner_unique _ _ _ _ _ hc hd
        exact hj (Prod.mk.inj (Option.some.inj (hc.symm.trans hd))).1
      simp [Mailbox.deliver, View.boxes, hc, hj, update_of_ne hq]

theorem boxes_unchanged {v : View} (h : Owned v) {i : UInt32} {text : String}
    (hi : ∀ p, v.responseToPromise i = some p → v.promises p ≠ none) :
    Mailbox.deliver v.boxes i text = v.boxes := by
  funext c
  cases hc : v.entry c with
  | none => simp [Mailbox.deliver, View.boxes, hc]
  | some e =>
    obtain ⟨j, q⟩ := e
    by_cases hj : j = i
    · subst j
      obtain ⟨w, hw⟩ := Option.ne_none_iff_exists'.mp (hi q (h.key_of_entry c i q hc))
      simp [Mailbox.deliver, View.boxes, hc, hw]
    · simp [Mailbox.deliver, View.boxes, hc, hj]

theorem boxes_open {v : View} (h : Owned v) (c : CallId) (i : UInt32) :
    update v.boxes c (some (i, none)) = View.boxes { v with
      responseToPromise := update v.responseToPromise i (some v.nextPromise)
      promises := update v.promises v.nextPromise none
      nextPromise := v.nextPromise + 1
      entry := update v.entry c (some (i, v.nextPromise)) } := by
  funext d
  by_cases hd : d = c
  · subst d
    simp [View.boxes]
  · rw [update_of_ne hd]
    cases he : v.entry d with
    | none => simp [View.boxes, hd, he]
    | some e =>
      have hne : e.2 ≠ v.nextPromise := Nat.ne_of_lt (h.lt_next d e.1 e.2 he)
      simp [View.boxes, hd, he, hne]

/-- The interface refines a set of mailboxes, step by step. -/
theorem effect_mailbox {v v' : View} {a : Action} (he : Effect codec v a v') (h : Owned v) :
    Mailbox.step (event codec) v.boxes a = some v'.boxes := by
  cases he with
  | quiet hr hg hm =>
    have ho : event codec a = .other := by
      cases a with
      | register c i => exact (hg c i rfl).elim
      | remove c i => exact (hr c i rfl).elim
      | message text =>
        simp only [event]
        split
        · exact (hm text _ rfl ‹_›).elim
        · rfl
      | _ => rfl
    simp only [Mailbox.step, ho]
  | rejected c i p hc hi =>
    have ht : Mailbox.Taken v.boxes i := (h.taken_iff i).mpr (by simp [hi])
    have hb : v.boxes c = none := by simp [View.boxes, hc]
    simp [Mailbox.step, event, hb, ht]
  | opened c i hc _ hi =>
    have ht : ¬ Mailbox.Taken v.boxes i := fun ht ↦ (h.taken_iff i).mp ht hi
    have hb : v.boxes c = none := by simp [View.boxes, hc]
    rw [← boxes_open h c i]
    simp [Mailbox.step, event, hb, ht]
  | closed c i p result response hc =>
    have hb : v.boxes c = some (i, v.promises p) := by simp [View.boxes, hc]
    simp only [Mailbox.step, event, hb, Option.some.injEq, Prod.mk.injEq, true_and, exists_eq',
      ↓reduceIte]
    funext d
    by_cases hd : d = c
    · subst d; simp [View.boxes]
    · simp [View.boxes, hd]
  | ignored text i hd hi =>
    simp only [Mailbox.step, event, hd]
    rw [boxes_unchanged h (by simp [hi])]
  | fulfilled text i p hd hi hp =>
    simp only [Mailbox.step, event, hd]
    rw [boxes_fulfil h hi hp]
  | threw text i p first hd hi hp =>
    simp only [Mailbox.step, event, hd]
    rw [boxes_unchanged h (by simp [hi, hp])]
    rfl

theorem run_mailbox {tr : List Action} {s : State} (h : Run (step codec) State.init tr s) :
    Run (Mailbox.step (event codec)) (fun _ ↦ none) tr s.view.boxes := by
  induction h with
  | nil => exact .nil
  | snoc hr hs ih => exact .snoc ih (effect_mailbox (step_effect hs) (run_owned hr))

end Peripherals.WebSockets.JsonRpcInterface
