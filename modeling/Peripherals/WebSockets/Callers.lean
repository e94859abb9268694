import Peripherals.WebSockets.Fulfilment
import Mathlib.Algebra.Ring.Nat
import Mathlib.Order.Nat

namespace Peripherals.WebSockets.JsonRpcInterface

open Function Thunder JsonRpc Execution

variable {codec : Codec} {s s' : State} {a : Action} {tr : List Action}

def Phase.requestId : Phase → Option UInt32
  | .idle => none
  | .created request | .checked request | .registered request _ | .waiting request _
  | .leaving request _ _ | .rejected request | .returned request _ _ =>
    some (Request.getId request)

/-- Inside `sendRequest`, up to the `removePromise` of an accepted call. -/
def Phase.inProgress : Phase → Prop
  | .checked _ | .registered _ _ | .waiting _ _ | .leaving _ _ _ => True
  | _ => False

def Phase.stage : Phase → ℕ
  | .idle => 0
  | .created _ => 1
  | .checked _ => 2
  | .registered _ _ => 3
  | .waiting _ _ => 4
  | .leaving _ _ _ => 5
  | .rejected _ | .returned _ _ _ => 6

inductive Moves (codec : Codec) (s : State) : Action → CallId → Phase → Prop
  | create {c : CallId} {method : String} {parameters : JsonObject} {r : Message} :
      s.calls c = .idle → Request.getId r = s.idSequence + 1 →
      Moves codec s (.create c method parameters) c (.created r)
  | supply {c : CallId} {r : Message} : s.calls c = .idle →
      Moves codec s (.supply c r) c (.created r)
  | checked {c : CallId} {r : Message} : s.calls c = .created r →
      Moves codec s (.check c) c (.checked r)
  | checkRejected {c : CallId} {r : Message} : s.calls c = .created r →
      s.responseToPromise (Request.getId r) ≠ none → Moves codec s (.check c) c (.rejected r)
  | registered {c : CallId} {r : Message} {p : PromiseId} : s.calls c = .checked r →
      Moves codec s (.register c (Request.getId r)) c (.registered r p)
  | registerRejected {c : CallId} {r : Message} : s.calls c = .checked r →
      s.responseToPromise (Request.getId r) ≠ none →
      Moves codec s (.register c (Request.getId r)) c (.rejected r)
  | sent {c : CallId} {r : Message} {p : PromiseId} {ec : Bool} :
      s.calls c = .registered r p → Moves codec s (.send c ec) c (.waiting r p)
  | sendFailed {c : CallId} {r : Message} {p : PromiseId} {ec : Bool} :
      s.calls c = .registered r p → Moves codec s (.send c ec) c (.leaving r p none)
  | waited {c : CallId} {r : Message} {p : PromiseId} {status : FutureStatus} :
      s.calls c = .waiting r p → Moves codec s (.wait c status) c (.leaving r p (some status))
  | removed {c : CallId} {r : Message} {p : PromiseId} {status : Option FutureStatus}
      {result : Bool} {response : Option Message} : s.calls c = .leaving r p status →
      Moves codec s (.remove c (Request.getId r)) c (.returned r result response)

def Action.creates : Action → ℕ
  | .create _ _ _ => 1
  | _ => 0

theorem finish_returned {request : Message} {future : PromiseId} {status : Option FutureStatus}
    {phase : Phase} (h : finish codec s request future status = some phase) :
    ∃ result response, phase = .returned request result response := by
  unfold finish at h
  split at h
  · split at h
    · exact ⟨_, _, (Option.some.inj h).symm⟩
    · cases h
  · exact ⟨_, _, (Option.some.inj h).symm⟩
  · exact ⟨_, _, (Option.some.inj h).symm⟩
  · exact ⟨_, _, (Option.some.inj h).symm⟩

theorem message_keeps {text : String} (h : step codec s (.message text) = some s') :
    s'.calls = s.calls ∧ s'.idSequence = s.idSequence := by
  simp only [step, onMessage, handleResponse] at h
  split at h <;> obtain rfl := Option.some.inj h
  case h_1 hm =>
    split at hm
    · split at hm
      · obtain rfl := Except.ok.inj hm
        exact ⟨rfl, rfl⟩
      · split at hm
        · cases hm
        · obtain rfl := Except.ok.inj hm
          exact ⟨rfl, rfl⟩
    · obtain rfl := Except.ok.inj hm
      simp only [handleNotification]
      split_ifs <;> exact ⟨rfl, rfl⟩
    all_goals
      obtain rfl := Except.ok.inj hm
      exact ⟨rfl, rfl⟩
  case h_2 => exact ⟨rfl, rfl⟩

theorem step_moves (h : step codec s a = some s') :
    (s'.calls = s.calls ∧ s'.idSequence = s.idSequence ∧
      ∀ c i, a ≠ .register c i ∧ a ≠ .remove c i) ∨
    ∃ c p, Moves codec s a c p ∧ s'.calls = update s.calls c p ∧
      s'.idSequence = s.idSequence + UInt32.ofNat a.creates := by
  have same : s.idSequence = s.idSequence + UInt32.ofNat 0 := (UInt32.add_zero _).symm
  cases a with
  | create c method parameters =>
    simp only [step] at h
    split at h
    case h_2 => cases h
    case h_1 hc =>
      split at h <;> obtain rfl := Option.some.inj h
      case h_1 r seq hr =>
        obtain ⟨hseq, hid⟩ := Request.create_eq_some codec hr
        exact .inr ⟨c, _, .create hc hid, rfl, hseq⟩
      case h_2 => exact .inl ⟨rfl, rfl, by simp⟩
  | supply c r =>
    simp only [step] at h
    split at h
    case h_2 => cases h
    case h_1 hc =>
      obtain rfl := Option.some.inj h
      exact .inr ⟨c, _, .supply hc, rfl, same⟩
  | check c =>
    simp only [step] at h
    split at h
    case h_2 => cases h
    case h_1 r hc =>
      split_ifs at h with ho <;> obtain rfl := Option.some.inj h
      · exact .inr ⟨c, _, .checkRejected hc (Option.isSome_iff_ne_none.mp ho), rfl, same⟩
      · exact .inr ⟨c, _, .checked hc, rfl, same⟩
  | register c i =>
    simp only [step] at h
    split at h
    case h_2 => cases h
    case h_1 r hc =>
      split_ifs at h with hi
      subst i
      simp only [createFutureResponse] at h
      cases hm : s.responseToPromise (Request.getId r) with
      | some p =>
        simp only [hm, Option.some.injEq] at h
        subst h
        exact .inr ⟨c, _, .registerRejected hc (by simp [hm]), rfl, same⟩
      | none =>
        simp only [hm, Option.some.injEq] at h
        subst h
        exact .inr ⟨c, _, .registered hc, rfl, same⟩
  | send c ec =>
    simp only [step] at h
    split at h
    case h_2 => cases h
    case h_1 r p hc =>
      split_ifs at h <;> obtain rfl := Option.some.inj h
      · exact .inr ⟨c, _, .sent hc, rfl, same⟩
      · exact .inr ⟨c, _, .sendFailed hc, rfl, same⟩
  | wait c status =>
    simp only [step] at h
    split at h
    case h_2 => cases h
    case h_1 r p hc =>
      split_ifs at h
      obtain rfl := Option.some.inj h
      exact .inr ⟨c, _, .waited hc, rfl, same⟩
  | remove c i =>
    simp only [step] at h
    split at h
    case h_2 => cases h
    case h_1 r p status hc =>
      split_ifs at h with hi
      subst i
      obtain ⟨phase, hf, rfl⟩ := Option.map_eq_some_iff.mp h
      obtain ⟨result, response, rfl⟩ := finish_returned hf
      exact .inr ⟨c, _, .removed hc, rfl, same⟩
  | message text =>
    obtain ⟨hcalls, hseq⟩ := message_keeps h
    exact .inl ⟨hcalls, hseq, by simp⟩
  | setNotificationHandler present =>
    obtain rfl := Option.some.inj h
    exact .inl ⟨rfl, rfl, by simp⟩

theorem Moves.stage_lt {c : CallId} {p : Phase} (h : Moves codec s a c p) :
    (s.calls c).stage < p.stage := by
  cases h <;> simp [*, Phase.stage]

theorem step_stage (h : step codec s a = some s') (c : CallId) :
    (s.calls c).stage ≤ (s'.calls c).stage := by
  rcases step_moves h with ⟨he, -⟩ | ⟨d, p, hm, he, -⟩
  · rw [he]
  · rw [he]
    by_cases hd : c = d
    · subst d
      rw [update_self]
      exact hm.stage_lt.le
    · rw [update_of_ne hd]

theorem Moves.requestId {c : CallId} {p : Phase} {i : UInt32} (h : Moves codec s a c p)
    (hi : (s.calls c).requestId = some i) : p.requestId = some i := by
  cases h <;> simp_all [Phase.requestId]

theorem step_requestId {i : UInt32} {c : CallId} (h : step codec s a = some s')
    (hi : (s.calls c).requestId = some i) : (s'.calls c).requestId = some i := by
  rcases step_moves h with ⟨he, -⟩ | ⟨d, p, hm, he, -⟩
  · rwa [he]
  · rw [he]
    by_cases hd : c = d
    · subst d
      rw [update_self]
      exact hm.requestId hi
    · rwa [update_of_ne hd]

def State.holds (s : State) (c : CallId) (i : UInt32) : Prop :=
  ∃ p, (s.calls c).entry = some (i, p) ∧ s.responseToPromise i = some p

theorem Owned.holds_iff (h : Owned s.view) {c : CallId} {i : UInt32} :
    s.holds c i ↔ ∃ p, (s.calls c).entry = some (i, p) :=
  ⟨fun ⟨p, hp, _⟩ ↦ ⟨p, hp⟩, fun ⟨p, hp⟩ ↦ ⟨p, hp, h.key_of_entry c i p hp⟩⟩

theorem Owned.holder_eq (h : Owned s.view) {c c' : CallId} {i : UInt32} (hc : s.holds c i)
    (hc' : s.holds c' i) : c = c' := by
  obtain ⟨p, hp, -⟩ := hc
  obtain ⟨p', hp', -⟩ := hc'
  exact h.owner_eq hp hp'

theorem Owned.pending_iff (h : Owned s.view) (i : UInt32) :
    s.responseToPromise i ≠ none ↔ ∃! c, s.holds c i := by
  refine ⟨?_, ?_⟩
  · intro hi
    obtain ⟨p, hp⟩ := Option.ne_none_iff_exists'.mp hi
    obtain ⟨c, hc⟩ := h.entry_of_key i p hp
    exact ⟨c, ⟨p, hc, hp⟩, fun d hd ↦ h.holder_eq hd ⟨p, hc, hp⟩⟩
  · intro hholder
    obtain ⟨c, ⟨p, -, hp⟩, -⟩ := hholder
    simp [hp]

theorem entry_requestId {p : Phase} {i : UInt32} {f : PromiseId} (h : p.entry = some (i, f)) :
    p.requestId = some i ∧ p.inProgress := by
  cases p <;> simp_all [Phase.entry, Phase.requestId, Phase.inProgress]

def creates (tr : List Action) : ℕ := (tr.map Action.creates).sum

def OwnRequests (tr : List Action) : Prop := ∀ c r, Action.supply c r ∉ tr

structure FreshIds (n : ℕ) (s : State) : Prop where
  counter : s.idSequence.toNat ≤ n
  bounded : ∀ c i, (s.calls c).requestId = some i → i.toNat ≤ s.idSequence.toNat
  distinct : ∀ c c' i, (s.calls c).requestId = some i → (s.calls c').requestId = some i → c = c'

theorem FreshIds.create {n : ℕ} {c : CallId} {r : Message} (h : FreshIds n s)
    (hn : n + 1 < 2 ^ 32) (hr : Request.getId r = s.idSequence + 1)
    (he : s'.calls = update s.calls c (.created r)) (hseq : s'.idSequence = s.idSequence + 1) :
    FreshIds (n + 1) s' := by
  have hnat : s'.idSequence.toNat = s.idSequence.toNat + 1 := by
    have hc := h.counter
    rw [hseq, UInt32.toNat_add]
    exact Nat.mod_eq_of_lt (by simp; omega)
  have hnew : ((update s.calls c (.created r)) c).requestId = some s'.idSequence := by
    rw [update_self, Phase.requestId, hr, hseq]
  have below {d : CallId} {i : UInt32} (hd : (s.calls d).requestId = some i) :
      i ≠ s'.idSequence := by
    intro he
    subst he
    have hb := h.bounded d _ hd
    omega
  refine ⟨?_, ?_, ?_⟩
  · have hc := h.counter
    omega
  · intro d i hd
    rw [he] at hd
    by_cases hdc : d = c
    · subst d
      rw [hnew] at hd
      obtain rfl := Option.some.inj hd
      exact le_rfl
    · rw [update_of_ne hdc] at hd
      have hb := h.bounded d i hd
      omega
  · intro d d' i hd hd'
    rw [he] at hd hd'
    by_cases hdc : d = c <;> by_cases hdc' : d' = c
    · rw [hdc, hdc']
    · subst d
      rw [hnew] at hd
      rw [update_of_ne hdc'] at hd'
      exact (below hd' (Option.some.inj hd).symm).elim
    · subst d'
      rw [hnew] at hd'
      rw [update_of_ne hdc] at hd
      exact (below hd (Option.some.inj hd').symm).elim
    · rw [update_of_ne hdc] at hd
      rw [update_of_ne hdc'] at hd'
      exact h.distinct d d' i hd hd'

theorem FreshIds.moved {n : ℕ} {c : CallId} {p : Phase} (h : FreshIds n s)
    (hp : p.requestId = (s.calls c).requestId) (he : s'.calls = update s.calls c p)
    (hseq : s'.idSequence = s.idSequence) : FreshIds n s' := by
  have hid (d : CallId) : (s'.calls d).requestId = (s.calls d).requestId := by
    rw [he]
    by_cases hd : d = c
    · subst d
      rw [update_self, hp]
    · rw [update_of_ne hd]
  refine ⟨?_, ?_, ?_⟩
  · rw [hseq]
    exact h.counter
  · intro d i hd
    rw [hseq]
    exact h.bounded d i (hid d ▸ hd)
  · exact fun d d' i hd hd' ↦ h.distinct d d' i (hid d ▸ hd) (hid d' ▸ hd')

theorem FreshIds.mono {n m : ℕ} (h : FreshIds n s) (hnm : n ≤ m) : FreshIds m s :=
  ⟨h.counter.trans hnm, h.bounded, h.distinct⟩

theorem step_freshIds {n : ℕ} (h : step codec s a = some s') (hf : FreshIds n s)
    (ha : ∀ c r, a ≠ .supply c r) (hn : n + a.creates < 2 ^ 32) :
    FreshIds (n + a.creates) s' := by
  rcases step_moves h with ⟨he, hseq, -⟩ | ⟨c, p, hm, he, hseq⟩
  · refine FreshIds.mono ?_ (Nat.le_add_right _ _)
    exact hf.moved (c := 0) rfl (by rw [he, update_eq_self]) hseq
  · cases hm with
    | create hc hr => exact hf.create hn hr he hseq
    | supply => exact (ha _ _ rfl).elim
    | _ => exact hf.moved (by simp [*, Phase.requestId]) he (hseq.trans (UInt32.add_zero _))

theorem run_freshIds (h : Run (step codec) State.init tr s) (ho : OwnRequests tr)
    (hn : creates tr < 2 ^ 32) : FreshIds (creates tr) s := by
  revert ho hn
  refine h.history (P := fun tr s ↦ OwnRequests tr → creates tr < 2 ^ 32 → FreshIds (creates tr) s)
    ?_ ?_
  · intro _ _
    refine ⟨?_, ?_, ?_⟩
    · exact le_rfl
    · intro c i hi
      cases hi
    · intro c c' i hi
      cases hi
  · intro tr s a s' _ ih hs ho hn
    have hc : creates (tr ++ [a]) = creates tr + a.creates := by simp [creates]
    rw [hc] at hn ⊢
    refine step_freshIds hs (ih (fun c r hm ↦ ho c r (by simp [hm])) (by omega)) ?_ hn
    intro c r he
    subst he
    exact ho c r (by simp)

theorem step_rejected {c : CallId} {r : Message} (h : step codec s a = some s')
    (hr : s'.calls c = .rejected r) (hn : s.calls c ≠ .rejected r) :
    s.responseToPromise (Request.getId r) ≠ none ∧
      (s.calls c).requestId = some (Request.getId r) ∧ (s.calls c).entry = none ∧
      (a = .check c ∨ a = .register c (Request.getId r)) := by
  rcases step_moves h with ⟨he, -⟩ | ⟨d, p, hm, he, -⟩
  · exact (hn (he ▸ hr)).elim
  · rw [he] at hr
    by_cases hd : c = d
    · subst d
      rw [update_self] at hr
      subst p
      cases hm with
      | checkRejected hc hi | registerRejected hc hi =>
        exact ⟨hi, by simp [hc, Phase.requestId], by simp [hc, Phase.entry], by simp⟩
    · rw [update_of_ne hd] at hr
      exact (hn hr).elim

theorem run_not_rejected (h : Run (step codec) State.init tr s) (ho : OwnRequests tr)
    (hn : creates tr < 2 ^ 32) (c : CallId) (r : Message) : s.calls c ≠ .rejected r := by
  revert ho hn
  refine h.history (P := fun tr s ↦ OwnRequests tr → creates tr < 2 ^ 32 → s.calls c ≠ .rejected r)
    ?_ ?_
  · intro _ _ hr
    cases hr
  · intro tr s a s' hrun ih hs ho hn hr
    have ho' : OwnRequests tr := fun c r hm ↦ ho c r (by simp [hm])
    have hn' : creates tr < 2 ^ 32 := by
      have hc : creates (tr ++ [a]) = creates tr + a.creates := by simp [creates]
      omega
    obtain ⟨hi, hid, hent, -⟩ := step_rejected hs hr (ih ho' hn')
    obtain ⟨d, ⟨p, hd, -⟩, -⟩ := ((run_owned hrun).pending_iff _).mp hi
    obtain rfl := (run_freshIds hrun ho' hn').distinct d c _ (entry_requestId hd).1 hid
    rw [hent] at hd
    cases hd

theorem step_rejected_map {c : CallId} {r : Message} (h : step codec s a = some s')
    (hr : s'.calls c = .rejected r) (hn : s.calls c ≠ .rejected r) :
    s'.responseToPromise = s.responseToPromise := by
  obtain ⟨hi, -, -, ha⟩ := step_rejected h hr hn
  have he := step_effect h
  generalize hv : s.view = v, hv' : s'.view = v' at he
  have hmap : v'.responseToPromise = v.responseToPromise := by
    cases he with
    | opened d i _ _ hnone =>
      obtain ⟨rfl, rfl⟩ : d = c ∧ i = Request.getId r := by simpa using ha
      rw [← hv] at hnone
      exact (hi hnone).elim
    | closed => simp at ha
    | _ => rfl
  rw [← hv, ← hv'] at hmap
  exact hmap

theorem step_remove {c : CallId} {i : UInt32} (h : step codec s (.remove c i) = some s') :
    (∃ p, (s.calls c).entry = some (i, p)) ∧
      s'.responseToPromise = update s.responseToPromise i none := by
  have he := step_effect h
  generalize hv : s.view = v, hv' : s'.view = v' at he
  have hmap : (∃ p, v.entry c = some (i, p)) ∧
      v'.responseToPromise = update v.responseToPromise i none := by
    cases he with
    | quiet hr => exact (hr c i rfl).elim
    | closed _ _ p result response hc => exact ⟨⟨p, hc⟩, rfl⟩
  rw [← hv, ← hv'] at hmap
  exact hmap

/-- Who owns a pending id, over all interleavings of any number of callers with
the event loop. -/
theorem pending_ids_owned (codec : Codec) (tr : List Action) (s : State)
    (h : Run (step codec) State.init tr s) :
    (∀ i, s.responseToPromise i ≠ none ↔ ∃! c, ∃ p, (s.calls c).entry = some (i, p)) ∧
    (∀ c c' i p p', (s.calls c).entry = some (i, p) → (s.calls c').entry = some (i, p') → c = c') ∧
    (∀ a s' c r, step codec s a = some s' → s'.calls c = .rejected r →
      s.calls c ≠ .rejected r → s'.responseToPromise = s.responseToPromise) ∧
    (∀ c i s', step codec s (.remove c i) = some s' →
      (∃ p, (s.calls c).entry = some (i, p) ∧ s.responseToPromise i = some p) ∧
        s'.responseToPromise = update s.responseToPromise i none) ∧
    ((∀ c, ¬ (s.calls c).inProgress) → ∀ i, s.responseToPromise i = none) ∧
    (OwnRequests tr → creates tr < 2 ^ 32 → ∀ c r, s.calls c ≠ .rejected r) := by
  have ho := run_owned h
  refine ⟨fun i ↦ ?_, fun c c' i p p' ↦ ho.owner_eq, fun a s' c r hs ↦ step_rejected_map hs,
    fun c i s' hs ↦ ?_, fun hidle i ↦ ?_, run_not_rejected h⟩
  · simpa only [ho.holds_iff] using ho.pending_iff i
  · obtain ⟨⟨p, hp⟩, hmap⟩ := step_remove hs
    exact ⟨⟨p, hp, ho.key_of_entry c i p hp⟩, hmap⟩
  · by_contra hi
    obtain ⟨c, ⟨p, hc, -⟩, -⟩ := (ho.pending_iff i).mp hi
    exact hidle c (entry_requestId hc).2

theorem pending_ids_owned_answeredCall : ∃ s, Run (step sampleCodec) State.init answeredCall s ∧
    (∃! c, ∃ p, (s.calls c).entry = some (1, p)) ∧ ∀ c r, s.calls c ≠ .rejected r := by
  obtain ⟨s, hs, hi, -⟩ := answeredCall_runs
  obtain ⟨hkey, -, -, -, -, hnone⟩ := pending_ids_owned sampleCodec answeredCall s hs
  refine ⟨s, hs, (hkey 1).mp (by simp [hi]), hnone ?_ (by decide)⟩
  simp [OwnRequests, answeredCall]

end Peripherals.WebSockets.JsonRpcInterface
