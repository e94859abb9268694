import Peripherals.WebSockets.Ownership

namespace Peripherals.WebSockets.JsonRpcInterface

open Function Thunder JsonRpc Execution

variable {codec : Codec}

def reply (codec : Codec) (i : UInt32) : Action → Option String
  | .message text => if dispatch codec text = .response i then some text else none
  | _ => none

/-- From a `createFutureResponse` for an id to the next `removePromise` for it
at most one message is routed to the id. -/
def AnsweredOnce (codec : Codec) (tr : List Action) : Prop :=
  ∀ c i pre mid post, tr = pre ++ .register c i :: (mid ++ post) →
    (∀ c', Action.remove c' i ∉ mid) → (mid.filterMap (reply codec i)).length ≤ 1

/-- No message of an execution makes `onMessage` throw: each `set_value` is
called on a promise without a value. -/
def NeverThrows (codec : Codec) (tr : List Action) : Prop :=
  ∀ pre text post s, tr = pre ++ .message text :: post → Run (step codec) State.init pre s →
    ∃ s', onMessage codec s text = .ok s'

theorem event_eq_acquire {a : Action} {c : CallId} {i : UInt32} :
    event codec a = .acquire c i ↔ a = .register c i := by
  cases a with
  | message text => simp only [event]; split <;> simp
  | _ => simp [event]

theorem event_eq_release {a : Action} {c : CallId} {i : UInt32} :
    event codec a = .release c i ↔ a = .remove c i := by
  cases a with
  | message text => simp only [event]; split <;> simp
  | _ => simp [event]

theorem event_eq_deliver {a : Action} {text : String} {i : UInt32} :
    event codec a = .deliver i text ↔ a = .message text ∧ dispatch codec text = .response i := by
  cases a with
  | message text' =>
    simp only [event, Action.message.injEq]
    refine ⟨?_, ?_⟩
    · intro h
      split at h
      · obtain ⟨rfl, rfl⟩ := Mailbox.Event.deliver.inj h
        exact ⟨rfl, ‹_›⟩
      · cases h
    · intro h
      obtain ⟨rfl, hd⟩ := h
      simp only [hd]
  | _ => simp [event]

theorem event_toKey (i : UInt32) (a : Action) : (event codec a).toKey i = reply codec i a := by
  cases ha : reply codec i a with
  | some text =>
    cases a with
    | message text' =>
      simp only [reply] at ha
      split_ifs at ha with hd
      obtain rfl := Option.some.inj ha
      exact Mailbox.toKey_eq_some.mpr (event_eq_deliver.mpr ⟨rfl, hd⟩)
    | _ => cases ha
  | none =>
    rw [Option.eq_none_iff_forall_ne_some]
    intro text ht
    obtain ⟨rfl, hd⟩ := event_eq_deliver.mp (Mailbox.toKey_eq_some.mp ht)
    simp [reply, hd] at ha

theorem deliveredOnce_iff (tr : List Action) :
    Mailbox.DeliveredOnce (event codec) tr ↔ AnsweredOnce codec tr := by
  have hrel (mid : List Action) (i : UInt32) : (∀ b ∈ mid, ∀ c', event codec b ≠ .release c' i) ↔
      ∀ c', Action.remove c' i ∉ mid := by
    simp only [ne_eq, event_eq_release]
    exact ⟨fun h c' hb ↦ h _ hb c' rfl, fun h b hb c' he ↦ h c' (he ▸ hb)⟩
  simp only [Mailbox.DeliveredOnce, AnsweredOnce, hrel, event_toKey, event_eq_acquire]
  refine ⟨?_, ?_⟩
  · exact fun h c i pre mid post he ↦ h c i pre _ mid post he rfl
  · intro h c i pre _ mid post he hb
    subst hb
    exact h c i pre mid post he

theorem onMessage_throws_iff (s : State) (text : String) :
    (¬ ∃ s', onMessage codec s text = .ok s') ↔ ∃ i p first,
      dispatch codec text = .response i ∧ s.responseToPromise i = some p ∧
        s.promises p = some first := by
  cases hd : dispatch codec text with
  | response i =>
    simp only [onMessage, hd, handleResponse, Dispatch.response.injEq, existsAndEq, true_and]
    cases hi : s.responseToPromise i with
    | none => simp
    | some p => cases hp : s.promises p <;> simp [hp]
  | malformed | request | invalidId | notification => simp [onMessage, hd]

theorem refused_iff {tr : List Action} {s : State} (h : Run (step codec) State.init tr s)
    (text : String) : Mailbox.Refused s.view.boxes (event codec (.message text)) ↔
      ¬ ∃ s', onMessage codec s text = .ok s' := by
  have ho := run_owned h
  rw [onMessage_throws_iff]
  refine ⟨?_, ?_⟩
  · intro hrefused
    obtain ⟨i, w, he, c, first, hc⟩ := hrefused
    obtain ⟨hw, hd⟩ := event_eq_deliver.mp he
    obtain rfl := Action.message.inj hw
    obtain ⟨⟨j, p⟩, hj, hp⟩ := Option.map_eq_some_iff.mp hc
    obtain ⟨rfl, hv⟩ := Prod.mk.inj hp
    exact ⟨j, p, first, hd, ho.key_of_entry c j p hj, hv⟩
  · intro hthrows
    obtain ⟨i, p, first, hd, hi, hp⟩ := hthrows
    obtain ⟨c, hc⟩ := ho.entry_of_key i p hi
    refine ⟨i, text, event_eq_deliver.mpr ⟨rfl, hd⟩, c, first, ?_⟩
    rw [View.boxes, hc]
    exact congrArg (fun w ↦ some (i, w)) hp

/-- An execution never satisfies a promise twice exactly when no id is answered
twice while a call waits under it. -/
theorem neverThrows_iff_answeredOnce (codec : Codec) (tr : List Action) (s : State)
    (h : Run (step codec) State.init tr s) : NeverThrows codec tr ↔ AnsweredOnce codec tr := by
  rw [← deliveredOnce_iff, Mailbox.deliveredOnce_iff (run_mailbox h)]
  refine ⟨?_, ?_⟩
  · intro hn pre a post σ he hr hσ
    subst he
    obtain ⟨t, t', ht, hs, -⟩ := h.split
    obtain rfl := (run_mailbox ht).functional hr
    obtain ⟨i, text, he, hf⟩ := hσ
    obtain ⟨rfl, -⟩ := event_eq_deliver.mp he
    exact (refused_iff ht text).mp ⟨i, text, he, hf⟩ (hn pre text post t rfl ht)
  · intro hn pre text post t he ht
    subst he
    by_contra hc
    exact hn pre _ post _ rfl (run_mailbox ht) ((refused_iff ht text).mpr hc)

def sampleReply : String :=
  "\x7b\"jsonrpc\":\"2.0\",\"id\":1,\"result\":\x7b\"success\":true\x7d\x7d"

def sampleResult : String := "\x7b\"success\":true\x7d"

def sampleCodec : Codec where
  blank := ⟨.assign "2.0", ⟨false, 0⟩, ⟨false, ""⟩, ⟨false, ""⟩, ⟨false, ""⟩,
    ⟨false, ⟨false, 0⟩, ⟨false, ""⟩⟩⟩
  parseObject text :=
    if text = sampleReply then
      (true, [("jsonrpc", .ofString "2.0"), ("id", .ofNat 1),
        ("result", .ofObject [("success", .ofBool true)])])
    else if text = sampleResult then (true, [("success", .ofBool true)])
    else (false, [])
  parseMessage text :=
    if text = sampleReply then
      ⟨.assign "2.0", .assign 1, ⟨false, ""⟩, ⟨false, ""⟩, .assign sampleResult,
        ⟨false, ⟨false, 0⟩, ⟨false, ""⟩⟩⟩
    else ⟨.assign "2.0", ⟨false, 0⟩, ⟨false, ""⟩, ⟨false, ""⟩, ⟨false, ""⟩,
      ⟨false, ⟨false, 0⟩, ⟨false, ""⟩⟩⟩
  printObject _ := "\x7b\x7d"
  printMessage _ :=
    "\x7b\"jsonrpc\":\"2.0\",\"id\":1,\"method\":\"ping\",\"params\":\x7b\x7d\x7d"
  method m := m.designator.value

def answeredCall : List Action :=
  [.create 0 "ping" [], .check 0, .register 0 1, .send 0 false, .message sampleReply]

theorem answeredCall_runs : ∃ s, Run (step sampleCodec) State.init answeredCall s ∧
    s.responseToPromise 1 = some 0 ∧ s.promises 0 = some sampleReply := by
  have h : ((answeredCall.foldlM (step sampleCodec) State.init).map fun s ↦
      (s.responseToPromise 1, s.promises 0)) = some (some 0, some sampleReply) := by decide +kernel
  obtain ⟨s, hs, hv⟩ := Option.map_eq_some_iff.mp h
  obtain ⟨h₁, h₂⟩ := Prod.mk.inj hv
  exact ⟨s, run_iff_foldlM.mpr hs, h₁, h₂⟩

theorem neverThrows_iff_answeredOnce_answeredCall :
    NeverThrows sampleCodec answeredCall ↔ AnsweredOnce sampleCodec answeredCall := by
  obtain ⟨s, hs, -⟩ := answeredCall_runs
  exact neverThrows_iff_answeredOnce sampleCodec answeredCall s hs

/-- The same reply once more, before the caller is scheduled again. -/
theorem second_reply_throws : ¬ ∀ codec tr s, Run (step codec) State.init tr s →
    NeverThrows codec tr := by
  intro hall
  obtain ⟨s, hs, hi, hp⟩ := answeredCall_runs
  have hthrow : ¬ ∃ s', onMessage sampleCodec s sampleReply = .ok s' :=
    (onMessage_throws_iff s sampleReply).mpr ⟨1, 0, sampleReply, by decide +kernel, hi, hp⟩
  have hstep : step sampleCodec s (.message sampleReply) =
      some { s with escaped := s.escaped + 1 } := by
    simp only [step]
    split
    · exact (hthrow ⟨_, ‹_›⟩).elim
    · rfl
  exact hthrow (hall _ _ _ (hs.snoc hstep) answeredCall sampleReply [] s (by simp) hs)

end Peripherals.WebSockets.JsonRpcInterface
