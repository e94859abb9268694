import Peripherals.WebSockets.Callers

namespace Peripherals.WebSockets.JsonRpcInterface

open Function Thunder JsonRpc Execution

variable {codec : Codec} {s t t' : State} {tr : List Action} {c c' : CallId} {i i' : UInt32}
  {n : ℕ} {text text' : String}

/-- Message `n` of an execution answers call `c`: the first one routed to `i`
since the call's `createFutureResponse`, and before its `removePromise`. -/
def AnsweredAt (codec : Codec) (tr : List Action) (c : CallId) (i : UInt32) (n : ℕ)
    (text : String) : Prop :=
  ∃ pre mid post rest,
    tr = (pre ++ .register c i :: mid) ++ .message text :: (post ++ .remove c i :: rest) ∧
      n = (pre ++ Action.register c i :: mid).length ∧ dispatch codec text = .response i ∧
      ∀ b ∈ mid, reply codec i b = none

theorem AnsweredAt.append (h : AnsweredAt codec tr c i n text) (tr' : List Action) :
    AnsweredAt codec (tr ++ tr') c i n text := by
  obtain ⟨pre, mid, post, rest, rfl, hn, hd, hfirst⟩ := h
  exact ⟨pre, mid, post, rest ++ tr', by simp, hn, hd, hfirst⟩

/-- What a response has to say for its request to succeed. -/
structure Accepted (codec : Codec) (i : UInt32) (response : Message) : Prop where
  valid : Response.isValid response = true
  version : response.jsonrpc.isSet = true ∧ response.jsonrpc.value = defaultVersion
  id : response.id.isSet = true ∧ Response.getId response = i
  result_or_error : response.result.isSet ≠ response.error.isSet
  success : ∃ parameters, Response.getResult codec response = some parameters ∧
    parameters.hasLabel "success" = true ∧
    (((parameters.get "success").content = .boolean ∧ (parameters.get "success").boolean = true) ∨
      ((parameters.get "success").content ≠ .boolean ∧
        ((parameters.get "success").string = "true" ∨ (parameters.get "success").string = "1")))

theorem processResponse_eq_true {response : Message}
    (h : processResponse codec i text = (true, response)) :
    response = codec.parseMessage text ∧ Accepted codec i response := by
  obtain ⟨hs, rfl⟩ := Prod.mk.inj h
  refine ⟨rfl, ?_⟩
  split_ifs at hs with hv
  simp only [Bool.and_eq_true, beq_iff_eq] at hv
  obtain ⟨hvalid, hid⟩ := hv
  obtain ⟨hver, hset, hone⟩ := (Response.isValid_iff _).mp hvalid
  split at hs
  case h_2 => cases hs
  case h_1 parameters hp =>
    split_ifs at hs with hl
    exact ⟨hvalid, hver, ⟨hset, hid⟩, by rcases hone with ⟨h₁, h₂⟩ | ⟨h₁, h₂, -⟩ <;> simp [h₁, h₂],
      parameters, hp, hl, getBoolParameter_eq_true hs⟩

theorem answeredAt_of_entry {p : PromiseId} (h : Run (step codec) State.init tr s)
    (hc : s.view.entry c = some (i, p)) (hp : s.view.promises p = some text) :
    ∃ n, AnsweredAt codec (tr ++ [.remove c i]) c i n text := by
  have hbox : s.view.boxes c = some (i, some text) := by simp [View.boxes, hc, hp]
  obtain ⟨pre, a, mid, rfl, ha, -, hfirst⟩ := Mailbox.run_box (run_mailbox h) hbox
  obtain rfl := event_eq_acquire.mp ha
  simp only [event_toKey] at hfirst
  obtain ⟨m₁, x, m₂, rfl, hx, hnone⟩ := List.findSome?_eq_some_iff.mp hfirst.symm
  rw [← event_toKey] at hx
  obtain ⟨rfl, hd⟩ := event_eq_deliver.mp (Mailbox.toKey_eq_some.mp hx)
  exact ⟨_, pre, m₁, m₂, [], by simp, rfl, hd, hnone⟩

theorem outcome_answered (h : Run (step codec) State.init tr s) {response : Option Message}
    (hc : s.view.outcome c = some (i, true, response)) : ∃ n text message,
      AnsweredAt codec tr c i n text ∧ response = some message ∧
        processResponse codec i text = (true, message) := by
  suffices hall : ∀ c i response, s.view.outcome c = some (i, true, response) →
      ∃ n text message, AnsweredAt codec tr c i n text ∧ response = some message ∧
        processResponse codec i text = (true, message) from hall c i response hc
  refine h.history (P := fun tr s ↦ ∀ c i response, s.view.outcome c = some (i, true, response) →
      ∃ n text message, AnsweredAt codec tr c i n text ∧ response = some message ∧
        processResponse codec i text = (true, message)) ?_ ?_
  · intro c i response hc
    cases hc
  · intro tr s a s' hr ih hs c i response hc
    have keep (hold : s.view.outcome c = some (i, true, response)) : ∃ n text message,
        AnsweredAt codec (tr ++ [a]) c i n text ∧ response = some message ∧
          processResponse codec i text = (true, message) := by
      obtain ⟨n, text, message, hans, hm⟩ := ih c i response hold
      exact ⟨n, text, message, hans.append [a], hm⟩
    have he := step_effect hs
    generalize hv' : s'.view = v' at he hc
    cases he with
    | closed d j p result response' hd _ hres =>
      dsimp only at hc
      by_cases hdc : c = d
      · subst d
        rw [update_self] at hc
        obtain ⟨rfl, rfl, rfl⟩ : j = i ∧ result = true ∧ response' = response := by simpa using hc
        obtain ⟨text, message, hp, hm, hproc⟩ := hres rfl
        obtain ⟨n, hans⟩ := answeredAt_of_entry hr hd hp
        exact ⟨n, text, message, hans, hm, hproc⟩
      · rw [update_of_ne hdc] at hc
        exact keep hc
    | _ => exact keep hc

theorem run_stage {s s' : State} (h : Run (step codec) s tr s') (c : CallId) :
    (s.calls c).stage ≤ (s'.calls c).stage :=
  h.invariant (I := fun s' ↦ (s.calls c).stage ≤ (s'.calls c).stage) le_rfl
    fun _ _ _ hle hs ↦ hle.trans (step_stage hs c)

theorem run_requestId {s s' : State} (h : Run (step codec) s tr s')
    (hi : (s.calls c).requestId = some i) : (s'.calls c).requestId = some i :=
  h.invariant (I := fun s ↦ (s.calls c).requestId = some i) hi
    fun _ _ _ hi hs ↦ step_requestId hs hi

theorem entry_of_stage {p : Phase} (h₃ : 3 ≤ p.stage) (h₅ : p.stage ≤ 5)
    (hi : p.requestId = some i) : ∃ f, p.entry = some (i, f) := by
  cases p <;> simp_all [Phase.stage, Phase.requestId, Phase.entry]

theorem step_register {s s' : State} (h : step codec s (.register c i) = some s') :
    3 ≤ (s'.calls c).stage ∧ (s'.calls c).requestId = some i := by
  rcases step_moves h with ⟨-, -, hn⟩ | ⟨d, p, hm, he, -⟩
  · exact ((hn c i).1 rfl).elim
  · cases hm <;> simp [he, Phase.stage, Phase.requestId]

theorem step_remove_stage {s s' : State} (h : step codec s (.remove c i) = some s') :
    (s.calls c).stage = 5 := by
  rcases step_moves h with ⟨-, -, hn⟩ | ⟨d, p, hm, -, -⟩
  · exact ((hn c i).2 rfl).elim
  · cases hm
    simp [*, Phase.stage]

theorem entry_between {pre mid post rest : List Action}
    (h : Run (step codec) State.init (pre ++ .register c i :: mid) t)
    (h' : Run (step codec) t (post ++ .remove c i :: rest) t') :
    ∃ p, (t.calls c).entry = some (i, p) := by
  obtain ⟨s₀, s₁, -, hreg, hmid⟩ := h.split
  obtain ⟨s₂, s₃, hpost, hrem, -⟩ := h'.split
  obtain ⟨hstage, hid⟩ := step_register hreg
  have hle := run_stage hpost c
  rw [step_remove_stage hrem] at hle
  exact entry_of_stage (hstage.trans (run_stage hmid c)) hle (run_requestId hmid hid)

theorem answeredAt_unique (h : Run (step codec) State.init tr s)
    (ha : AnsweredAt codec tr c i n text) (ha' : AnsweredAt codec tr c' i' n text') : c = c' := by
  obtain ⟨pre, mid, post, rest, rfl, hn, hd, -⟩ := ha
  obtain ⟨pre', mid', post', rest', heq, hn', hd', -⟩ := ha'
  obtain ⟨hpre, hrest⟩ := List.append_inj heq (hn.symm.trans hn')
  obtain ⟨hm, hpost⟩ := List.cons.inj hrest
  obtain rfl := Action.message.inj hm
  obtain rfl := Dispatch.response.inj (hd.symm.trans hd')
  obtain ⟨t, ht, h⟩ := run_append.mp h
  have hafter : Run (step codec) t (.message text :: post ++ .remove c i :: rest) s := by
    simpa using h
  have hafter' : Run (step codec) t (.message text :: post' ++ .remove c' i :: rest') s := by
    rw [hrest] at h
    simpa using h
  obtain ⟨p, hp⟩ := entry_between ht hafter
  obtain ⟨p', hp'⟩ := entry_between (hpre ▸ ht) hafter'
  exact (run_owned ht).owner_eq hp hp'

theorem dispatch_eq_response (h : dispatch codec text = .response i) :
    (codec.parseObject text).1 = true ∧ (codec.parseObject text).2.hasLabel "id" = true ∧
      (codec.parseObject text).2.hasLabel "method" = false ∧
      ((codec.parseObject text).2.get "id").content = .number ∧
      UInt32.ofInt ((codec.parseObject text).2.get "id").number = i := by
  simp only [dispatch] at h
  split_ifs at h with h₁ h₂ h₃ h₄
  exact ⟨by simpa using h₁, h₂, by simpa using h₃, not_not.mp h₄, Dispatch.response.inj h⟩

/-- A call succeeds on the first message routed to it while it waits, on that
message alone, and no message serves two calls. -/
theorem success_is_answered (codec : Codec) (tr : List Action) (s : State)
    (h : Run (step codec) State.init tr s) :
    (∀ c i response, (s.calls c).outcome = some (i, true, response) → ∃ n text message,
      AnsweredAt codec tr c i n text ∧ (codec.parseObject text).2.hasLabel "method" = false ∧
      response = some message ∧ message = codec.parseMessage text ∧ Accepted codec i message) ∧
    ∀ c c' i i' n text text', AnsweredAt codec tr c i n text →
      AnsweredAt codec tr c' i' n text' → c = c' := by
  refine ⟨?_, ?_⟩
  · intro c i response hout
    obtain ⟨n, text, message, hans, hm, hproc⟩ := outcome_answered h hout
    obtain ⟨hparse, hacc⟩ := processResponse_eq_true hproc
    obtain ⟨-, -, -, -, -, -, hd, -⟩ := id hans
    exact ⟨n, text, message, hans, (dispatch_eq_response hd).2.2.1, hm, hparse, hacc⟩
  · exact fun c c' i i' n text text' ↦ answeredAt_unique h

def completedCall : List Action := answeredCall ++ [.wait 0 .ready, .remove 0 1]

theorem success_is_answered_completedCall : ∃ n text,
    AnsweredAt sampleCodec completedCall 0 1 n text ∧
      Accepted sampleCodec 1 (sampleCodec.parseMessage text) := by
  have h : ((completedCall.foldlM (step sampleCodec) State.init).map fun s ↦ (s.calls 0).outcome) =
      some (some (1, true, some (sampleCodec.parseMessage sampleReply))) := by decide +kernel
  obtain ⟨s, hs, hout⟩ := Option.map_eq_some_iff.mp h
  obtain ⟨hsucc, -⟩ := success_is_answered sampleCodec completedCall s (run_iff_foldlM.mpr hs)
  obtain ⟨n, text, message, hans, -, -, rfl, hacc⟩ := hsucc 0 1 _ hout
  exact ⟨n, text, hans, hacc⟩

def IsTrueOrOne (success : Variant) : Prop :=
  (success.content = .boolean ∧ success.boolean = true) ∨
    (success.content = .string ∧ (success.string = "true" ∨ success.string = "1"))

def numberedReply : String :=
  "\x7b\"jsonrpc\":\"2.0\",\"id\":1,\"result\":\x7b\"success\":1\x7d\x7d"

def numberedResult : String := "\x7b\"success\":1\x7d"

def numberedCodec : Codec :=
  { sampleCodec with
    parseObject := fun text ↦
      if text = numberedReply then
        (true, [("jsonrpc", .ofString "2.0"), ("id", .ofNat 1),
          ("result", .ofObject [("success", .ofNat 1)])])
      else if text = numberedResult then (true, [("success", .ofNat 1)])
      else (false, [])
    parseMessage := fun text ↦
      if text = numberedReply then
        ⟨.assign "2.0", .assign 1, ⟨false, ""⟩, ⟨false, ""⟩, .assign numberedResult,
          ⟨false, ⟨false, 0⟩, ⟨false, ""⟩⟩⟩
      else sampleCodec.parseMessage text }

def numberedCall : List Action :=
  [.create 0 "ping" [], .check 0, .register 0 1, .send 0 false, .message numberedReply,
    .wait 0 .ready, .remove 0 1]

/-- The number 1 counts as success too. -/
theorem number_accepted : ¬ ∀ codec tr s, Run (step codec) State.init tr s →
    ∀ c i response, (s.calls c).outcome = some (i, true, response) → ∃ n text message parameters,
      AnsweredAt codec tr c i n text ∧ response = some message ∧
        message = codec.parseMessage text ∧ Accepted codec i message ∧
        Response.getResult codec message = some parameters ∧
        IsTrueOrOne (parameters.get "success") := by
  intro hall
  have h : ((numberedCall.foldlM (step numberedCodec) State.init).map fun s ↦
      (s.calls 0).outcome) =
        some (some (1, true, some (numberedCodec.parseMessage numberedReply))) := by
    decide +kernel
  obtain ⟨s, hs, hout⟩ := Option.map_eq_some_iff.mp h
  obtain ⟨_, _, message, parameters, -, hmessage, -, -, hresult, hsuccess⟩ :=
    hall numberedCodec numberedCall s (run_iff_foldlM.mpr hs) 0 1 _ hout
  obtain rfl := Option.some.inj hmessage
  have hnumber : Response.getResult numberedCodec (numberedCodec.parseMessage numberedReply) =
      some [("success", .ofNat 1)] := by rfl
  obtain rfl := Option.some.inj (hresult.symm.trans hnumber)
  rcases hsuccess with ⟨hboolean, -⟩ | ⟨hstring, -⟩
  · cases hboolean
  · cases hstring

end Peripherals.WebSockets.JsonRpcInterface
