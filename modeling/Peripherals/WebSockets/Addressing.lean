import Peripherals.WebSockets.Fulfilment

namespace Peripherals.WebSockets.JsonRpcInterface

open Function Thunder JsonRpc Execution

variable {codec : Codec} {s s' : State} {text : String} {json : JsonObject} {i : UInt32}

def State.awaits (s : State) (i : UInt32) : Prop :=
  ∃ p, s.responseToPromise i = some p ∧ s.promises p = none

/-- The keys have promises of their own, as the map holds the promises themselves. -/
def State.Separate (s : State) : Prop :=
  ∀ i j p, s.responseToPromise i = some p → s.responseToPromise j = some p → i = j

/-- A message with the id `n` fulfils the promise of the key `n` at most, and one
with an id outside of `uint32_t` leaves all pending requests alone. -/
structure Addressed (s s' : State) (n : Int) : Prop where
  fulfilled : ∀ i, s.awaits i → ¬ s'.awaits i → n = i.toNat
  untouched : n < 0 ∨ 2 ^ 32 ≤ n → s'.responseToPromise = s.responseToPromise ∧
    ∀ i p, s.responseToPromise i = some p → s'.promises p = s.promises p

theorem Owned.separate (h : Owned s.view) : s.Separate := by
  intro i j p hi hj
  obtain ⟨c, hc⟩ := h.entry_of_key i p hi
  obtain ⟨d, hd⟩ := h.entry_of_key j p hj
  obtain rfl := h.owner_unique c d i j p hc hd
  exact (Prod.mk.inj (Option.some.inj (hc.symm.trans hd))).1

/-- A message with a numeric id and no method is an answer to the id modulo 2^32. -/
theorem dispatch_numeric (hparse : codec.parseObject text = (true, json))
    (hid : json.hasLabel "id" = true) (hmethod : json.hasLabel "method" = false)
    (hnumber : (json.get "id").content = .number) :
    dispatch codec text = .response (UInt32.ofInt (json.get "id").number) := by
  simp [dispatch, hparse, hid, hmethod, hnumber]

theorem step_response_of_not_awaits (hd : dispatch codec text = .response i)
    (hs : step codec s (.message text) = some s') (hi : ¬ s.awaits i) :
    s'.responseToPromise = s.responseToPromise ∧ s'.promises = s.promises := by
  simp only [step, onMessage, hd, handleResponse] at hs
  cases hp : s.responseToPromise i with
  | none =>
    rw [hp] at hs
    obtain rfl := Option.some.inj hs
    exact ⟨rfl, rfl⟩
  | some p =>
    cases hv : s.promises p with
    | none => exact (hi ⟨p, hp, hv⟩).elim
    | some v =>
      simp only [hp, hv] at hs
      obtain rfl := Option.some.inj hs
      exact ⟨rfl, rfl⟩

theorem step_response_of_awaits {p : PromiseId} (hd : dispatch codec text = .response i)
    (hs : step codec s (.message text) = some s') (hp : s.responseToPromise i = some p)
    (hv : s.promises p = none) :
    s' = { s with promises := update s.promises p (some text) } := by
  simp only [step, onMessage, hd, handleResponse, hp, hv] at hs
  exact (Option.some.inj hs).symm

theorem toNat_ofInt {n : Int} (h₀ : 0 ≤ n) (h : n < 2 ^ 32) :
    ((UInt32.ofInt n).toNat : Int) = n := by
  obtain ⟨m, rfl⟩ := Int.eq_ofNat_of_zero_le h₀
  have hm : m < 2 ^ 32 := by omega
  rw [UInt32.ofInt, Int.emod_eq_of_lt h₀ h, Int.toNat_natCast, UInt32.toNat_ofNat',
    Nat.mod_eq_of_lt hm]

/-- A message disturbs another request if and only if its id leaves `uint32_t`
and some request waits under what remains of it. -/
theorem reply_addressed_iff (hsep : s.Separate) (hparse : codec.parseObject text = (true, json))
    (hid : json.hasLabel "id" = true) (hmethod : json.hasLabel "method" = false)
    (hnumber : (json.get "id").content = .number)
    (hs : step codec s (.message text) = some s') :
    Addressed s s' (json.get "id").number ↔
      (0 ≤ (json.get "id").number ∧ (json.get "id").number < 2 ^ 32) ∨
        ¬ s.awaits (UInt32.ofInt (json.get "id").number) := by
  have hd := dispatch_numeric hparse hid hmethod hnumber
  generalize (json.get "id").number = n at hd ⊢
  by_cases hawaits : s.awaits (UInt32.ofInt n)
  · obtain ⟨p, hp, hv⟩ := id hawaits
    have hs' := step_response_of_awaits hd hs hp hv
    subst hs'
    refine ⟨?_, ?_⟩
    · intro haddressed
      left
      by_contra hrange
      obtain ⟨-, hpromises⟩ := haddressed.untouched (by omega)
      have hkept := hpromises _ p hp
      simp [hv] at hkept
    · intro hrange
      obtain ⟨h₀, hlt⟩ := hrange.resolve_right (not_not.mpr hawaits)
      refine ⟨?_, fun hout ↦ by omega⟩
      intro j hj hgone
      obtain ⟨q, hq, hqv⟩ := hj
      have hqp : q = p := by
        by_contra hne
        exact hgone ⟨q, hq, by simpa [hne] using hqv⟩
      subst hqp
      obtain rfl := hsep _ _ _ hp hq
      exact (toNat_ofInt h₀ hlt).symm
  · obtain ⟨hmap, hpromises⟩ := step_response_of_not_awaits hd hs hawaits
    refine ⟨fun _ ↦ .inr hawaits, fun _ ↦ ⟨?_, ?_⟩⟩
    · intro j hj hgone
      exact (hgone (by simpa [State.awaits, hmap, hpromises] using hj)).elim
    · intro _
      exact ⟨hmap, fun _ _ _ ↦ by rw [hpromises]⟩

/-- The reply that `sampleCodec` knows, with an id that is 1 modulo 2^32. -/
def strayReply : String :=
  "\x7b\"jsonrpc\":\"2.0\",\"id\":4294967297,\"result\":\x7b\"success\":true\x7d\x7d"

def strayObject : JsonObject :=
  [("jsonrpc", .ofString "2.0"), ("id", .ofNat 4294967297),
    ("result", .ofObject [("success", .ofBool true)])]

def strayCodec : Codec :=
  { sampleCodec with
    parseObject := fun text ↦
      if text = strayReply then (true, strayObject) else sampleCodec.parseObject text }

def waitingCall : List Action :=
  [.create 0 "ping" [], .check 0, .register 0 1, .send 0 false]

theorem waitingCall_runs : ∃ s, Run (step strayCodec) State.init waitingCall s ∧
    s.responseToPromise 1 = some 0 ∧ s.promises 0 = none := by
  have h : ((waitingCall.foldlM (step strayCodec) State.init).map fun s ↦
      (s.responseToPromise 1, s.promises 0)) = some (some 0, none) := by decide +kernel
  obtain ⟨s, hs, hv⟩ := Option.map_eq_some_iff.mp h
  obtain ⟨h₁, h₂⟩ := Prod.mk.inj hv
  exact ⟨s, run_iff_foldlM.mpr hs, h₁, h₂⟩

theorem reply_addressed_iff_unasked : ∃ s',
    step strayCodec State.init (.message strayReply) = some s' ∧
      (Addressed State.init s' (strayObject.get "id").number ↔
        (0 ≤ (strayObject.get "id").number ∧ (strayObject.get "id").number < 2 ^ 32) ∨
          ¬ State.init.awaits (UInt32.ofInt (strayObject.get "id").number)) := by
  have hs : step strayCodec State.init (.message strayReply) = some State.init := rfl
  exact ⟨State.init, hs, reply_addressed_iff init_owned.separate rfl rfl rfl rfl hs⟩

/-- A reply with the id 2^32 + 1 answers the request 1. -/
theorem request_disturbed :
    ¬ ∀ (codec : Codec) (tr : List Action) (s s' : State) (text : String) (json : JsonObject),
      Run (step codec) State.init tr s → codec.parseObject text = (true, json) →
      json.hasLabel "id" = true → json.hasLabel "method" = false →
      (json.get "id").content = .number → step codec s (.message text) = some s' →
      Addressed s s' (json.get "id").number := by
  intro hall
  obtain ⟨s, hs, hi, hp⟩ := waitingCall_runs
  have hd : dispatch strayCodec strayReply = .response 1 := by decide +kernel
  have hstep : step strayCodec s (.message strayReply) =
      some { s with promises := update s.promises 0 (some strayReply) } := by
    simp [step, onMessage, hd, handleResponse, hi, hp]
  have haddressed := hall strayCodec waitingCall s _ strayReply strayObject hs rfl rfl rfl rfl hstep
  obtain ⟨-, hpromises⟩ := haddressed.untouched (.inr (by decide))
  have hkept := hpromises 1 0 hi
  simp [hp] at hkept

end Peripherals.WebSockets.JsonRpcInterface
