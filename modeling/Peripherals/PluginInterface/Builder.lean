import Peripherals.PluginInterface
import Peripherals.Retry

namespace Peripherals.PluginInterface.Builder

open Execution Retry

variable {I S σ : Type}

structure PluginInterfaceBuilder (S : Type) where
  callsign : String
  service : Option S
  version : UInt32
  timeout : UInt32
  retry_count : Int32
  retry_interval : UInt32

def create (callsign : String) : PluginInterfaceBuilder S :=
  ⟨callsign, none, 0xFFFFFFFF, 3000, 0, 0⟩

inductive Setter (S : Type)
  | withVersion (version : UInt32)
  | withTimeout (timeoutMs : UInt32)
  | withIShell (service : Option S)
  | withRetryIntervalMS (retryInterval : Int32)
  | withRetryCount (retryCount : Int32)

def Setter.apply (b : PluginInterfaceBuilder S) : Setter S → PluginInterfaceBuilder S
  | .withVersion version => { b with version := version }
  | .withTimeout timeoutMs => { b with timeout := timeoutMs }
  | .withIShell service => { b with service := service }
  | .withRetryIntervalMS retryInterval => { b with retry_interval := retryInterval.toUInt32 }
  | .withRetryCount retryCount => { b with retry_count := retryCount }

def build (callsign : String) (setters : List (Setter S)) : PluginInterfaceBuilder S :=
  setters.foldl Setter.apply (create callsign)

inductive Call
  | QueryInterfaceByCallsign (callsign : String)
  | usleep (usec : UInt32)
  deriving DecidableEq

structure Session (σ : Type) where
  shell : σ
  calls : List Call

abbrev Query (I S σ : Type) := S → String → σ → Option I × σ

/-- The body of the loop in `createInterface`. -/
def ask (query : Query I S σ) (builder : PluginInterfaceBuilder S) (controller : S)
    (s : Session σ) : Option I × Session σ :=
  let asked : Call := .QueryInterfaceByCallsign builder.callsign
  match query controller builder.callsign s.shell with
  | (some pluginInterface, shell) => (some pluginInterface, ⟨shell, s.calls ++ [asked]⟩)
  | (none, shell) =>
    (none, ⟨shell, s.calls ++ [asked, .usleep (builder.retry_interval * 1000)]⟩)

def askLoop (query : Query I S σ) (builder : PluginInterfaceBuilder S) (controller : S)
    (count : ℕ) (s : Session σ) : Option I × Session σ :=
  match ask query builder controller s with
  | (some pluginInterface, s) => (some pluginInterface, s)
  | (none, s) =>
    if ((count + 1 : ℕ) : ℤ) < builder.retry_count.toInt then
      askLoop query builder controller (count + 1) s
    else (none, s)
termination_by (builder.retry_count.toInt - count).toNat
decreasing_by omega

def createInterface (query : Query I S σ) (builder : PluginInterfaceBuilder S) (s : Session σ) :
    PluginInterfaceRef I S × Session σ :=
  match builder.service with
  | none => (⟨none, builder.service⟩, s)
  | some controller =>
    let (interface, s) := askLoop query builder controller 0 s
    (⟨interface, builder.service⟩, s)

def retries (builder : PluginInterfaceBuilder S) : ℕ := (builder.retry_count.toInt - 1).toNat

variable {query : Query I S σ} {b : PluginInterfaceBuilder S} {controller : S} {s : Session σ}

theorem askLoop_eq_retry (query : Query I S σ) (b : PluginInterfaceBuilder S) (controller : S)
    (n : ℕ) {count : ℕ} (s : Session σ) (h : count + n = retries b) :
    askLoop query b controller count s = retry (ask query b controller) Option.isSome n s := by
  unfold retries at h
  induction n generalizing count s with
  | zero =>
    have hlast : ¬ ((count + 1 : ℕ) : ℤ) < b.retry_count.toInt := by omega
    rw [askLoop, retry]
    rcases ask query b controller s with ⟨_ | x, t⟩
    · exact if_neg hlast
    · rfl
  | succ n ih =>
    have hmore : ((count + 1 : ℕ) : ℤ) < b.retry_count.toInt := by omega
    rw [askLoop, retry]
    rcases ask query b controller s with ⟨_ | x, t⟩
    · exact (if_pos hmore).trans (ih t (by omega))
    · rfl

/-- The calls of a query, and of the pause after it if it fails. -/
def asked (b : PluginInterfaceBuilder S) (interface : Option I) : List Call :=
  if interface.isSome then [.QueryInterfaceByCallsign b.callsign]
  else [.QueryInterfaceByCallsign b.callsign, .usleep (b.retry_interval * 1000)]

theorem ask_calls (query : Query I S σ) (b : PluginInterfaceBuilder S) (controller : S)
    (s : Session σ) : (ask query b controller s).2.calls =
      s.calls ++ asked b (ask query b controller s).1 := by
  unfold ask
  rcases query controller b.callsign s.shell with ⟨_ | x, t⟩ <;> rfl

/-- Without a controller nothing is asked. Else the queries that fail are followed by the
one that decides, and there are no more of them than the retry count allows. -/
structure Asks (query : Query I S σ) (b : PluginInterfaceBuilder S) (s : Session σ)
    (made : PluginInterfaceRef I S × Session σ) : Prop where
  service : made.1.service = b.service
  silent : b.service = none → made.1.interface = none ∧ made.2 = s
  queries : ∀ controller, b.service = some controller → ∃ failed : ℕ,
    Fails (ask query b controller) Option.isSome s failed ∧
    ask query b controller (after (ask query b controller) failed s) =
      (made.1.interface, made.2) ∧
    made.2.calls = s.calls ++ ((List.replicate failed (asked b (none : Option I))).flatten ++
      asked b made.1.interface) ∧
    (failed + 1 : ℤ) ≤ max 1 b.retry_count.toInt ∧
    (made.1.interface = none → (failed + 1 : ℤ) = max 1 b.retry_count.toInt)

theorem createInterface_spec (query : Query I S σ) (b : PluginInterfaceBuilder S)
    (s : Session σ) : Asks query b s (createInterface query b s) := by
  unfold createInterface
  cases hservice : b.service with
  | none => exact ⟨hservice.symm, fun _ ↦ ⟨rfl, rfl⟩, fun controller h ↦ by simp [hservice] at h⟩
  | some controller =>
    dsimp only
    rw [askLoop_eq_retry query b controller (retries b) s (Nat.zero_add _)]
    obtain ⟨n, hn, hfails, hresult, hlast⟩ :=
      exists_retry (ask query b controller) Option.isSome (retries b) s
    obtain ⟨entries, hlength, hall, hlog⟩ := hfails.log Session.calls
      (· = asked b (none : Option I)) <| by
        intro t ht
        have hnone : (ask query b controller t).1 = none := by simpa using ht
        exact ⟨_, rfl, by rw [ask_calls, hnone]⟩
    refine ⟨hservice.symm, fun h ↦ by simp [hservice] at h, fun controller' h ↦ ?_⟩
    obtain rfl : controller = controller' := Option.some.inj (hservice.symm.trans h)
    refine ⟨n, hfails, hresult.symm, ?_, ?_, ?_⟩
    · rw [hresult, ask_calls, hlog, List.eq_replicate_of_mem hall, hlength, List.append_assoc]
    · unfold retries at hn
      omega
    · intro hnone
      have hn := hlast (by simpa using hnone)
      unfold retries at hn
      omega

/-- The interface is the one that the loop over the answers alone gives, which is all that
the references to the power manager depend on. -/
theorem createInterface_refines (query : Query I S σ) (b : PluginInterfaceBuilder S)
    (s : Session σ) (hservice : b.service = some controller) :
    (createInterface query b s).1.interface = PluginInterface.createInterface b.service
      (fun n ↦ (ask query b controller (after (ask query b controller) n s)).1)
      b.retry_count.toInt := by
  obtain ⟨failed, hfails, hlast, -, hle, heq⟩ :=
    (createInterface_spec query b s).queries controller hservice
  apply Option.ext
  intro x
  rw [createInterface_eq_some]
  refine ⟨?_, ?_⟩
  · intro hx
    refine ⟨by simp [hservice], failed, by rw [hlast]; exact hx, ?_, by omega⟩
    intro m hm
    simpa using hfails m hm
  · intro h
    obtain ⟨-, n, hx, hnone, hn⟩ := h
    rcases Nat.lt_trichotomy n failed with hlt | rfl | hlt
    · have hfail := hfails n hlt
      rw [hx] at hfail
      cases hfail
    · rw [hlast] at hx
      exact hx
    · have hnot := hnone failed hlt
      rw [hlast] at hnot
      have hbound := heq hnot
      omega

section Setters

variable {B : Type} {callsign : String} {setters : List (Setter S)}

def Setter.version? : Setter S → Option UInt32
  | .withVersion version => some version
  | _ => none

def Setter.timeout? : Setter S → Option UInt32
  | .withTimeout timeoutMs => some timeoutMs
  | _ => none

def Setter.service? : Setter S → Option (Option S)
  | .withIShell service => some service
  | _ => none

def Setter.retryInterval? : Setter S → Option UInt32
  | .withRetryIntervalMS retryInterval => some retryInterval.toUInt32
  | _ => none

def Setter.retryCount? : Setter S → Option Int32
  | .withRetryCount retryCount => some retryCount
  | _ => none

def configured (callsign : String) (setters : List (Setter S)) : PluginInterfaceBuilder S where
  callsign := callsign
  service := (latest Setter.service? setters).getD none
  version := (latest Setter.version? setters).getD 0xFFFFFFFF
  timeout := (latest Setter.timeout? setters).getD 3000
  retry_count := (latest Setter.retryCount? setters).getD 0
  retry_interval := (latest Setter.retryInterval? setters).getD 0

theorem build_eq_configured (callsign : String) (setters : List (Setter S)) :
    build callsign setters = configured callsign setters := by
  induction setters using List.reverseRecOn with
  | nil => rfl
  | append_singleton setters a ih =>
    rw [build, List.foldl_append, ← build, ih]
    cases a <;> simp [configured, Setter.apply, Setter.service?, Setter.version?,
      Setter.timeout?, Setter.retryCount?, Setter.retryInterval?]

end Setters

end Peripherals.PluginInterface.Builder
