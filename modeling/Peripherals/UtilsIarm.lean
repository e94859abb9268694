import Peripherals.Retry
import Mathlib.Algebra.Ring.Int.Defs

namespace Peripherals.UtilsIarm

open Retry

inductive Result
  | success | invalidParam | invalidState | ipccoreFail | oom
  deriving DecidableEq

inductive Call
  | busInit | busConnect | busIsConnected | usleep (usec : ℕ)
  deriving DecidableEq

/-- What the calls of the bus answer, and how they leave it. The last one may store
something in `isRegistered`. -/
structure Bus (β : Type*) where
  init : β → Result × β
  connect : β → Result × β
  isConnected : β → (Result × Option ℤ) × β

structure Session (β : Type*) where
  bus : β
  calls : List Call

variable {β : Type*}

def isConnected (bus : Bus β) (s : Session β) : Bool × Session β :=
  let ((_, stored), b) := bus.isConnected s.bus
  let isRegistered := stored.getD 0
  (isRegistered == 1, ⟨b, s.calls ++ [.busIsConnected]⟩)

def Result.isReady (res : Result) : Bool := res = .success ∨ res = .invalidState

/-- The body of the loop in `init`. -/
def tryInit (bus : Bus β) (s : Session β) : Bool × Session β :=
  let (res, b) := bus.init s.bus
  let s : Session β := ⟨b, s.calls ++ [.busInit]⟩
  let (result, s) :=
    if res.isReady then
      let (res, b) := bus.connect s.bus
      let s : Session β := ⟨b, s.calls ++ [.busConnect]⟩
      if res.isReady then isConnected bus s else (false, s)
    else (false, s)
  if result = false then (result, { s with calls := s.calls ++ [.usleep 100000] })
  else (result, s)

def initLoop (bus : Bus β) (retryCount : ℕ) (s : Session β) : Bool × Session β :=
  let (result, s) := tryInit bus s
  if result = false ∧ retryCount < 20 then initLoop bus (retryCount + 1) s else (result, s)
termination_by 20 - retryCount

def init (bus : Bus β) (s : Session β) : Bool × Session β :=
  let (connected, s) := isConnected bus s
  if connected then (true, s) else initLoop bus 0 s

variable {bus : Bus β} {s t : Session β} {result : Bool}

theorem initLoop_eq_retry (bus : Bus β) (retries : ℕ) {retryCount : ℕ} (s : Session β)
    (h : retryCount + retries = 20) :
    initLoop bus retryCount s = retry (tryInit bus) id retries s := by
  induction retries generalizing retryCount s with
  | zero =>
    rw [initLoop, retry]
    rcases tryInit bus s with ⟨result, t⟩
    simp [show ¬ retryCount < 20 by omega]
  | succ retries ih =>
    have hlt : retryCount < 20 := by omega
    rw [initLoop, retry]
    rcases tryInit bus s with ⟨result, t⟩
    cases result with
    | true => simp
    | false => simpa [hlt] using ih t (by omega)

inductive Try : Bool → List Call → Prop
  | notReady : Try false [.busInit, .usleep 100000]
  | notConnected : Try false [.busInit, .busConnect, .usleep 100000]
  | notRegistered : Try false [.busInit, .busConnect, .busIsConnected, .usleep 100000]
  | registered : Try true [.busInit, .busConnect, .busIsConnected]

/-- An attempt makes the calls of one, and if it succeeds then on its last probe. -/
theorem tryInit_spec (bus : Bus β) (s : Session β) :
    (∃ made, Try (tryInit bus s).1 made ∧ (tryInit bus s).2.calls = s.calls ++ made) ∧
      ((tryInit bus s).1 = true → ∃ u, isConnected bus u = tryInit bus s) := by
  rcases hinit : bus.init s.bus with ⟨res, b⟩
  cases hready : res.isReady with
  | false =>
    have hresult : tryInit bus s = (false, ⟨b, s.calls ++ [.busInit, .usleep 100000]⟩) := by
      simp [tryInit, hinit, hready]
    rw [hresult]
    exact ⟨⟨_, .notReady, rfl⟩, fun h ↦ Bool.noConfusion h⟩
  | true =>
    rcases hconnect : bus.connect b with ⟨res', b'⟩
    cases hready' : res'.isReady with
    | false =>
      have hresult : tryInit bus s =
          (false, ⟨b', s.calls ++ [.busInit, .busConnect, .usleep 100000]⟩) := by
        simp [tryInit, hinit, hready, hconnect, hready']
      rw [hresult]
      exact ⟨⟨_, .notConnected, rfl⟩, fun h ↦ Bool.noConfusion h⟩
    | true =>
      let u : Session β := ⟨b', s.calls ++ [.busInit, .busConnect]⟩
      rcases hprobe : isConnected bus u with ⟨result, t⟩
      have hcalls : t.calls = s.calls ++ [.busInit, .busConnect, .busIsConnected] := by
        rw [← show (isConnected bus u).2 = t from congrArg Prod.snd hprobe]
        simp [isConnected, u]
      cases result with
      | false =>
        have hresult : tryInit bus s =
            (false, { t with calls := t.calls ++ [.usleep 100000] }) := by
          simp [tryInit, hinit, hready, hconnect, hready', show isConnected bus
            ⟨b', s.calls ++ [.busInit, .busConnect]⟩ = (false, t) from hprobe]
        rw [hresult]
        exact ⟨⟨_, .notRegistered, by simp [hcalls]⟩, fun h ↦ Bool.noConfusion h⟩
      | true =>
        have hresult : tryInit bus s = (true, t) := by
          simp [tryInit, hinit, hready, hconnect, hready', show isConnected bus
            ⟨b', s.calls ++ [.busInit, .busConnect]⟩ = (true, t) from hprobe]
        rw [hresult]
        exact ⟨⟨_, .registered, hcalls⟩, fun _ ↦ ⟨u, hprobe⟩⟩

/-- How a call of `init` from `s` ends: after the first probe if that finds the process
connected, else after whole attempts, of which only the last may succeed. -/
structure Verdict (bus : Bus β) (s : Session β) (result : Bool) (t : Session β) : Prop where
  idle : (isConnected bus s).1 = true → (result, t) = isConnected bus s
  calls : (isConnected bus s).1 = false → ∃ failed last, (∀ made ∈ failed, Try false made) ∧
    Try result last ∧ t.calls = (s.calls ++ [.busIsConnected]) ++ (failed ++ [last]).flatten ∧
    failed.length ≤ 20 ∧ (result = false → failed.length = 20)
  connected : result = true → ∃ u, isConnected bus u = (true, t)

/-- However the bus answers, `init` gives up after 21 attempts, and it returns true only
on a probe that has found the process connected. -/
theorem init_verdict (bus : Bus β) (s : Session β) :
    Verdict bus s (init bus s).1 (init bus s).2 := by
  rcases hprobe : isConnected bus s with ⟨connected, u⟩
  have hcalls : u.calls = s.calls ++ [.busIsConnected] := by
    rw [← show (isConnected bus s).2 = u from congrArg Prod.snd hprobe]
    rfl
  cases connected with
  | true =>
    have hinit : init bus s = (true, u) := by simp [init, hprobe]
    rw [hinit]
    exact ⟨fun _ ↦ hprobe.symm, fun h ↦ by simp [hprobe] at h, fun _ ↦ ⟨s, hprobe⟩⟩
  | false =>
    have hinit : init bus s = retry (tryInit bus) id 20 u := by
      simp only [init, hprobe, Bool.false_eq_true, if_false]
      exact initLoop_eq_retry bus 20 u rfl
    obtain ⟨n, hn, hfails, hresult, hlast⟩ := exists_retry (tryInit bus) id 20 u
    obtain ⟨failed, hlength, hall, hlog⟩ := hfails.log Session.calls (Try false) <| by
      intro v hv
      obtain ⟨⟨made, hmade, hcalls⟩, -⟩ := tryInit_spec bus v
      exact ⟨made, by rwa [show (tryInit bus v).1 = false from hv] at hmade, hcalls⟩
    obtain ⟨⟨last, hmade, hlastCalls⟩, htrue⟩ := tryInit_spec bus (after (tryInit bus) n u)
    rw [← hresult, ← hinit] at hmade hlastCalls htrue
    rw [← hinit] at hlast
    refine ⟨fun h ↦ by simp [hprobe] at h, fun _ ↦ ⟨failed, last, hall, hmade, ?_, ?_, ?_⟩, ?_⟩
    · rw [hlastCalls, hlog, hcalls, List.flatten_append, List.flatten_singleton,
        List.append_assoc, List.append_assoc]
    · omega
    · exact fun h ↦ hlength.trans (hlast h)
    · intro h
      obtain ⟨v, hv⟩ := htrue h
      exact ⟨v, hv.trans (Prod.ext h rfl)⟩

end Peripherals.UtilsIarm
