import Peripherals.Execution
import Peripherals.Settings.CSettings
import Peripherals.Thunder

namespace Peripherals.SecurityToken

open Execution Thunder
open Settings (Text cStr)

/-- What the configuration query comes back with: whether `curl` is set up, the code of
the transfer (0 is `CURLE_OK`), that of the response and its body. -/
structure Query where
  ready : Bool
  res : ℕ
  http_code : Int
  responseJson : JsonObject

/-- What the security agent returns, and leaves in the buffer. -/
structure Agent where
  ret : Int
  buffer : Text

def isThunderSecurityConfigured (query : Query) : Bool :=
  let res := if query.ready then query.res else 0
  let http_code := if query.ready then query.http_code else 0
  if res = 0 ∧ http_code = 200 then
    query.responseJson.hasLabel "subsystems" &&
      (query.responseJson.get "subsystems").array.any (·.string == "Security")
  else false

/-- The static variables of `getSecurityToken`, and a record of the tokens that the agent
has issued. -/
structure State where
  sToken : Text
  sThunderSecurityChecked : Bool
  issued : List Text

def State.init : State := ⟨[], false, []⟩

/-- A call as it finds its surroundings, with what `token` holds before. -/
structure Call where
  query : Query
  agent : Agent
  token : Text

/-- What `token` holds after the call, in the build with the security token enabled. -/
def getSecurityToken (s : State) (c : Call) : Text × State :=
  if s.sThunderSecurityChecked then (s.sToken, s)
  else
    let s := { s with sThunderSecurityChecked := true }
    if isThunderSecurityConfigured c.query then
      if c.agent.ret < 0 then (c.token, s)
      else
        let token := cStr c.agent.buffer
        (token, { s with sToken := token, issued := s.issued ++ [token] })
    else (s.sToken, s)

def step (s : State) (c : Call) : Option State := some (getSecurityToken s c).2

structure Call.Ready (c : Call) : Prop where
  configured : isThunderSecurityConfigured c.query = true
  issues : 0 ≤ c.agent.ret

def Served (s : State) (c : Call) : Prop :=
  c.Ready → (getSecurityToken s c).1 ∈ (getSecurityToken s c).2.issued

variable {s : State} {c : Call} {tr : List Call}

theorem first_ready (h : c.Ready) : getSecurityToken .init c =
    (cStr c.agent.buffer, ⟨cStr c.agent.buffer, true, [cStr c.agent.buffer]⟩) := by
  simp [getSecurityToken, State.init, h.configured, h.issues]

theorem first_not_ready (h : ¬ c.Ready) : (getSecurityToken .init c).2 = ⟨[], true, []⟩ := by
  by_cases hconfigured : isThunderSecurityConfigured c.query = true
  · have hret : c.agent.ret < 0 := by
      by_contra hret
      exact h ⟨hconfigured, Int.not_lt.mp hret⟩
    simp [getSecurityToken, State.init, hconfigured, hret]
  · simp [getSecurityToken, State.init, hconfigured]

theorem checked (h : s.sThunderSecurityChecked = true) (c : Call) :
    getSecurityToken s c = (s.sToken, s) := if_pos h

/-- What the first call leaves behind stays. -/
theorem run_stays (h : Run step (getSecurityToken .init c).2 tr s) :
    s = (getSecurityToken .init c).2 := by
  have hchecked : (getSecurityToken .init c).2.sThunderSecurityChecked = true := by
    by_cases hready : c.Ready
    · rw [first_ready hready]
    · rw [first_not_ready hready]
  refine h.invariant (I := fun u ↦ u = (getSecurityToken .init c).2) rfl ?_
  intro u b u' hu hs
  subst hu
  rw [step, checked hchecked] at hs
  exact (Option.some.inj hs).symm

theorem exists_run (s : State) (tr : List Call) : ∃ t, Run step s tr t := by
  induction tr generalizing s with
  | nil => exact ⟨s, .nil⟩
  | cons c tr ih =>
    obtain ⟨t, ht⟩ := ih (getSecurityToken s c).2
    exact ⟨t, .cons rfl ht⟩

/-- Whether a call is served is decided by the first call of the run. -/
theorem served_iff (h : Run step .init tr s) (c : Call) :
    Served s c ↔ (c.Ready → ∀ first ∈ tr.head?, first.Ready) := by
  cases tr with
  | nil =>
    obtain rfl := h.eq_of_nil
    refine iff_of_true ?_ (by simp)
    intro hready
    rw [first_ready hready]
    exact List.mem_singleton_self _
  | cons first tr =>
    obtain ⟨u, hu, htail⟩ := run_cons.mp h
    obtain rfl := Option.some.inj hu
    have hstays := run_stays htail
    by_cases hfirst : first.Ready
    · refine iff_of_true ?_ (by simpa using fun _ ↦ hfirst)
      intro _
      rw [hstays, first_ready hfirst, checked rfl]
      exact List.mem_singleton_self _
    · have hnone : getSecurityToken s c = ([], ⟨[], true, []⟩) := by
        rw [hstays, first_not_ready hfirst, checked rfl]
      simp [Served, hnone, hfirst]

/-- Every ready call of a run is served if and only if the first call is ready, or none
is. -/
theorem served_iff_first_ready (tr : List Call) :
    Along step .init Served tr ↔
      (∃ first, tr.head? = some first ∧ first.Ready) ∨ ∀ c ∈ tr, ¬ c.Ready := by
  obtain ⟨t, ht⟩ := exists_run .init tr
  rw [along_iff (Q := fun pre c ↦ c.Ready → ∀ first ∈ pre.head?, first.Ready) ht
    fun hpre _ ↦ served_iff hpre _]
  refine ⟨?_, ?_⟩
  · intro h
    by_cases hnone : ∀ c ∈ tr, ¬ c.Ready
    · exact .inr hnone
    · obtain ⟨c, hmem, hready⟩ : ∃ c ∈ tr, c.Ready := by simpa using hnone
      obtain ⟨pre, post, rfl⟩ := List.append_of_mem hmem
      left
      cases pre with
      | nil => exact ⟨c, rfl, hready⟩
      | cons first pre => exact ⟨first, rfl, h (first :: pre) c post rfl hready first rfl⟩
  · intro h pre c post htr hready first hfirst
    rcases h with ⟨first', hhead, hfirst'⟩ | hnone
    · have hsame : tr.head? = some first := by
        rw [htr, List.head?_append, hfirst, Option.some_or]
      exact Option.some.inj (hhead.symm.trans hsame) ▸ hfirst'
    · exact (hnone c (htr ▸ by simp) hready).elim

def configuration : Query where
  ready := true
  res := 0
  http_code := 200
  responseJson := [("subsystems", .ofArray [.ofString "Platform", .ofString "Security"])]

/-- The agent fails once, and is not asked again. -/
theorem late_agent_ignored : ¬ ∀ tr : List Call, Along step .init Served tr := by
  intro h
  let late : Call := ⟨configuration, ⟨-1, []⟩, []⟩
  let ready : Call := ⟨configuration, ⟨5, ['t', 'o', 'k', 'e', 'n']⟩, []⟩
  have hserved := h [late, ready] [late] ready [] _ rfl (.one rfl)
  exact absurd (hserved ⟨rfl, by decide⟩) (by decide)

end Peripherals.SecurityToken
