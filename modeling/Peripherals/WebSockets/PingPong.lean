import Peripherals.WebSockets.Connection

namespace Peripherals.WebSockets.WSEndpoint

open Execution

variable {κ : Type*}

def State.pings (s : State κ) : ℕ := s.timers + s.awaiting.length

/-- The events that set a timer where none expires and no ping is answered. -/
def BeginsChain (s : State κ) : Event κ → Prop
  | .opened _ => True
  | .pong c => c ∉ s.awaiting
  | _ => False

theorem pings_eq_zero {s : State κ} : s.pings = 0 ↔ s.timers = 0 ∧ s.awaiting = [] := by
  simp [State.pings]

variable [DecidableEq κ] {cancels : Bool} {opcode_ : Opcode} {s s' : State κ} {e : Event κ}
  {tr : List (Event κ)} {c : κ}

theorem closeConnection_pings : (closeConnection s).1.pings = s.pings := by
  unfold closeConnection
  split
  · split <;> rfl
  · rfl

theorem ping_pings (sent : Bool) (s : State κ) : (ping sent s).pings ≤ s.pings + 1 := by
  unfold ping
  split
  next c _ =>
    split
    · simp only [State.pings]
      by_cases hc : c ∈ s.awaiting
      · rw [List.length_insert_of_mem hc]
        omega
      · rw [List.length_insert_of_not_mem hc]
        omega
    · omega
  · omega

theorem erase_length (h : c ∈ s.awaiting) :
    (s.awaiting.erase c).length + 1 = s.awaiting.length := by
  have hpos := List.length_pos_of_mem h
  rw [List.length_erase_of_mem h]
  omega

/-- A chain goes on with every event, or it ends, but for those that begin one. -/
theorem step_pings (hs : step cancels opcode_ s e = some s') :
    (BeginsChain s e → s'.pings = s.pings + 1) ∧ (¬ BeginsChain s e → s'.pings ≤ s.pings) := by
  obtain ⟨u, hu, rfl⟩ := step_eq_some.mp hs
  cases e with
  | opened c =>
    obtain ⟨-, rfl⟩ := arrive_opened.mp hu
    refine ⟨?_, fun h ↦ (h trivial).elim⟩
    intro _
    simp only [handle, onOpen, startPing, schedule, State.enter, State.pings]
    omega
  | message c opcode payload =>
    obtain ⟨-, rfl⟩ := arrive_message.mp hu
    exact ⟨False.elim, fun _ ↦ Nat.le_refl _⟩
  | timer sent =>
    obtain ⟨hpos, rfl⟩ := arrive_timer.mp hu
    refine ⟨False.elim, ?_⟩
    intro _
    have hping := ping_pings sent { s with timers := s.timers - 1 }
    simp only [State.pings] at hping
    simp only [handle, State.pings]
    omega
  | pong c =>
    obtain ⟨-, rfl⟩ := arrive_pong.mp hu
    simp only [handle, onPong, schedule, State.pings, BeginsChain]
    refine ⟨?_, ?_⟩
    · intro hc
      rw [List.erase_of_not_mem hc]
      omega
    · intro hc
      have hlen := erase_length (not_not.mp hc)
      omega
  | pongTimeout c =>
    obtain ⟨hc, rfl⟩ := arrive_pongTimeout.mp hu
    refine ⟨False.elim, ?_⟩
    intro _
    have hlen := erase_length hc
    have hsame := closeConnection_pings (s := { s with awaiting := s.awaiting.erase c })
    simp only [State.pings] at hsame
    simp only [handle, onPongTimeout, State.pings]
    omega
  | closed c =>
    obtain ⟨-, rfl⟩ := arrive_closed.mp hu
    refine ⟨False.elim, ?_⟩
    intro _
    have hlen := List.length_erase_le (a := c) (l := s.awaiting)
    simp only [handle, onClose, State.enter, State.pings]
    split <;> omega
  | disconnect =>
    obtain rfl := arrive_disconnect.mp hu
    exact ⟨False.elim, fun _ ↦ Nat.le_of_eq closeConnection_pings⟩

def BeginsAlone (s : State κ) (e : Event κ) : Prop :=
  BeginsChain s e → s.timers = 0 ∧ s.awaiting = []

theorem run_pings (h : Run (step cancels opcode_) start tr s)
    (hall : Along (step cancels opcode_) start BeginsAlone tr) : s.pings ≤ 1 := by
  induction h with
  | nil => simp [State.pings, start]
  | @snoc tr s s' e h hs ih =>
    obtain ⟨hall, he⟩ := (along_snoc h).mp hall
    obtain ⟨hbegins, hgoes⟩ := step_pings hs
    by_cases hb : BeginsChain s e
    · have hzero := pings_eq_zero.mpr (he hb)
      have hone := hbegins hb
      omega
    · have hle := hgoes hb
      have hbound := ih hall
      omega

theorem one_chain_iff (h : Run (step cancels opcode_) start tr s) :
    (∀ pre post u, tr = pre ++ post → Run (step cancels opcode_) start pre u → u.pings ≤ 1) ↔
      Along (step cancels opcode_) start BeginsAlone tr := by
  refine ⟨?_, ?_⟩
  · intro hbound pre e post u htr hu hb
    subst htr
    obtain ⟨u', hs⟩ := h.step_at hu
    have hone := (step_pings hs).1 hb
    have hle := hbound (pre ++ [e]) post u' (by simp) (.snoc hu hs)
    exact pings_eq_zero.mp (by omega)
  · intro hall pre post u htr hu
    apply run_pings hu
    intro pre' e post' v hpre hv
    exact hall pre' e (post' ++ post) v (by simp [htr, hpre]) hv

/-- A connection opens when all others have closed. -/
def OneAtATime (s : State κ) (e : Event κ) : Prop :=
  ∀ c, e = .opened c → ∀ d, s.session d = none ∨ s.session d = some .closed

def chained : List (Event ℕ) :=
  [.opened 0, .timer true, .pong 0, .timer true, .pongTimeout 0, .closed 0, .opened 1]

theorem one_chain_iff_chained : ∃ s, Run (step false .text) start chained s ∧
    ((∀ pre post u, chained = pre ++ post → Run (step false .text) start pre u → u.pings ≤ 1) ↔
      Along (step false .text) start BeginsAlone chained) := by
  obtain ⟨s, h⟩ : ∃ s, Run (step false .text) start chained s := exists_run (by decide)
  exact ⟨s, h, one_chain_iff h⟩

def reopened : List (Event ℕ) := [.opened 0, .closed 0, .opened 1]

theorem reopened_oneAtATime :
    Along (step cancels opcode_) start OneAtATime reopened := by
  intro pre e post u htr hu c he d
  subst he
  rcases pre with - | ⟨a, - | ⟨b, - | ⟨b', pre⟩⟩⟩
  · obtain rfl := hu.eq_of_nil
    exact .inl rfl
  · simp [reopened] at htr
  · obtain ⟨rfl, rfl, -⟩ : a = Event.opened 0 ∧ b = Event.closed 0 ∧ _ := by
      simpa [reopened, eq_comm] using htr
    have hrun : Run (step cancels opcode_) start [.opened 0, .closed 0] _ :=
      .cons rfl (.one rfl)
    obtain rfl := hu.functional hrun
    by_cases hd : d = 0
    · simp [hd, handle, onClose, State.enter]
    · simp [hd, handle, onClose, onOpen, startPing, schedule, State.enter, start]
  · simp [reopened] at htr

theorem two_chains_after_reopening :
    ¬ ∀ (cancels : Bool) (opcode_ : Opcode) (tr : List (Event ℕ)) (s : State ℕ),
      Run (step cancels opcode_) start tr s →
      Along (step cancels opcode_) start OneAtATime tr → s.pings ≤ 1 := by
  intro h
  have hrun : Run (step false .text) start reopened _ := .cons rfl (.cons rfl (.one rfl))
  have hpings := h false .text reopened _ hrun reopened_oneAtATime
  exact absurd hpings (by decide)

end Peripherals.WebSockets.WSEndpoint
