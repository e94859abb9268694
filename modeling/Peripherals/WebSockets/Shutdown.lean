import Mathlib.Data.Finset.Card
import Peripherals.WebSockets.PingPong

namespace Peripherals.WebSockets.WSEndpoint

open Execution

/-- What an event loop waits for whose perpetual work has been stopped: an acceptor
that listens, as that of a server does from `start` to `stop`, its timers, and the
connections that are not closed. -/
structure Quiet {κ : Type*} (listening : Bool) (s : State κ) : Prop where
  acceptor : listening = false
  timers : s.timers = 0
  awaiting : s.awaiting = []
  opened : ∀ c, s.session c ≠ some .opened
  closing : ∀ c, s.session c ≠ some .closing

/-- The events that come without a peer: a timer runs out, or websocketpp gives
up waiting for the answer to a close. -/
def Own {κ : Type*} (s : State κ) : Event κ → Prop
  | .timer _ => True
  | .pongTimeout _ => True
  | .closed c => s.session c = some .closing
  | _ => False

def Event.begun {κ : Type*} : Event κ → Option κ
  | .opened c => some c
  | _ => none

def Event.ended {κ : Type*} : Event κ → Option κ
  | .closed c => some c
  | _ => none

variable {κ : Type*} [DecidableEq κ] {cancels listening : Bool} {opcode_ : Opcode}
  {s s' t u : State κ} {e : Event κ} {tr tr' : List (Event κ)} {c d : κ}

omit [DecidableEq κ] in
theorem ended_eq_some : e.ended = some d ↔ e = .closed d := by
  cases e with
  | closed c => simp [Event.ended]
  | _ => simp [Event.ended]

/-- The destructor, up to the point where it joins the thread of the event loop. -/
def destroy (s : State κ) : State κ := (closeConnection s).1

def Settled (s : State κ) : Prop :=
  ∀ c, s.connectionHandler_ = some c → s.session c ≠ some .opened

theorem Settled.closeConnection (h : Settled s) : closeConnection s = (s, []) := by
  unfold WSEndpoint.closeConnection
  split
  next c hc => rw [if_neg (h c hc)]
  next => rfl

theorem Settled.ping (h : Settled s) (sent : Bool) : ping sent s = s := by
  unfold WSEndpoint.ping
  split
  next c hc => rw [if_neg (fun hopen ↦ h c hc hopen.1)]
  next => rfl

theorem destroy_handler : (destroy s).connectionHandler_ = s.connectionHandler_ :=
  closeConnection_handler

theorem destroy_settled : Settled (destroy s) := fun _ hc ↦
  closeConnection_session (destroy_handler.symm.trans hc)

theorem destroy_opened : (destroy s).session d = some .opened ↔
    s.session d = some .opened ∧ s.connectionHandler_ ≠ some d := by
  refine ⟨?_, ?_⟩
  · intro hd
    refine ⟨?_, fun hstored ↦ closeConnection_session hstored hd⟩
    unfold destroy closeConnection at hd
    split at hd
    · split at hd
      · rw [enter_session] at hd
        split at hd
        · simp at hd
        · exact hd
      · exact hd
    · exact hd
  · intro h
    obtain ⟨hd, hother⟩ := h
    unfold destroy closeConnection
    split
    next c hc =>
      split
      · have hne : d ≠ c := by
          intro hdc
          exact hother (hdc ▸ hc)
        rw [enter_session, if_neg hne, hd]
      · exact hd
    next => exact hd

theorem destroy_known (h : (destroy s).session c ≠ none) : s.session c ≠ none := by
  unfold destroy closeConnection at h
  split at h
  next d _ =>
    split at h
    next hopen =>
      rw [enter_session] at h
      split at h
      next hc => simp [hc, hopen]
      next => exact h
    next => exact h
  next => exact h

theorem arrive_session (hu : arrive cancels s e = some u) (hd : e.begun ≠ some d) :
    u.session d = if e.ended = some d then some .closed else s.session d := by
  cases e with
  | opened c =>
    obtain ⟨-, rfl⟩ := arrive_opened.mp hu
    have hne : d ≠ c := fun hdc ↦ hd (congrArg some hdc.symm)
    simp [Event.ended, enter_session, hne]
  | message c opcode payload =>
    obtain ⟨-, rfl⟩ := arrive_message.mp hu
    simp [Event.ended]
  | timer sent =>
    obtain ⟨-, rfl⟩ := arrive_timer.mp hu
    simp [Event.ended]
  | pong c =>
    obtain ⟨-, rfl⟩ := arrive_pong.mp hu
    simp [Event.ended]
  | pongTimeout c =>
    obtain ⟨-, rfl⟩ := arrive_pongTimeout.mp hu
    simp [Event.ended]
  | closed c =>
    obtain ⟨-, rfl⟩ := arrive_closed.mp hu
    simp [Event.ended, State.enter, Function.update_apply, eq_comm]
  | disconnect =>
    obtain rfl := arrive_disconnect.mp hu
    simp [Event.ended]

theorem handle_settled (opcode_ : Opcode) (h : Settled s) (hbegun : e.begun = none) :
    (handle opcode_ s e).1.session = s.session := by
  cases e with
  | opened c => simp [Event.begun] at hbegun
  | message c opcode payload => rfl
  | timer sent => rw [handle, h.ping]
  | pong c => rfl
  | pongTimeout c => rw [handle, onPongTimeout, h.closeConnection]
  | closed c => rfl
  | disconnect => rw [handle, h.closeConnection]

omit [DecidableEq κ] in
theorem stored_eq_none (hbegun : e.begun = none) : e.stored = none := by
  cases e with
  | opened c => simp [Event.begun] at hbegun
  | _ => rfl

/-- While the stored connection is not open, connections end by their own close only. -/
theorem step_settled (h : Settled s) (hbegun : e.begun = none)
    (hs : step cancels opcode_ s e = some s') :
    s'.connectionHandler_ = s.connectionHandler_ ∧ Settled s' ∧
      ∀ d, s'.session d = if e.ended = some d then some .closed else s.session d := by
  obtain ⟨u, hu, rfl⟩ := step_eq_some.mp hs
  have hhandler : (handle opcode_ u e).1.connectionHandler_ = s.connectionHandler_ := by
    rw [handle_handler, arrive_handler hu, stored_eq_none hbegun]
    rfl
  have hsession : ∀ d, u.session d = if e.ended = some d then some .closed else s.session d :=
    fun d ↦ arrive_session hu (by simp [hbegun])
  have hsettled : Settled u := by
    intro c hc hopened
    rw [arrive_handler hu] at hc
    rw [hsession c] at hopened
    split at hopened
    · simp at hopened
    · exact h c hc hopened
  have hsame := handle_settled opcode_ hsettled hbegun
  refine ⟨hhandler, ?_, fun d ↦ by rw [hsame, hsession d]⟩
  intro c hc
  rw [hhandler, ← arrive_handler hu] at hc
  rw [hsame]
  exact hsettled c hc

theorem run_settled (hr : Run (step cancels opcode_) s tr t) (h : Settled s)
    (hbegun : ∀ e ∈ tr, e.begun = none) :
    Settled t ∧ ∀ d, t.session d = some .opened ↔ s.session d = some .opened ∧ .closed d ∉ tr := by
  induction hr with
  | nil => exact ⟨h, fun d ↦ by simp⟩
  | @snoc tr u u' e _ hs ih =>
    simp only [List.forall_mem_append, List.forall_mem_singleton] at hbegun
    obtain ⟨hsettled, hopened⟩ := ih hbegun.1
    obtain ⟨-, hsettled', hsession⟩ := step_settled hsettled hbegun.2 hs
    refine ⟨hsettled', ?_⟩
    intro d
    rw [hsession d]
    by_cases he : e = .closed d
    · simp [he, Event.ended]
    · rw [if_neg (fun h ↦ he (ended_eq_some.mp h)), hopened d]
      simp [Ne.symm he]

theorem step_known (hs : step cancels opcode_ s e = some s') (hd : s'.session d ≠ none) :
    s.session d ≠ none ∨ e.begun = some d := by
  obtain ⟨u, hu, rfl⟩ := step_eq_some.mp hs
  have hknown : u.session d ≠ none := by
    cases e with
    | timer sent => rwa [handle, ping_session] at hd
    | pongTimeout c => exact destroy_known hd
    | disconnect => exact destroy_known hd
    | _ => exact hd
  by_cases hbegun : e.begun = some d
  · exact .inr hbegun
  · refine .inl ?_
    rw [arrive_session hu hbegun] at hknown
    split at hknown
    next hended =>
      obtain rfl := ended_eq_some.mp hended
      obtain ⟨hsession, -⟩ := arrive_closed.mp hu
      rcases hsession with hopened | hclosing
      · simp [hopened]
      · simp [hclosing]
    next => exact hknown

theorem run_known (hr : Run (step cancels opcode_) start tr s) (hc : s.session c ≠ none) :
    c ∈ tr.filterMap Event.begun := by
  induction hr with
  | nil => simp [start] at hc
  | @snoc tr u u' e _ hs ih =>
    rw [List.filterMap_append, List.mem_append]
    rcases step_known hs hc with hknown | hbegun
    · exact .inl (ih hknown)
    · exact .inr (by simp [hbegun])

def closing (s : State κ) (cs : Finset κ) : Finset κ :=
  cs.filter fun c ↦ s.session c = some .closing

omit [DecidableEq κ] in
theorem own_begun (hown : Own s e) : e.begun = none := by
  cases e with
  | opened c => exact hown.elim
  | _ => rfl

theorem own_opened (h : Settled s) (hown : Own s e) (hs : step cancels opcode_ s e = some s') :
    s'.session d = some .opened ↔ s.session d = some .opened := by
  obtain ⟨-, -, hsession⟩ := step_settled h (own_begun hown) hs
  rw [hsession d]
  by_cases he : e = .closed d
  · subst he
    have hclosing : s.session d = some .closing := hown
    simp [Event.ended, hclosing]
  · rw [if_neg (fun h ↦ he (ended_eq_some.mp h))]

/-- An own event takes a timer, a pong timeout or a close away, and adds none. -/
theorem own_step {cs : Finset κ} (h : Settled s) (hknown : ∀ c, s.session c ≠ none → c ∈ cs)
    (hown : Own s e) (hs : step cancels opcode_ s e = some s') :
    s'.pings + (closing s' cs).card + 1 ≤ s.pings + (closing s cs).card := by
  obtain ⟨-, -, hsession⟩ := step_settled h (own_begun hown) hs
  obtain ⟨u, hu, rfl⟩ := step_eq_some.mp hs
  cases e with
  | timer sent =>
    have hsame : closing (handle opcode_ u (.timer sent)).1 cs = closing s cs := by
      simp [closing, hsession, Event.ended]
    obtain ⟨hpos, rfl⟩ := arrive_timer.mp hu
    have hstill : Settled { s with timers := s.timers - 1 } := h
    rw [hsame, handle, hstill.ping]
    simp only [State.pings]
    omega
  | pongTimeout c =>
    have hsame : closing (handle opcode_ u (.pongTimeout c)).1 cs = closing s cs := by
      simp [closing, hsession, Event.ended]
    obtain ⟨hc, rfl⟩ := arrive_pongTimeout.mp hu
    have hstill : Settled { s with awaiting := s.awaiting.erase c } := h
    have hlen := erase_length hc
    rw [hsame, handle, onPongTimeout, hstill.closeConnection]
    simp only [State.pings]
    omega
  | closed c =>
    have hclosing : s.session c = some .closing := hown
    have hmem : c ∈ closing s cs := by
      simp [closing, hclosing, hknown c (by simp [hclosing])]
    have hless : closing (handle opcode_ u (.closed c)).1 cs = (closing s cs).erase c := by
      ext d
      by_cases hdc : c = d
      · subst hdc
        simp [closing, hsession, Event.ended]
      · simp [closing, hsession, Event.ended, hdc, Ne.symm hdc]
    have hcard := Finset.card_erase_add_one hmem
    have hpings := (step_pings hs).2 id
    rw [hless]
    omega
  | _ => exact hown.elim

theorem own_run {cs : Finset κ} (hr : Run (step cancels opcode_) s tr t) (h : Settled s)
    (hknown : ∀ c, s.session c ≠ none → c ∈ cs) (hown : Along (step cancels opcode_) s Own tr) :
    (Settled t ∧ ∀ c, t.session c ≠ none → c ∈ cs) ∧
      (∀ d, t.session d = some .opened ↔ s.session d = some .opened) ∧
      t.pings + (closing t cs).card + tr.length ≤ s.pings + (closing s cs).card := by
  induction hr with
  | nil => exact ⟨⟨h, hknown⟩, fun _ ↦ Iff.rfl, Nat.le_refl _⟩
  | @snoc tr u u' e hr hs ih =>
    obtain ⟨hown, he⟩ := (along_snoc hr).mp hown
    obtain ⟨⟨hsettled, hknown⟩, hopened, hle⟩ := ih hown
    obtain ⟨-, hsettled', -⟩ := step_settled hsettled (own_begun he) hs
    refine ⟨⟨hsettled', ?_⟩, fun d ↦ (own_opened hsettled he hs).trans (hopened d), ?_⟩
    · intro c hc
      rcases step_known hs hc with hold | hbegun
      · exact hknown c hold
      · simp [own_begun he] at hbegun
    · have hless := own_step hsettled hknown he hs
      rw [List.length_append, List.length_singleton]
      omega

/-- Where no own event is left, only the acceptor and open connections keep the loop
from its end. -/
theorem quiet_iff (hend : ∀ e, Own s e → step cancels opcode_ s e = none) :
    Quiet listening s ↔ listening = false ∧ ∀ c, s.session c ≠ some .opened := by
  refine ⟨fun h ↦ ⟨h.acceptor, h.opened⟩, ?_⟩
  intro hopen
  obtain ⟨hacceptor, hopened⟩ := hopen
  refine ⟨hacceptor, ?_, ?_, hopened, ?_⟩
  · by_contra htimers
    have hnone := hend (.timer true) trivial
    simp [step, arrive, Nat.pos_of_ne_zero htimers] at hnone
  · rw [List.eq_nil_iff_forall_not_mem]
    intro c hc
    have hnone := hend (.pongTimeout c) trivial
    simp [step, arrive, hc] at hnone
  · intro c hclosing
    have hnone := hend (.closed c) hclosing
    simp [step, arrive, hclosing] at hnone

theorem run_destroy (h : Run (step cancels opcode_) start tr s)
    (hr : Run (step cancels opcode_) (destroy s) tr' t) (hbegun : ∀ e ∈ tr', e.begun = none) :
    (Settled t ∧ ∀ c, t.session c ≠ none → c ∈ (tr.filterMap Event.begun).toFinset) ∧
      ∀ d, t.session d = some .opened ↔
        (s.session d = some .opened ∧ s.connectionHandler_ ≠ some d) ∧ .closed d ∉ tr' := by
  obtain ⟨hsettled, hopened⟩ := run_settled hr destroy_settled hbegun
  refine ⟨⟨hsettled, ?_⟩, fun d ↦ by rw [hopened d, destroy_opened]⟩
  intro c hc
  have hwhole : Run (step cancels opcode_) start (tr ++ .disconnect :: tr') t :=
    h.trans (.cons rfl hr)
  have hmem := run_known hwhole hc
  have hnone : tr'.filterMap Event.begun = [] := List.filterMap_eq_nil_iff.mpr hbegun
  rw [List.filterMap_append, List.filterMap_cons_none rfl, hnone, List.append_nil] at hmem
  exact List.mem_toFinset.mpr hmem

/-- What the destructor waits for comes to an end by itself if and only if no acceptor
listens and each connection but the stored one was closed by then. -/
theorem destroy_joins {own : List (Event κ)} (h : Run (step cancels opcode_) start tr s)
    (hr : Run (step cancels opcode_) (destroy s) tr' t) (hbegun : ∀ e ∈ tr', e.begun = none)
    (hown : Run (step cancels opcode_) t own u) (hall : Along (step cancels opcode_) t Own own) :
    own.length ≤ t.pings + (tr.filterMap Event.begun).length ∧
      ((∀ e, Own u e → step cancels opcode_ u e = none) →
        (Quiet listening u ↔ listening = false ∧ ∀ c, s.session c = some .opened →
          s.connectionHandler_ = some c ∨ .closed c ∈ tr')) := by
  obtain ⟨⟨hsettled, hknown⟩, hopened⟩ := run_destroy h hr hbegun
  obtain ⟨-, hsame, hle⟩ := own_run hown hsettled hknown hall
  refine ⟨?_, ?_⟩
  · have hcard := Finset.card_filter_le (tr.filterMap Event.begun).toFinset
      fun c ↦ t.session c = some .closing
    have hlen := List.toFinset_card_le (tr.filterMap Event.begun)
    simp only [closing] at hle
    omega
  · intro hend
    rw [quiet_iff hend]
    refine and_congr_right fun _ ↦ forall_congr' fun c ↦ ?_
    rw [ne_eq, hsame c, hopened c]
    tauto

def replaced : List (Event ℕ) := [.opened 0, .opened 1]

def bothOpen : State ℕ := (onOpen 1 ((onOpen 0 (start.enter 0 .opened)).1.enter 1 .opened)).1

def firstGone : State ℕ := (onClose ((destroy bothOpen).enter 0 .closed)).1

def remaining : List (Event ℕ) := [.timer true, .closed 1, .timer true]

theorem destroy_joins_replaced : ∃ u : State ℕ, Run (step false .text) firstGone remaining u ∧
    remaining.length ≤ firstGone.pings + (replaced.filterMap Event.begun).length ∧
      ((∀ e, Own u e → step false .text u e = none) →
        (Quiet false u ↔ ∀ c, bothOpen.session c = some .opened →
          bothOpen.connectionHandler_ = some c ∨ .closed c ∈ [Event.closed 0])) := by
  have h : Run (step false .text) start replaced bothOpen := .cons rfl (.one rfl)
  have hr : Run (step false .text) (destroy bothOpen) [.closed 0] firstGone := .one rfl
  have hfirst : Run (step false .text) firstGone [.timer true] _ := .one rfl
  have hsecond : Run (step false .text) firstGone [.timer true, .closed 1] _ := .snoc hfirst rfl
  have hown : Run (step false .text) firstGone remaining _ := .snoc hsecond rfl
  have hall : Along (step false .text) firstGone Own remaining :=
    (along_snoc hsecond).mpr ⟨(along_snoc hfirst).mpr ⟨(along_snoc .nil).mpr
      ⟨along_nil, trivial⟩, rfl⟩, trivial⟩
  obtain ⟨hbound, hjoins⟩ := destroy_joins h hr (by simp [Event.begun]) hown hall
  exact ⟨_, hown, hbound, fun hend ↦ (hjoins hend).trans (and_iff_right rfl)⟩

end Peripherals.WebSockets.WSEndpoint
