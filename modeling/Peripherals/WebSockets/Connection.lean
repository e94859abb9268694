import Mathlib.Logic.Function.Basic
import Peripherals.Execution
import Peripherals.WebSockets.Endpoint

namespace Peripherals.WebSockets.WSEndpoint

open Execution

/-- `websocketpp::session::state` of a connection that has been opened. -/
inductive SessionState
  | opened
  | closing
  | closed
  deriving DecidableEq

/-- An endpoint with the connections that websocketpp keeps for it: their
states, the timers set for `ping`, and the connections whose ping has had
neither a pong nor a timeout. -/
structure State (κ : Type*) where
  connectionHandler_ : Option κ
  session : κ → Option SessionState
  timers : ℕ
  awaiting : List κ

inductive Event (κ : Type*)
  | opened (c : κ)
  | message (c : κ) (opcode : Opcode) (payload : String)
  | timer (sent : Bool)
  | pong (c : κ)
  | pongTimeout (c : κ)
  | closed (c : κ)
  | disconnect

inductive Effect (κ : Type*)
  | onMessage (payload : String)
  | connectionInitializationCallback (success : Bool)
  | connectionClosedCallback
  | close (c : κ)
  deriving DecidableEq

variable {κ : Type*}

def start : State κ where
  connectionHandler_ := none
  session _ := none
  timers := 0
  awaiting := []

def schedule (s : State κ) : State κ := { s with timers := s.timers + 1 }

variable [DecidableEq κ]

def State.enter (s : State κ) (c : κ) (state : SessionState) : State κ :=
  { s with session := Function.update s.session c (some state) }

/-- What websocketpp does before it calls a handler; `cancels` tells whether a
connection that closes takes its pong timeout with it. -/
def arrive (cancels : Bool) (s : State κ) : Event κ → Option (State κ)
  | .opened c => if s.session c = none then some (s.enter c .opened) else none
  | .message c _ _ => if s.session c = some .opened then some s else none
  | .timer _ => if 0 < s.timers then some { s with timers := s.timers - 1 } else none
  | .pong c =>
    if s.session c = some .opened ∨ s.session c = some .closing then
      some { s with awaiting := s.awaiting.erase c }
    else none
  | .pongTimeout c =>
    if c ∈ s.awaiting then some { s with awaiting := s.awaiting.erase c } else none
  | .closed c =>
    if s.session c = some .opened ∨ s.session c = some .closing then
      some { s.enter c .closed with
        awaiting := if cancels then s.awaiting.erase c else s.awaiting }
    else none
  | .disconnect => some s

def closeConnection (s : State κ) : State κ × List (Effect κ) :=
  match s.connectionHandler_ with
  | some c => if s.session c = some .opened then (s.enter c .closing, [.close c]) else (s, [])
  | none => (s, [])

def startPing (s : State κ) : State κ := schedule s

/-- `sent` tells whether websocketpp sends the ping. -/
def ping (sent : Bool) (s : State κ) : State κ :=
  match s.connectionHandler_ with
  | some c =>
    if s.session c = some .opened ∧ sent = true then
      { s with awaiting := s.awaiting.insert c }
    else s
  | none => s

def onOpen (handler : κ) (s : State κ) : State κ × List (Effect κ) :=
  (startPing { s with connectionHandler_ := some handler },
    [.connectionInitializationCallback true])

def onClose (s : State κ) : State κ × List (Effect κ) := (s, [.connectionClosedCallback])

def onPong (s : State κ) : State κ × List (Effect κ) := (schedule s, [])

def onPongTimeout (s : State κ) : State κ × List (Effect κ) := closeConnection s

/-- The handler of an event. All but that of an open leave its connection unused. -/
def handle (opcode_ : Opcode) (s : State κ) : Event κ → State κ × List (Effect κ)
  | .opened c => onOpen c s
  | .message _ opcode payload =>
    (s, ((onMessage opcode_ opcode payload).map Effect.onMessage).toList)
  | .timer sent => (ping sent s, [])
  | .pong _ => onPong s
  | .pongTimeout _ => onPongTimeout s
  | .closed _ => onClose s
  | .disconnect => closeConnection s

def step (cancels : Bool) (opcode_ : Opcode) (s : State κ) (e : Event κ) : Option (State κ) :=
  (arrive cancels s e).map fun s ↦ (handle opcode_ s e).1

def effects (cancels : Bool) (opcode_ : Opcode) (s : State κ) (e : Event κ) : List (Effect κ) :=
  match arrive cancels s e with
  | some s => (handle opcode_ s e).2
  | none => []

/-- The event has its effect for the connection that it comes from, which is the
stored one. -/
structure Attributed (cancels : Bool) (opcode_ : Opcode) (s : State κ) (e : Event κ) : Prop where
  message : ∀ payload, .onMessage payload ∈ effects cancels opcode_ s e →
    ∃ c opcode, e = .message c opcode payload ∧ s.connectionHandler_ = some c
  closed : .connectionClosedCallback ∈ effects cancels opcode_ s e →
    ∃ c, e = .closed c ∧ s.connectionHandler_ = some c
  timeout : ∀ c d, e = .pongTimeout c → .close d ∈ effects cancels opcode_ s e → d = c

def Event.stored : Event κ → Option (Option κ)
  | .opened c => some (some c)
  | _ => none

def current (tr : List (Event κ)) : Option κ := (latest Event.stored tr).getD none

def Event.leavesOpen (d : κ) : Event κ → Option Bool
  | .opened c => if c = d then some true else none
  | .closed c => if c = d then some false else none
  | .pongTimeout _ => some false
  | .disconnect => some false
  | _ => none

variable {cancels : Bool} {opcode_ : Opcode} {s s' u : State κ} {e : Event κ}
  {tr : List (Event κ)} {c d : κ}

theorem arrive_opened :
    arrive cancels s (.opened c) = some u ↔ s.session c = none ∧ s.enter c .opened = u := by
  simp [arrive]

theorem arrive_message {opcode : Opcode} {payload : String} :
    arrive cancels s (.message c opcode payload) = some u ↔
      s.session c = some .opened ∧ s = u := by
  simp [arrive]

theorem arrive_timer {sent : Bool} :
    arrive cancels s (.timer sent) = some u ↔
      0 < s.timers ∧ { s with timers := s.timers - 1 } = u := by
  simp [arrive]

theorem arrive_pong :
    arrive cancels s (.pong c) = some u ↔
      (s.session c = some .opened ∨ s.session c = some .closing) ∧
        { s with awaiting := s.awaiting.erase c } = u := by
  simp [arrive]

theorem arrive_pongTimeout :
    arrive cancels s (.pongTimeout c) = some u ↔
      c ∈ s.awaiting ∧ { s with awaiting := s.awaiting.erase c } = u := by
  simp [arrive]

theorem arrive_closed :
    arrive cancels s (.closed c) = some u ↔
      (s.session c = some .opened ∨ s.session c = some .closing) ∧
        { s.enter c .closed with
          awaiting := if cancels then s.awaiting.erase c else s.awaiting } = u := by
  simp [arrive]

theorem arrive_disconnect : arrive cancels s .disconnect = some u ↔ s = u :=
  Option.some_inj

theorem arrive_handler (h : arrive cancels s e = some u) :
    u.connectionHandler_ = s.connectionHandler_ := by
  cases e with
  | disconnect =>
    obtain rfl := Option.some.inj h
    rfl
  | _ =>
    simp only [arrive] at h
    split at h
    · obtain rfl := Option.some.inj h
      rfl
    · simp at h

theorem closeConnection_handler :
    (closeConnection s).1.connectionHandler_ = s.connectionHandler_ := by
  unfold closeConnection
  split
  · split <;> rfl
  · rfl

theorem ping_handler {sent : Bool} : (ping sent s).connectionHandler_ = s.connectionHandler_ := by
  unfold ping
  split
  · split <;> rfl
  · rfl

theorem handle_handler :
    (handle opcode_ s e).1.connectionHandler_ = e.stored.getD s.connectionHandler_ := by
  cases e with
  | opened c => rfl
  | message c opcode payload => rfl
  | timer sent => exact ping_handler
  | pong c => rfl
  | pongTimeout c => exact closeConnection_handler
  | closed c => rfl
  | disconnect => exact closeConnection_handler

theorem step_eq_some : step cancels opcode_ s e = some s' ↔
    ∃ u, arrive cancels s e = some u ∧ (handle opcode_ u e).1 = s' := by
  simp [step, Option.map_eq_some_iff]

theorem run_handler (h : Run (step cancels opcode_) start tr s) :
    s.connectionHandler_ = current tr := by
  apply h.eq_latest (v := State.connectionHandler_)
  intro s e s' hs
  obtain ⟨u, hu, rfl⟩ := step_eq_some.mp hs
  rw [handle_handler, arrive_handler hu]

theorem enter_session {state : SessionState} :
    (s.enter c state).session d = if d = c then some state else s.session d := by
  simp [State.enter, Function.update_apply]

theorem ping_session {sent : Bool} : (ping sent s).session = s.session := by
  unfold ping
  split
  · split <;> rfl
  · rfl

theorem closeConnection_session (h : s.connectionHandler_ = some d) :
    (closeConnection s).1.session d ≠ some .opened := by
  unfold closeConnection
  rw [h]
  by_cases hd : s.session d = some .opened
  · simp [hd, enter_session]
  · simp [hd]

theorem step_session (hs : step cancels opcode_ s e = some s')
    (hd : s'.connectionHandler_ = some d) :
    (e.leavesOpen d = none → s.connectionHandler_ = some d) ∧
      (s'.session d = some .opened ↔
        (e.leavesOpen d).getD (decide (s.session d = some .opened)) = true) := by
  obtain ⟨u, hu, rfl⟩ := step_eq_some.mp hs
  rw [handle_handler, arrive_handler hu] at hd
  cases e with
  | opened c =>
    obtain rfl : c = d := Option.some.inj hd
    obtain ⟨-, rfl⟩ := arrive_opened.mp hu
    simp [Event.leavesOpen, handle, onOpen, startPing, schedule, enter_session]
  | message c opcode payload =>
    obtain ⟨-, rfl⟩ := arrive_message.mp hu
    have hd : s.connectionHandler_ = some d := hd
    simp [Event.leavesOpen, handle, hd]
  | timer sent =>
    obtain ⟨-, rfl⟩ := arrive_timer.mp hu
    have hd : s.connectionHandler_ = some d := hd
    simp [Event.leavesOpen, handle, ping_session, hd]
  | pong c =>
    obtain ⟨-, rfl⟩ := arrive_pong.mp hu
    have hd : s.connectionHandler_ = some d := hd
    simp [Event.leavesOpen, handle, onPong, schedule, hd]
  | pongTimeout c =>
    obtain ⟨-, rfl⟩ := arrive_pongTimeout.mp hu
    have hclosed := closeConnection_session
      (s := { s with awaiting := s.awaiting.erase c }) hd
    simpa [Event.leavesOpen, handle, onPongTimeout] using hclosed
  | closed c =>
    obtain ⟨-, rfl⟩ := arrive_closed.mp hu
    by_cases hc : d = c
    · simp [Event.leavesOpen, handle, onClose, hc, State.enter]
    · have hd : s.connectionHandler_ = some d := hd
      simp [Event.leavesOpen, handle, onClose, hc, Ne.symm hc, hd, State.enter]
  | disconnect =>
    obtain rfl := arrive_disconnect.mp hu
    simpa [Event.leavesOpen, handle] using closeConnection_session hd

/-- The stored connection is open until it closes or is told to. -/
theorem run_session (h : Run (step cancels opcode_) start tr s)
    (hd : s.connectionHandler_ = some d) :
    s.session d = some .opened ↔ latest (Event.leavesOpen d) tr = some true := by
  revert d
  apply h.history
  · intro d hd
    simp [start] at hd
  · intro tr s e s' _ ih hs d hd
    obtain ⟨hstored, hsession⟩ := step_session hs hd
    rw [hsession, latest_snoc]
    cases he : e.leavesOpen d with
    | none => simpa using ih (hstored he)
    | some open' => simp

/-- The events that a connection may cause where it is not the one opened last. -/
def InTurn (opcode_ : Opcode) (tr : List (Event κ)) : Event κ → Prop
  | .message c opcode _ => opcode = opcode_ → current tr = some c
  | .closed c => current tr = some c
  | .pongTimeout c =>
    ∀ d, current tr = some d → latest (Event.leavesOpen d) tr = some true → d = c
  | _ => True

theorem mem_closeConnection {x : Effect κ} : x ∈ (closeConnection s).2 ↔
    ∃ d, x = .close d ∧ s.connectionHandler_ = some d ∧ s.session d = some .opened := by
  unfold closeConnection
  cases hc : s.connectionHandler_ with
  | none => simp
  | some c =>
    by_cases hopen : s.session c = some .opened
    · simp [hopen]
    · simp [hopen]

theorem onMessage_mem_handle {payload : String} :
    .onMessage payload ∈ (handle opcode_ s e).2 ↔ ∃ c, e = .message c opcode_ payload := by
  cases e with
  | message c opcode payload' =>
    by_cases ho : opcode = opcode_
    · simp [handle, onMessage, ho, eq_comm]
    · simp [handle, onMessage, ho]
  | pongTimeout c => simp [handle, onPongTimeout, mem_closeConnection]
  | disconnect => simp [handle, mem_closeConnection]
  | _ => simp [handle, onOpen, onClose, onPong]

theorem connectionClosedCallback_mem_handle :
    .connectionClosedCallback ∈ (handle opcode_ s e).2 ↔ ∃ c, e = .closed c := by
  cases e with
  | message c opcode payload => simp [handle]
  | pongTimeout c => simp [handle, onPongTimeout, mem_closeConnection]
  | disconnect => simp [handle, mem_closeConnection]
  | _ => simp [handle, onOpen, onClose, onPong]

/-- One step has its effects for its own connection if and only if the state
before it lets it. -/
theorem attributed_iff (hs : step cancels opcode_ s e = some s') :
    Attributed cancels opcode_ s e ↔
      (∀ c payload, e = .message c opcode_ payload → s.connectionHandler_ = some c) ∧
      (∀ c, e = .closed c → s.connectionHandler_ = some c) ∧
      ∀ c d, e = .pongTimeout c → s.connectionHandler_ = some d →
        s.session d = some .opened → d = c := by
  obtain ⟨u, hu, -⟩ := step_eq_some.mp hs
  have heffects : effects cancels opcode_ s e = (handle opcode_ u e).2 := by simp [effects, hu]
  have htimeout : ∀ c d, e = .pongTimeout c → (.close d ∈ effects cancels opcode_ s e ↔
      s.connectionHandler_ = some d ∧ s.session d = some .opened) := by
    intro c d he
    subst he
    obtain ⟨-, rfl⟩ := arrive_pongTimeout.mp hu
    simp [heffects, handle, onPongTimeout, mem_closeConnection]
  refine ⟨?_, ?_⟩
  · intro h
    obtain ⟨hmessage, hclosed, hclose⟩ := h
    refine ⟨?_, ?_, ?_⟩
    · intro c payload he
      obtain ⟨c', opcode, he', hc⟩ := hmessage payload (by
        rw [heffects, onMessage_mem_handle]
        exact ⟨c, he⟩)
      rw [he] at he'
      obtain ⟨rfl, -, -⟩ := Event.message.inj he'
      exact hc
    · intro c he
      obtain ⟨c', he', hc⟩ := hclosed (by
        rw [heffects, connectionClosedCallback_mem_handle]
        exact ⟨c, he⟩)
      rw [he] at he'
      obtain rfl := Event.closed.inj he'
      exact hc
    · intro c d he hd hopen
      exact hclose c d he ((htimeout c d he).mpr ⟨hd, hopen⟩)
  · intro h
    obtain ⟨hmessage, hclosed, hclose⟩ := h
    refine ⟨?_, ?_, ?_⟩
    · intro payload hp
      rw [heffects, onMessage_mem_handle] at hp
      obtain ⟨c, he⟩ := hp
      exact ⟨c, opcode_, he, hmessage c payload he⟩
    · intro hp
      rw [heffects, connectionClosedCallback_mem_handle] at hp
      obtain ⟨c, he⟩ := hp
      exact ⟨c, he, hclosed c he⟩
    · intro c d he hd
      obtain ⟨hstored, hopen⟩ := (htimeout c d he).mp hd
      exact hclose c d he hstored hopen

theorem attributed_iff_inTurn (h : Run (step cancels opcode_) start tr s)
    (hs : step cancels opcode_ s e = some s') :
    Attributed cancels opcode_ s e ↔ InTurn opcode_ tr e := by
  have hcurrent := run_handler h
  rw [attributed_iff hs]
  cases e with
  | message c opcode payload =>
    simp only [InTurn, hcurrent, Event.message.injEq]
    refine ⟨?_, ?_⟩
    · intro hattr ho
      obtain ⟨hmessage, -⟩ := hattr
      exact hmessage c payload ⟨rfl, ho, rfl⟩
    · intro hmessage
      refine ⟨?_, by simp, by simp⟩
      intro c' payload' he
      obtain ⟨hc, ho, -⟩ := he
      rw [← hc]
      exact hmessage ho
  | closed c => simp [InTurn, hcurrent]
  | pongTimeout c =>
    simp only [InTurn, ← hcurrent]
    refine ⟨?_, ?_⟩
    · intro hattr d hd hopen
      obtain ⟨-, -, hclose⟩ := hattr
      exact hclose c d rfl hd ((run_session h hd).mpr hopen)
    · intro hclose
      refine ⟨by simp, by simp, ?_⟩
      intro c' d hc hd hopen
      obtain rfl := Event.pongTimeout.inj hc
      exact hclose d hd ((run_session h hd).mp hopen)
  | _ => simp [InTurn]

theorem events_attributed_iff (h : Run (step cancels opcode_) start tr s) :
    Along (step cancels opcode_) start (Attributed cancels opcode_) tr ↔
      ∀ pre e post, tr = pre ++ e :: post → InTurn opcode_ pre e := by
  apply along_iff h
  intro pre e u u' hu hs
  exact attributed_iff_inTurn hu hs

def reconnected : List (Event ℕ) :=
  [.opened 0, .message 0 .text "a", .timer true, .pong 0, .closed 0, .opened 1, .timer true,
    .message 1 .text "b", .pongTimeout 1, .closed 1]

theorem events_attributed_iff_reconnected : ∃ s, Run (step false .text) start reconnected s ∧
    (Along (step false .text) start (Attributed false .text) reconnected ↔
      ∀ pre e post, reconnected = pre ++ e :: post → InTurn .text pre e) := by
  obtain ⟨s, h⟩ : ∃ s, Run (step false .text) start reconnected s := exists_run (by decide)
  exact ⟨s, h, events_attributed_iff h⟩

def twoClients : List (Event ℕ) := [.opened 0, .opened 1]

theorem message_of_other_client :
    ¬ ∀ (cancels : Bool) (opcode_ : Opcode) (tr : List (Event ℕ)) (s : State ℕ),
      Run (step cancels opcode_) start tr s →
      Along (step cancels opcode_) start (Attributed cancels opcode_) tr := by
  intro h
  obtain ⟨s, hs⟩ : ∃ s, Run (step false .text) start (twoClients ++ [.message 0 .text "a"]) s :=
    exists_run (by decide)
  obtain ⟨u, u', hu, hstep, -⟩ := hs.split
  have hattributed := h false .text _ s hs twoClients _ [] u rfl hu
  have hcurrent : u.connectionHandler_ = some 1 := run_handler hu
  have hstored := (attributed_iff hstep).mp hattributed
  have hother := hstored.1 0 "a" rfl
  simp [hcurrent] at hother

end Peripherals.WebSockets.WSEndpoint
