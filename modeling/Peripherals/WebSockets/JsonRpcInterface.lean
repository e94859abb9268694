import Peripherals.Execution
import Peripherals.WebSockets.Endpoint
import Peripherals.WebSockets.JsonRpc
import Mathlib.Logic.Function.Basic

namespace Peripherals.WebSockets.JsonRpcInterface

open Function Thunder JsonRpc Execution

abbrev CallId := ℕ
abbrev PromiseId := ℕ

inductive FutureStatus
  | ready | timeout | deferred
  deriving DecidableEq, Repr

inductive FutureError
  | promiseAlreadySatisfied
  deriving DecidableEq, Repr

/-- Where one call of `sendRequest` stands between its atomic sections.
`leaving` is the stretch up to its `removePromise`, after a failed send
(`none`) or with the status its wait returned. -/
inductive Phase
  | idle
  | created (request : Message)
  | checked (request : Message)
  | registered (request : Message) (future : PromiseId)
  | waiting (request : Message) (future : PromiseId)
  | leaving (request : Message) (future : PromiseId) (status : Option FutureStatus)
  | rejected (request : Message)
  | returned (request : Message) (result : Bool) (response : Option Message)

/-- The interface object with its callers. `promises` holds the shared states
of promises and futures, `escaped` counts the exceptions that left `onMessage`. -/
structure State where
  idSequence : UInt32
  responseToPromise : UInt32 → Option PromiseId
  promises : PromiseId → Option String
  nextPromise : PromiseId
  calls : CallId → Phase
  notificationHandler : Bool
  notifications : List Message
  escaped : ℕ

def State.init : State where
  idSequence := 0
  responseToPromise _ := none
  promises _ := none
  nextPromise := 0
  calls _ := .idle
  notificationHandler := false
  notifications := []
  escaped := 0

def State.setCall (s : State) (c : CallId) (p : Phase) : State :=
  { s with calls := update s.calls c p }

def isRequestProcessingOngoing (s : State) (id : UInt32) : Bool := (s.responseToPromise id).isSome

/-- `emplace` keeps an entry that is already there, and its promise is lost. -/
def createFutureResponse (s : State) (id : UInt32) : Option (PromiseId × State) :=
  match s.responseToPromise id with
  | some _ => none
  | none => some (s.nextPromise, { s with
      responseToPromise := update s.responseToPromise id (some s.nextPromise)
      promises := update s.promises s.nextPromise none
      nextPromise := s.nextPromise + 1 })

def removePromise (s : State) (id : UInt32) : State :=
  { s with responseToPromise := update s.responseToPromise id none }

variable (codec : Codec)

def processResponse (id : UInt32) (responseString : String) : Bool × Message :=
  let deviceResponse := codec.parseMessage responseString
  let success :=
    if Response.isValid deviceResponse && Response.getId deviceResponse == id then
      match Response.getResult codec deviceResponse with
      | some parameters =>
        if parameters.hasLabel "success" then getBoolParameter parameters "success" else false
      | none => false -- the fields of an error object are only logged
    else false
  (success, deviceResponse)

def handleNotification (s : State) (message : String) : State :=
  let notif := codec.parseMessage message
  if !Notification.isValid codec notif then s
  else if !s.notificationHandler then s
  else { s with notifications := s.notifications ++ [notif] }

def handleResponse (s : State) (id : UInt32) (message : String) : Except FutureError State :=
  match s.responseToPromise id with
  | none => .ok s
  | some promise => match s.promises promise with
    | some _ => .error .promiseAlreadySatisfied
    | none => .ok { s with promises := update s.promises promise (some message) }

inductive Dispatch
  | malformed | request | invalidId | response (id : UInt32) | notification
  deriving DecidableEq, Repr

def dispatch (message : String) : Dispatch :=
  let (parsed, json) := codec.parseObject message
  if !parsed then .malformed
  else if json.hasLabel "id" then
    if json.hasLabel "method" then .request
    else if (json.get "id").content ≠ .number then .invalidId
    else .response (UInt32.ofInt (json.get "id").number)
  else .notification

def onMessage (s : State) (message : String) : Except FutureError State :=
  match dispatch codec message with
  | .response id => handleResponse s id message
  | .notification => .ok (handleNotification codec s message)
  | .malformed | .request | .invalidId => .ok s

/-- The atomic sections of the callers and of the event loop. A caller gets its
`Request` from `create` or brings one with an id of its own choice. -/
inductive Action
  | create (c : CallId) (method : String) (parameters : JsonObject)
  | supply (c : CallId) (request : Message)
  | check (c : CallId)
  | register (c : CallId) (id : UInt32)
  | send (c : CallId) (ec : Bool)
  | wait (c : CallId) (status : FutureStatus)
  | remove (c : CallId) (id : UInt32)
  | message (text : String)
  | setNotificationHandler (present : Bool)

/-- What `getAsyncResponse` returns once the entry is gone. `none` is `get` on a
future without a value, which never comes back. -/
def finish (s : State) (request : Message) (future : PromiseId) :
    Option FutureStatus → Option Phase
  | some .ready => match s.promises future with
    | some text =>
      let (success, response) := processResponse codec (Request.getId request) text
      some (.returned request success (some response))
    | none => none
  | some .timeout | some .deferred | none => some (.returned request false none)

/-- `wait_for` reports `ready` for a fulfilled promise only. Whether and when it
gives up is left to the environment. -/
def step (s : State) : Action → Option State
  | .create c method parameters => match s.calls c with
    | .idle => match Request.create codec codec.blank method parameters s.idSequence with
      | some (request, idSequence) =>
        some { s.setCall c (.created request) with idSequence := idSequence }
      | none => some s
    | _ => none
  | .supply c request => match s.calls c with
    | .idle => some (s.setCall c (.created request))
    | _ => none
  | .check c => match s.calls c with
    | .created request =>
      if isRequestProcessingOngoing s (Request.getId request) then
        some (s.setCall c (.rejected request))
      else some (s.setCall c (.checked request))
    | _ => none
  | .register c id => match s.calls c with
    | .checked request =>
      if Request.getId request = id then
        match createFutureResponse s id with
        | some (future, s) => some (s.setCall c (.registered request future))
        | none => some (s.setCall c (.rejected request))
      else none
    | _ => none
  | .send c ec => match s.calls c with
    | .registered request future =>
      if WSEndpoint.send (Request.toString codec request) ec then
        some (s.setCall c (.waiting request future))
      else some (s.setCall c (.leaving request future none))
    | _ => none
  | .wait c status => match s.calls c with
    | .waiting request future =>
      if status = .ready ∧ s.promises future = none then none
      else some (s.setCall c (.leaving request future (some status)))
    | _ => none
  | .remove c id => match s.calls c with
    | .leaving request future status =>
      if Request.getId request = id then
        (finish codec s request future status).map fun phase ↦ (removePromise s id).setCall c phase
      else none
    | _ => none
  | .message text => match onMessage codec s text with
    | .ok s => some s
    | .error _ => some { s with escaped := s.escaped + 1 }
  | .setNotificationHandler present => some { s with notificationHandler := present }

end Peripherals.WebSockets.JsonRpcInterface
