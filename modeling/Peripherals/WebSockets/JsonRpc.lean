import Peripherals.Thunder

namespace Peripherals.WebSockets.JsonRpc

open Thunder

/-- A Thunder JSON element: `IsSet()` and what `Value()` returns. -/
structure Element (α : Type) where
  isSet : Bool
  value : α
  deriving DecidableEq, Repr

def Element.assign {α : Type} (a : α) : Element α := ⟨true, a⟩

structure Info where
  isSet : Bool
  code : Element Int
  text : Element String
  deriving DecidableEq, Repr

/-- `Core::JSONRPC::Message`, the base of requests, replies and notifications. -/
structure Message where
  jsonrpc : Element String
  id : Element UInt32
  designator : Element String
  parameters : Element String
  result : Element String
  error : Info
  deriving DecidableEq, Repr

def defaultVersion : String := "2.0"

/-- The parts of Thunder's JSON library that this code calls. `FromString` of a
container reports success and fills the container either way; `blank` is a
message as its constructor leaves it. -/
structure Codec where
  blank : Message
  parseObject : String → Bool × JsonObject
  parseMessage : String → Message
  printObject : JsonObject → String
  printMessage : Message → String
  method : Message → String

variable (codec : Codec)

def Message.failsVersionCheck (m : Message) : Bool :=
  !m.jsonrpc.isSet || m.jsonrpc.value != defaultVersion

namespace Request

def getId (r : Message) : UInt32 := r.id.value

/-- The shared counter after the increment is also the id handed out. -/
def generateId (idSequence : UInt32) : UInt32 := idSequence + 1

/-- `none` where `create` returns false, which leaves the counter alone. -/
def create (r : Message) (method : String) (parameters : JsonObject) (idSequence : UInt32) :
    Option (Message × UInt32) :=
  if r.failsVersionCheck then none
  else if method.isEmpty then none
  else
    let paramsString := codec.printObject parameters
    let r := { r with designator := .assign method }
    let r := if paramsString.isEmpty then r else { r with parameters := .assign paramsString }
    some ({ r with id := .assign (generateId idSequence) }, generateId idSequence)

def toString (r : Message) : String := codec.printMessage r

theorem create_eq_some {r r' : Message} {method : String} {parameters : JsonObject}
    {idSequence idSequence' : UInt32}
    (h : create codec r method parameters idSequence = some (r', idSequence')) :
    idSequence' = idSequence + 1 ∧ getId r' = idSequence + 1 := by
  unfold create at h
  split at h
  · cases h
  · split at h
    · cases h
    · simp only [Option.some.injEq, Prod.mk.injEq] at h
      obtain ⟨rfl, rfl⟩ := h
      exact ⟨rfl, rfl⟩

end Request

namespace Response

def getId (r : Message) : UInt32 := r.id.value

def isResult (r : Message) : Bool := r.result.isSet

/-- The object of a reply's result; `none` where `getResult` returns false. -/
def getResult (r : Message) : Option JsonObject :=
  if isResult r then some (codec.parseObject r.result.value).2 else none

def isValid (r : Message) : Bool :=
  if r.failsVersionCheck then false
  else if !r.id.isSet then false
  else if !r.result.isSet && !r.error.isSet then false
  else if r.result.isSet && r.error.isSet then false
  else if r.error.isSet then r.error.code.isSet && r.error.text.isSet
  else true

theorem isValid_iff (r : Message) : isValid r = true ↔
    (r.jsonrpc.isSet = true ∧ r.jsonrpc.value = defaultVersion) ∧ r.id.isSet = true ∧
      ((r.result.isSet = true ∧ r.error.isSet = false) ∨
        (r.result.isSet = false ∧ r.error.isSet = true ∧
          r.error.code.isSet = true ∧ r.error.text.isSet = true)) := by
  unfold isValid Message.failsVersionCheck
  cases r.jsonrpc.isSet <;> cases r.id.isSet <;> cases r.result.isSet <;>
    cases r.error.isSet <;> simp

end Response

namespace Notification

def isValid (n : Message) : Bool :=
  if n.failsVersionCheck then false
  else if (codec.method n).isEmpty then false
  else !n.id.isSet

end Notification

end Peripherals.WebSockets.JsonRpc
