import Mathlib.Data.List.Basic

namespace Peripherals.WebSockets.WSEndpoint

/-- `websocketpp::frame::opcode::value`, without the reserved values. -/
inductive Opcode
  | continuation | text | binary | close | ping | pong
  deriving DecidableEq, Repr

/-- `ec` is the error code that websocketpp reports for the frame. -/
def send (message : String) (ec : Bool) : Bool :=
  if message.isEmpty then false
  else if ec then false
  else true

def onMessage (opcode_ opcode : Opcode) (payload : String) : Option String :=
  if opcode ≠ opcode_ then none else some payload

end Peripherals.WebSockets.WSEndpoint
