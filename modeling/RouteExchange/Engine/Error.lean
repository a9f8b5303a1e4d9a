/-
  What can go wrong in an engine.
-/
import RouteExchange.Message.Notification

namespace RouteExchange

/-- A failure of the system's input or output. -/
structure Fault where
  kind : String
  text : String
deriving DecidableEq, Repr

namespace Fault

/-- The kinds of failure that mean that the connection is gone. -/
def lossKinds : List String :=
  ["ConnectionReset", "ConnectionAborted", "BrokenPipe", "UnexpectedEof"]

/-- The kind of a call that a signal cut short. -/
def interruptedKind : String := "Interrupted"

end Fault

/-- What can go wrong in an engine. -/
inductive EngineError where
  /-- Connecting was interrupted before it completed. -/
  | interrupted
  /-- A NOTIFICATION was received, or raised while checking the peer's messages. -/
  | notification (n : Notification)
  | lostConnection (text : String)
  /-- A received message could not be decoded. -/
  | decode (text : String)
  /-- A message could not be encoded. -/
  | encode (text : String)
  /-- Any other failure of the protocol. -/
  | protocol (text : String)
  /-- Any other failure of the system. -/
  | system (fault : Fault)
deriving DecidableEq, Repr

namespace EngineError

/-- The error that a failure of the system is to an engine. -/
def ofFault (f : Fault) : EngineError :=
  if f.kind ∈ Fault.lossKinds then lostConnection f.text
  else if f.kind = Fault.interruptedKind then interrupted
  else system f

def message : EngineError → String
  | interrupted => "connect was interrupted"
  | notification n => "notification: " ++ n.text
  | lostConnection text => "lost connection: " ++ text
  | decode text => "decode error: " ++ text
  | encode text => "encode error: " ++ text
  | protocol text => "protocol error: " ++ text
  | system f => "I/O error: " ++ f.text

def hasCause : EngineError → Bool
  | system _ => true
  | _ => false

end EngineError

end RouteExchange
