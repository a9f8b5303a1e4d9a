/-
  NOTIFICATION messages: an error code, a subcode and data.
-/
import RouteExchange.Octets
import RouteExchange.Text.Decimal

namespace RouteExchange

/-- The error codes that have a name. -/
inductive ErrorCode where
  | messageHeaderError
  | openMessageError
  | updateMessageError
  | holdTimerExpired
  | finiteStateMachineError
  | cease
  | routeRefreshMessageError
deriving DecidableEq, Repr

namespace ErrorCode

def ofCode? (n : UInt8) : Option ErrorCode :=
  match n.toNat with
  | 1 => some messageHeaderError
  | 2 => some openMessageError
  | 3 => some updateMessageError
  | 4 => some holdTimerExpired
  | 5 => some finiteStateMachineError
  | 6 => some cease
  | 7 => some routeRefreshMessageError
  | _ => none

def name : ErrorCode → String
  | messageHeaderError => "MessageHeaderError"
  | openMessageError => "OpenMessageError"
  | updateMessageError => "UpdateMessageError"
  | holdTimerExpired => "HoldTimerExpired"
  | finiteStateMachineError => "FiniteStateMachineError"
  | cease => "Cease"
  | routeRefreshMessageError => "RouteRefreshMessageError"

end ErrorCode

/-- A NOTIFICATION, sent or received. -/
structure Notification where
  code : UInt8
  subcode : UInt8
  data : Octets
deriving DecidableEq, Repr

namespace Notification

/-- The octets of a list between brackets, in hexadecimal. -/
def dataText (data : Octets) : String :=
  "[" ++ String.intercalate ", " (data.map fun b => Octets.hex [b]) ++ "]"

/-- The text of a notification: the name of its code, both codes, and its data
    if there are any. -/
def text (n : Notification) : String :=
  let name := ((ErrorCode.ofCode? n.code).map ErrorCode.name).getD "unknown error"
  let codes := " (" ++ Decimal.text n.code.toNat ++ "/" ++ Decimal.text n.subcode.toNat ++ ")"
  name ++ codes ++ if n.data.isEmpty then "" else " data " ++ dataText n.data

end Notification

end RouteExchange
