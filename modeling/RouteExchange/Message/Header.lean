/-
  The header of a message on the wire: a marker of sixteen octets, the length of
  the whole message and its type.
-/
import RouteExchange.Octets
import RouteExchange.Text.Decimal

namespace RouteExchange

/-- The types of messages. -/
inductive MessageType where
  | opening
  | update
  | notification
  | keepalive
  | routeRefresh
deriving DecidableEq, Repr

namespace MessageType

def code : MessageType → UInt8
  | opening => 1
  | update => 2
  | notification => 3
  | keepalive => 4
  | routeRefresh => 5

def ofCode? (n : UInt8) : Option MessageType :=
  match n.toNat with
  | 1 => some opening
  | 2 => some update
  | 3 => some notification
  | 4 => some keepalive
  | 5 => some routeRefresh
  | _ => none

/-- What is said of an octet that is no type. -/
def invalidMessage (n : UInt8) : String :=
  "Invalid BGP message type: " ++ Decimal.text n.toNat

def name : MessageType → String
  | opening => "Open"
  | update => "Update"
  | notification => "Notification"
  | keepalive => "Keepalive"
  | routeRefresh => "RouteRefresh"

/-- The label of a type in counters and log lines. -/
def label : MessageType → String
  | opening => "OPEN"
  | update => "UPDATE"
  | notification => "NOTIFICATION"
  | keepalive => "KEEPALIVE"
  | routeRefresh => "ROUTE_REFRESH"

end MessageType

/-- The header of a message. -/
structure Header where
  length : UInt16
  type : MessageType
deriving DecidableEq, Repr

namespace Header

/-- The sixteen octets every message starts with. -/
def marker : Octets := List.replicate 16 0xFF

def size : Nat := 19

/-- What is said of a body that no header can describe. -/
def tooLongMessage : String := "BGP message too long"

/-- The header of a message whose body has this many octets, unless the length
    of the whole exceeds a 16-bit word. -/
def ofBody? (type : MessageType) (bodyLength : Nat) : Option Header :=
  if size + bodyLength < UInt16.size then some ⟨UInt16.ofNat (size + bodyLength), type⟩ else none

def octets (h : Header) : Octets := marker ++ Octets.be16 h.length ++ [h.type.code]

/-- The message that keeps a session alive, the same in every session. -/
def keepalive : Octets := marker ++ [0x00, 0x13, 0x04]

/-- The label of the type octet of a message. -/
def label (message : Octets) : String :=
  match message[size - 1]? with
  | some n => ((MessageType.ofCode? n).map MessageType.label).getD "UNKNOWN"
  | none => "UNKNOWN"

end Header

end RouteExchange
