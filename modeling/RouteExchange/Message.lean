/-
  Decoded messages, as the engine hands them over.

  Decoding them is the engine's business; the session layer tells them apart.
-/
import RouteExchange.Message.Header
import RouteExchange.Message.Notification
import RouteExchange.Route

namespace RouteExchange

/-- A decoded OPEN: what the peer offers. -/
structure Open where
  version : UInt8 := 4
  asn : UInt16
  holdTime : UInt16
  routerId : V4
  families : List Family
deriving DecidableEq, Repr

/-- A decoded UPDATE: what it announces and withdraws, and the attributes they share. -/
structure Update where
  nlris : List Nlri
  attributes : Attributes := ∅
deriving DecidableEq, Repr

/-- A decoded message, or `nop` where nothing complete was there to be read. -/
inductive Message where
  | nop
  | opening (o : Open)
  | update (u : Update)
  | notification (n : Notification)
  | keepalive
  | routeRefresh (f : Family)
deriving DecidableEq, Repr

def Message.name : Message → String
  | nop => "NOP"
  | opening _ => "OPEN"
  | update _ => "UPDATE"
  | notification _ => "NOTIFICATION"
  | keepalive => "KEEPALIVE"
  | routeRefresh _ => "ROUTE_REFRESH"

end RouteExchange
