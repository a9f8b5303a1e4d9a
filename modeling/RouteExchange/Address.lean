/-
  Addresses of either version.

  `Ip.parse?` reads the text of an IPv4 or IPv6 address, `Ip.text` writes it.
-/
import RouteExchange.Address.V6

namespace RouteExchange

/-- An address of either version. -/
inductive Ip where
  | v4 (a : V4)
  | v6 (a : V6)
deriving DecidableEq, Repr

namespace Ip

/-- The address a whole text denotes. -/
def parse? (cs : List Char) : Option Ip :=
  match V4.parse? cs with
  | some a => some (.v4 a)
  | none => (V6.parse? cs).map .v6

def text : Ip → String
  | v4 a => a.text
  | v6 a => a.text

end Ip

end RouteExchange
