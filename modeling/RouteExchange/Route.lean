/-
  Routes, and what is told about them.

  An `Nlri` names a destination in its encoded form; its `key` is what makes it
  the same destination in a table.  A `Route` is an NLRI with path attributes,
  and a `Route.Event` says who advertised or withdrew one.
-/
import RouteExchange.Address
import RouteExchange.Attributes
import RouteExchange.Family

namespace RouteExchange

/-- What an update does with an NLRI. -/
inductive Action where
  /-- Not set; never valid in an update that is received. -/
  | unset
  | announced
  | withdrawn
deriving DecidableEq, Repr

def Action.name : Action → String
  | unset => "Unset"
  | announced => "Announced"
  | withdrawn => "Withdrawn"

/-- A destination.  Only the engine looks into `network`; a route target
    constraint also shows its route target, where none stands for all. -/
structure Nlri where
  family : Family
  action : Action
  network : Octets
  nextHop : Option Ip := none
  target : Option RouteTarget := none
deriving DecidableEq, Repr

namespace Nlri

/-- What identifies an NLRI in a table: neither the action nor the next hop. -/
structure Key where
  family : Family
  network : Octets
  target : Option RouteTarget
deriving DecidableEq, Repr

/-- The key of an NLRI. -/
def key (n : Nlri) : Key := ⟨n.family, n.network, n.target⟩

/-- The route target constraint by which an origin AS asks for a route target,
    or for all. -/
def rtc (action : Action) (originAs : UInt32) (target : Option RouteTarget) : Nlri where
  family := .ipv4Rtc
  action := action
  network := match target with
    | some t => Octets.be32 originAs ++ t.toCommunity.octets
    | none => []
  target := target

/-- The text of an NLRI. -/
def text (n : Nlri) : String :=
  let head := n.family.text ++ " " ++ n.action.name
  let body :=
    if n.family.isRtc then
      match n.target with
      | some t => " rt " ++ t.text
      | none => " rt <wildcard>"
    else " prefix 0x" ++ Octets.hex n.network
  let hop := match n.nextHop with
    | some a => " next-hop " ++ a.text
    | none => ""
  head ++ body ++ hop

end Nlri

/-- A route: a destination and its path attributes. -/
structure Route where
  nlri : Nlri
  attributes : Attributes := ∅
deriving DecidableEq, Repr

namespace Route

/-- The family of a route. -/
def family (r : Route) : Family := r.nlri.family

/-- What identifies a route in a table. -/
def key (r : Route) : Nlri.Key := r.nlri.key

/-- The route targets that interests are compared with: a route target
    constraint has the one it asks for, other routes those of their communities. -/
def targets (r : Route) : List RouteTarget :=
  if r.family.isRtc then r.nlri.target.toList else r.attributes.targets

/-- The text of a route. -/
def text (r : Route) : String :=
  r.nlri.text ++ " (" ++ Decimal.text r.attributes.list.length ++ " attributes)"

/-- What is told about a route. -/
inductive Kind where
  | advertise
  | withdraw
deriving DecidableEq, Repr

namespace Kind

/-- The name of a kind of event. -/
def name : Kind → String
  | advertise => "advertise"
  | withdraw => "withdraw"

/-- The action that tells a peer of such an event. -/
def action : Kind → Action
  | advertise => .announced
  | withdraw => .withdrawn

/-- The kind of event that an action in a received update makes, if it is valid there. -/
def ofAction? : Action → Option Kind
  | .announced => some advertise
  | .withdrawn => some withdraw
  | .unset => none

end Kind

/-- A route was advertised or withdrawn by a source. -/
structure Event where
  kind : Kind
  route : Route
  source : String
deriving DecidableEq, Repr

end Route

end RouteExchange
