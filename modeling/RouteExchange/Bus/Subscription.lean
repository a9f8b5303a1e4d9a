/-
  Interests in routes.

  A subscription asks for the routes of one family that carry one route target,
  or for all routes of the family.
-/
import RouteExchange.Route

namespace RouteExchange

/-- An interest in the routes of a family; no route target stands for all. -/
structure Subscription where
  family : Family
  target : Option RouteTarget
deriving DecidableEq, Repr

/-- The subscription asks for the route. -/
def Subscription.covers (s : Subscription) (r : Route) : Bool :=
  s.family == r.family &&
    match s.target with
    | none => true
    | some t => r.targets.contains t

end RouteExchange
