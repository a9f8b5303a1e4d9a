/-
  What is asked of the route bus, and what it tells its subscribers.
-/
import RouteExchange.Bus.Subscription

namespace RouteExchange

/-- Where a subscriber's events go: to an outside listener, or to the queue of a
    worker, which is a new one after each clean-up. -/
inductive Inbox where
  | listener (name : String)
  | worker (index epoch : Nat)
deriving DecidableEq, Repr

namespace Bus

/-- What is asked of the bus. -/
inductive Command where
  | advertise (source : String) (route : Route)
  | withdraw (source : String) (route : Route)
  /-- Deliver the routes of an interest to an inbox. -/
  | subscribe (id : String) (inbox : Inbox) (interest : Subscription)
  | unsubscribe (id : String) (interest : Subscription)
  /-- Forget everything about a worker: its interests and its routes. -/
  | cleanup (id : String)
deriving DecidableEq, Repr

/-- An event on its way to a subscriber. -/
structure Delivery where
  id : String
  inbox : Inbox
  event : Route.Event
deriving DecidableEq, Repr

end Bus

end RouteExchange
