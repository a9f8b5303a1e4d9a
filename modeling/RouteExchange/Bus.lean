/-
  The route bus.

  The bus keeps the table of the published routes, one for each key, and the
  interests of its subscribers.  `Bus.step` carries out one command and says
  what is delivered.  A subscriber is told of a route while one of its
  interests covers it, and never of a route of its own: a new interest is told
  the routes it adds, and a route that is replaced, withdrawn or no longer asked
  for is taken back.  The order of the two lists of a bus means nothing.
-/
import RouteExchange.Bus.Command

namespace RouteExchange

/-- A published route and the worker that published it. -/
structure Stored where
  source : String
  route : Route
deriving DecidableEq, Repr

namespace Stored

/-- The key under which a route is stored. -/
def key (s : Stored) : Nlri.Key := s.route.key

def advertised (s : Stored) : Route.Event := ⟨.advertise, s.route, s.source⟩

def withdrawn (s : Stored) : Route.Event := ⟨.withdraw, s.route, s.source⟩

end Stored

/-- Who is told of routes: where its events go, and its interests. -/
structure Subscriber where
  id : String
  inbox : Inbox
  interests : List Subscription
deriving DecidableEq, Repr

namespace Subscriber

/-- One of the interests covers the route. -/
def covers (s : Subscriber) (r : Route) : Bool := s.interests.any fun i => i.covers r

def deliver (s : Subscriber) (e : Route.Event) : Bus.Delivery := ⟨s.id, s.inbox, e⟩

end Subscriber

/-- The published routes and the subscribers. -/
structure Bus where
  table : List Stored := []
  subscribers : List Subscriber := []
deriving DecidableEq, Repr

namespace Bus

instance : Inhabited Bus := ⟨{}⟩

/-! ## Looking up -/

def stored? (b : Bus) (k : Nlri.Key) : Option Stored := b.table.find? fun s => s.key == k

def subscriber? (b : Bus) (id : String) : Option Subscriber :=
  b.subscribers.find? fun s => s.id == id

/-- The table without the route under a key. -/
def without (b : Bus) (k : Nlri.Key) : List Stored := b.table.filter fun s => s.key != k

/-- The subscribers without the one of this name. -/
def others (b : Bus) (id : String) : List Subscriber := b.subscribers.filter fun s => s.id != id

/-! ## Commands -/

/-- What a subscriber is told when `new` takes the place of `old`: the new route
    where it is asked for, else that the old one is gone where that one was. -/
def onReplace (new : Stored) (old : Option Stored) (s : Subscriber) : Option Delivery :=
  if s.id = new.source then none
  else if s.covers new.route then some (s.deliver new.advertised)
  else old.bind fun o => if s.covers o.route then some (s.deliver o.withdrawn) else none

/-- Publishes a route, in place of the one under its key. -/
def advertise (b : Bus) (source : String) (route : Route) : Bus × List Delivery :=
  let new : Stored := ⟨source, route⟩
  ({ b with table := new :: b.without route.key },
    b.subscribers.filterMap (onReplace new (b.stored? route.key)))

/-- What subscribers are told when a stored route goes away. -/
def onRemove (subscribers : List Subscriber) (gone : Stored) : List Delivery :=
  (subscribers.filter fun s => s.id != gone.source && s.covers gone.route).map
    fun s => s.deliver gone.withdrawn

/-- Retracts a route, if the source published the one under its key. -/
def withdraw (b : Bus) (source : String) (route : Route) : Bus × List Delivery :=
  match b.stored? route.key with
  | none => (b, [])
  | some gone =>
    if gone.source = source then
      ({ b with table := b.without route.key }, onRemove b.subscribers gone)
    else (b, [])

/-- The stored routes of others that an interest adds to those that a subscriber
    is told of: it covers them, and no other interest does. -/
def added (b : Bus) (s : Subscriber) (i : Subscription) : List Stored :=
  b.table.filter fun r => r.source != s.id && !s.covers r.route && i.covers r.route

/-- Adds an interest, and tells the routes it adds.  Events go to the new inbox
    from now on, even when the interest is not new. -/
def subscribe (b : Bus) (id : String) (inbox : Inbox) (i : Subscription) : Bus × List Delivery :=
  let s : Subscriber := ⟨id, inbox, ((b.subscriber? id).map Subscriber.interests).getD []⟩
  if i ∈ s.interests then ({ b with subscribers := s :: b.others id }, [])
  else
    ({ b with subscribers := { s with interests := i :: s.interests } :: b.others id },
      (b.added s i).map fun r => s.deliver r.advertised)

/-- Drops an interest, and takes back the routes that only it asked for.  A
    subscriber without interests is dropped. -/
def unsubscribe (b : Bus) (id : String) (i : Subscription) : Bus × List Delivery :=
  match b.subscriber? id with
  | none => (b, [])
  | some s =>
    if i ∈ s.interests then
      let s := { s with interests := s.interests.filter fun j => j != i }
      ({ b with subscribers := if s.interests.isEmpty then b.others id else s :: b.others id },
        (b.added s i).map fun r => s.deliver r.withdrawn)
    else (b, [])

/-- Drops a subscriber and the routes it published. -/
def cleanup (b : Bus) (id : String) : Bus × List Delivery :=
  let rest := b.others id
  ({ table := b.table.filter fun r => r.source != id, subscribers := rest },
    (b.table.filter fun r => r.source == id).flatMap (onRemove rest))

/-- Carries out a command: the bus after it, and what is delivered. -/
def step (b : Bus) : Command → Bus × List Delivery
  | .advertise source route => b.advertise source route
  | .withdraw source route => b.withdraw source route
  | .subscribe id inbox i => b.subscribe id inbox i
  | .unsubscribe id i => b.unsubscribe id i
  | .cleanup id => b.cleanup id

/-- Carries out commands in order. -/
def run (b : Bus) : List Command → Bus × List Delivery
  | [] => (b, [])
  | c :: cs =>
    let (b₁, ds₁) := b.step c
    let (b₂, ds₂) := b₁.run cs
    (b₂, ds₁ ++ ds₂)

end Bus

end RouteExchange
