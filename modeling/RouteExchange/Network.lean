/-
  Workers that run together on one bus, over a common clock.

  A worker runs without interruption until it waits.  Then the bus carries out
  the commands the worker gave, in order, and its deliveries reach the inboxes
  before time moves on.  Time moves to the next moment at which a worker has a
  move to make.
-/
import RouteExchange.Runner

namespace RouteExchange

/-- Workers on a bus, and what was delivered to listeners outside. -/
structure Network (σ : Type) where
  bus : Bus := {}
  runners : List (Runner σ) := []
  /-- The listeners that some subscription named. -/
  listeners : List String := []
  /-- The listeners that no longer listen. -/
  deaf : List String := []
  /-- What listeners were told since they were last looked at, the latest first. -/
  heard : List (String × Route.Event) := []

/-- A worker runs from a time on until it waits.  A message or a step of its
    script takes at most eight moves, an event of its inbox one. -/
def Runner.turn (t : Time) (r : Runner Script) : Runner Script :=
  let r : Runner Script := { r with worker := { r.worker with now := t } }
  r.burst (8 * (2 * r.worker.engine.size + r.worker.inbox.length + 8))

namespace Network

variable {σ : Type}

/-- Sends an event to an inbox. -/
def deliver (n : Network σ) (d : Bus.Delivery) : Network σ :=
  match d.inbox with
  | .listener name =>
    if name ∈ n.deaf then n else { n with heard := (name, d.event) :: n.heard }
  | .worker i epoch =>
    { n with runners := n.runners.modify i fun r =>
        { r with worker := r.worker.deliver epoch (.route d.event) } }

/-- The listener that a command names. -/
def listener? : Bus.Command → Option String
  | .subscribe _ (.listener name) _ => some name
  | _ => none

/-- Carries out a command and makes its deliveries. -/
def command (n : Network σ) (c : Bus.Command) : Network σ :=
  let (bus, ds) := n.bus.step c
  ds.foldl deliver { n with bus, listeners := (listener? c).toList ++ n.listeners }

/-- A listener stops to listen; one that no subscription named so far is still to begin. -/
def dismiss (n : Network σ) (name : String) : Network σ :=
  if name ∈ n.listeners then { n with deaf := name :: n.deaf } else n

/-- Carries out the commands that a worker gave. -/
def flush (n : Network σ) (i : Nat) : Network σ :=
  match n.runners[i]? with
  | none => n
  | some r =>
    let n := { n with runners := n.runners.modify i fun r =>
      { r with worker := { r.worker with outbox := [] } } }
    r.worker.outbox.foldl command n

/-- The worker whose next move is due first, and when; the first of several. -/
def next? [Engine σ] (n : Network σ) : Option (Nat × Time) :=
  let due := n.runners.zipIdx.filterMap fun (r, i) => r.wake?.map fun t => (i, t)
  due.foldl (fun best d =>
    match best with
    | none => some d
    | some b => if d.2 < b.2 then some d else some b) none

/-- The worker in a place runs from a time on until it waits, and the bus
    carries out its commands. -/
def runWorker (n : Network Script) (i : Nat) (t : Time) : Network Script :=
  ({ n with runners := n.runners.modify i fun r => r.turn t } : Network Script).flush i

/-- Lets workers run while their moves are due before a time, at most `turns` times. -/
def runTurns (n : Network Script) (t : Time) : Nat → Network Script
  | 0 => n
  | turns + 1 =>
    match n.next? with
    | none => n
    | some (i, due) => if due < t then (n.runWorker i due).runTurns t turns else n

/-- The shortest time that a worker waits. -/
def shortestWait : Time := 100

/-- Lets workers run while their moves are due before a time. -/
def runUntil (n : Network Script) (t : Time) : Network Script :=
  let turns := n.runners.foldl (fun k r => k + (t - r.worker.now) / shortestWait + 2) 0
  n.runTurns t turns

/-- Asks a worker to stop from a time on. -/
def stopRunner (t : Time) (r : Runner σ) : Runner σ :=
  { r with worker := { r.worker with stop := r.worker.stop.raiseAt t } }

/-- Asks every worker to stop from a time on, and lets them run to their ends:
    none waits for longer than a poll once it is asked, or runs before it begins. -/
def stopAll (n : Network Script) (t : Time) : Network Script :=
  let n := { n with runners := n.runners.map fun r => stopRunner t r }
  let last := n.runners.foldl (fun last r => max last r.worker.now) t
  n.runUntil (last + Worker.pollTimeout + 1)

end Network

end RouteExchange
