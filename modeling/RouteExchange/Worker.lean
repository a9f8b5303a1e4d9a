/-
  The worker that keeps the session with one peer: its state, and what it does.

  A `Worker σ` is driven over an engine of type `σ`.  All it does is recorded in
  its history as `Effect`s with their times; the commands it gives the bus also
  wait in its outbox until the bus takes them.  The events it is to handle come
  to its inbox.  An inbox belongs to one session: a clean-up begins a new
  `epoch`, and what is sent to the inbox of an earlier one is lost.
-/
import RouteExchange.Bus
import RouteExchange.Config
import RouteExchange.Engine
import RouteExchange.Metrics
import RouteExchange.Worker.Error

namespace RouteExchange

/-- How much a log line matters. -/
inductive Level where
  | info
  | warn
  | error
deriving DecidableEq, Repr

def Level.name : Level → String
  | info => "INFO"
  | warn => "WARN"
  | error => "ERROR"

/-- What a worker does that can be seen from outside. -/
inductive Effect where
  /-- A command is given to the bus. -/
  | called (c : Bus.Command)
  | logged (level : Level) (text : String)
  | counted (m : Metric)
  /-- The connection of this number is opened. -/
  | opened (connection : Nat)
  /-- The connection of this number is closed. -/
  | closed (connection : Nat)
  /-- A message is read, or reading fails. -/
  | read (r : Except EngineError Message)
  /-- A route event is encoded; to nothing where that fails. -/
  | encoded (e : Route.Event) (data : Octets)
  | wrote (data : Octets)
  | refused (data : Octets)
  /-- There is no connection to write a message to. -/
  | unsent (data : Octets)

/-- An event for a worker to handle. -/
inductive WorkerEvent where
  /-- The peer sent a KEEPALIVE. -/
  | keepalive
  /-- The peer sent an UPDATE. -/
  | update
  /-- The bus tells of a route. -/
  | route (e : Route.Event)
deriving DecidableEq, Repr

/-- The worker that keeps the session with one peer. -/
structure Worker (σ : Type) where
  config : Config
  peer : Ip
  /-- The place of the worker among those on a bus. -/
  index : Nat := 0
  state : SessionState := .idle
  /-- The hold time in seconds: the negotiated one, or at first the configured one. -/
  holdTime : UInt16
  /-- The families that were negotiated. -/
  activeFamilies : List Family := []
  /-- Route target constraints were negotiated. -/
  rtcActive : Bool := false
  /-- The number of the connection that is held. -/
  connection : Option Nat := none
  /-- The number of connections opened so far. -/
  connections : Nat := 0
  /-- The events to be handled, in order. -/
  inbox : List WorkerEvent := []
  epoch : Nat := 0
  /-- The commands the bus has not yet taken, in order. -/
  outbox : List Bus.Command := []
  engine : σ
  now : Time := 0
  stop : StopSignal := {}
  /-- What was done and when, the latest first. -/
  history : List (Time × Effect) := []

namespace Worker

variable {σ : Type}

/-- A worker for a peer, before its first session. -/
def new (config : Config) (peer : Ip) (engine : σ) (index : Nat) : Worker σ :=
  { config, peer, index, holdTime := config.holdTime, engine }

/-- The name of a worker on the bus. -/
def id (w : Worker σ) : String := "peer-" ++ w.peer.text

def address (w : Worker σ) : Inbox := .worker w.index w.epoch

def stopping (w : Worker σ) : Bool := w.stop.raised w.now

/-! ## Effects -/

def emit (w : Worker σ) (e : Effect) : Worker σ := { w with history := (w.now, e) :: w.history }

def log (w : Worker σ) (level : Level) (text : String) : Worker σ := w.emit (.logged level text)

def count (w : Worker σ) (m : Metric) : Worker σ := w.emit (.counted m)

def call (w : Worker σ) (c : Bus.Command) : Worker σ :=
  { w with outbox := w.outbox ++ [c] }.emit (.called c)

/-- Asks the bus for routes. -/
def subscribe (w : Worker σ) (family : Family) (target : Option RouteTarget) : Worker σ :=
  w.call (.subscribe w.id w.address ⟨family, target⟩)

def enter (w : Worker σ) (s : SessionState) : Worker σ :=
  { w with state := s }.count (.state w.id s)

/-! ## The inbox -/

def enqueue (w : Worker σ) (e : WorkerEvent) : Worker σ := { w with inbox := w.inbox ++ [e] }

/-- Takes the next event from the inbox. -/
def nextEvent (w : Worker σ) : Option WorkerEvent × Worker σ :=
  match w.inbox with
  | [] => (none, w)
  | e :: es => (some e, { w with inbox := es })

/-- The bus sends an event to the inbox of an epoch; it arrives if that is the present one. -/
def deliver (w : Worker σ) (epoch : Nat) (e : WorkerEvent) : Worker σ :=
  if epoch = w.epoch then w.enqueue e else w

/-! ## The connection -/

variable [Engine σ]

/-- Closes the connection, if one is held. -/
def closeConnection (w : Worker σ) : Worker σ :=
  match w.connection with
  | none => w
  | some n => { w with connection := none, engine := Engine.close w.engine }.emit (.closed n)

/-- What is to be negotiated with the peer. -/
def neighbor (w : Worker σ) : Neighbor where
  routerId := w.config.localAddress
  localAs := w.config.localAs
  peerAs := w.config.localAs
  localAddress := .v4 w.config.localAddress
  peerAddress := w.peer
  port := w.config.port
  holdTime := w.config.holdTime
  families := w.config.offered

def openConnection (w : Worker σ) : Worker σ :=
  { w with
    connection := some w.connections
    connections := w.connections + 1
    engine := Engine.create w.neighbor w.engine }.emit (.opened w.connections)

/-- Ends the session: nothing is active, the connection is closed, the bus
    forgets the worker, and a new inbox takes the place of the old one. -/
def stopAndClean (w : Worker σ) : Worker σ :=
  let w := { w with activeFamilies := [], rtcActive := false }
  let w := (w.enter .idle).closeConnection
  let w := w.call (.cleanup w.id)
  { w with inbox := [], epoch := w.epoch + 1 }

end Worker

end RouteExchange
