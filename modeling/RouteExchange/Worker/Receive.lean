/-
  What a worker does with the messages of its peer.

  A worker waits for something to read, reads one message and handles it.  The
  routes of an UPDATE are published on the bus, all or none: an UPDATE with an
  NLRI that is neither announced nor withdrawn is refused as a whole.  A route
  target constraint also changes what the worker asks the bus for.
-/
import RouteExchange.Worker

namespace RouteExchange

/-- What is to be done after a message. -/
inductive Outcome where
  | again
  /-- The session cannot go on: open a new one. -/
  | reconnect
deriving DecidableEq, Repr

namespace Worker

variable {σ : Type}

/-! ## Publishing routes -/

/-- Changes the interest in a route target, for every active family but that of
    the constraints themselves. -/
def applyConstraint (w : Worker σ) (kind : Route.Kind) (target : Option RouteTarget) : Worker σ :=
  let w := w.log .info <| match target with
    | some _ => "RTC route"
    | none => "RTC route with wildcard route target"
  (w.activeFamilies.filter fun f => !f.isRtc).foldl (fun w f =>
    let w := match kind with
      | .advertise => w.subscribe f target
      | .withdraw => w.call (.unsubscribe w.id ⟨f, target⟩)
    w.count (.rtc w.id f.text kind.name)) w

/-- Publishes or retracts a route that the peer sent. -/
def publish (w : Worker σ) (kind : Route.Kind) (route : Route) : Worker σ :=
  let w := w.count (.route w.id route.family.text kind.name)
  let w := w.call <| match kind with
    | .advertise => .advertise w.id route
    | .withdraw => .withdraw w.id route
  if route.family.isRtc then w.applyConstraint kind route.nlri.target else w

/-- The kinds of event that NLRIs make, where all are valid. -/
def kinds? : List Nlri → Option (List (Route.Kind × Nlri))
  | [] => some []
  | n :: ns =>
    match Route.Kind.ofAction? n.action, kinds? ns with
    | some k, some ks => some ((k, n) :: ks)
    | _, _ => none

/-- Publishes the routes of an UPDATE, or none of them. -/
def publishUpdate (w : Worker σ) (u : Update) : Except WorkerError Unit × Worker σ :=
  match kinds? u.nlris with
  | none => (.error (.invalidAction .unset), w)
  | some ks => (.ok (), ks.foldl (fun w (k, n) => w.publish k ⟨n, u.attributes⟩) w)

/-! ## Reading -/

/-- The longest wait for something to read. -/
def pollTimeout : Time := 2000

def handle (w : Worker σ) (m : Message) : Except WorkerError Outcome × Worker σ :=
  let w := if m = .nop then w else w.count (.received w.id m.name)
  match m with
  | .nop => (.ok .again, w)
  | .keepalive => (.ok .again, w.enqueue .keepalive)
  | .update u =>
    if w.state = .established then
      match w.publishUpdate u with
      | (.error e, w) => (.error e, w)
      | (.ok (), w) => (.ok .again, w.enqueue .update)
    else (.error (.earlyUpdate w.state), w)
  | m => (.ok .again, w.log .warn ("Unexpected " ++ m.name ++ " message from peer"))

/-- Handles a failure to read.  The session may be tried again, unless the
    engine failed in a way of its own. -/
def handleFailure (w : Worker σ) (e : EngineError) : Except WorkerError Outcome × Worker σ :=
  match e with
  | .notification _ => (.ok .reconnect, w.log .error "Received NOTIFICATION from peer")
  | .lostConnection _ => (.ok .reconnect, w.log .warn "Lost connection to peer")
  | .decode _ => (.ok .reconnect, w.log .error "Failed to decode message from peer")
  | e => (.error (.engine e), w.log .error "Error reading from peer")

variable [Engine σ]

/-- When the wait for the next message ends; there is none without a connection. -/
def waitEnd? (w : Worker σ) : Option Time :=
  w.connection.map fun _ => w.now + Engine.waitReadable pollTimeout w.engine

/-- Reads and handles a message after the wait for it. -/
def readMessage (w : Worker σ) : Except WorkerError Outcome × Worker σ :=
  if Engine.isConnected w.engine then
    match Engine.read w.engine with
    | (r, s) =>
      let w := ({ w with engine := s } : Worker σ).emit (.read r)
      match r with
      | .ok m => w.handle m
      | .error e => w.handleFailure e
  else (.error (.lostConnection "connection closed"), w)

/-- What happens where there is no connection to read from. -/
def noConnection : WorkerError := .lostConnection "no connection"

/-- Waits for a message, reads it and handles it. -/
def receiveOnce (w : Worker σ) : Except WorkerError Outcome × Worker σ :=
  match w.waitEnd? with
  | none => (.error noConnection, w)
  | some t => ({ w with now := t } : Worker σ).readMessage

end Worker

end RouteExchange
