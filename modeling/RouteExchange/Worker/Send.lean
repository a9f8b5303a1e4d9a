/-
  What a worker sends to its peer.

  A route event becomes an UPDATE with a single NLRI, whose action is that of the
  event.  A route that cannot be encoded and a message that cannot be written
  are reported and left out; the session goes on.
-/
import RouteExchange.Worker

namespace RouteExchange.Worker

variable {σ : Type} [Engine σ]

/-- The UPDATE that tells the peer of a route event. -/
def updateFor (e : Route.Event) : Update :=
  ⟨[{ e.route.nlri with action := e.kind.action }], e.route.attributes⟩

/-- Reports a route that could not be encoded. -/
def encodeFailed (w : Worker σ) (e : Route.Event) (text : String) : Octets × Worker σ :=
  ([], ((w.log .error text).count (.failed w.id "encode")).emit (.encoded e []))

/-- The octets of the UPDATE for a route event; none where that fails. -/
def encodeEvent (w : Worker σ) (e : Route.Event) : Octets × Worker σ :=
  match w.connection with
  | none => w.encodeFailed e "Cannot encode route without a connection"
  | some _ =>
    match Engine.encode (updateFor e) w.engine with
    | .ok data => (data, w.emit (.encoded e data))
    | .error err => w.encodeFailed e ("Failed to encode route: " ++ err.message)

def send (w : Worker σ) (data : Octets) : Worker σ :=
  match w.connection with
  | none =>
    ((w.emit (.unsent data)).log .error "Cannot send without a connection").count
      (.failed w.id "write")
  | some _ =>
    match Engine.write data w.engine with
    | (.ok (), s) =>
      (({ w with engine := s } : Worker σ).emit (.wrote data)).count
        (.sent w.id (Header.label data))
    | (.error e, s) =>
      ((({ w with engine := s } : Worker σ).emit (.refused data)).log .error
        ("Failed to send " ++ Header.label data ++ ": " ++ e.message)).count
          (.failed w.id "write")

/-- Tells the peer of a route event, if it can be encoded. -/
def forward (w : Worker σ) (e : Route.Event) : Worker σ :=
  match w.encodeEvent e with
  | ([], w) => w
  | (data, w) => w.send data

end RouteExchange.Worker
