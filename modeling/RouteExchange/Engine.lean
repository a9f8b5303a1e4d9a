/-
  Engines: what speaks the protocol with one peer.

  The worker asks its engine to open a connection, to advance it until the
  session is established, to read and write messages, and to close.  `Engine σ`
  says that states of type `σ` can answer these requests.  Requests take no
  time, except for waiting until there is something to read.
-/
import RouteExchange.Clock
import RouteExchange.Engine.Error
import RouteExchange.Message
import RouteExchange.Session

namespace RouteExchange

/-- What an engine asks for before it is asked again. -/
inductive Backoff where
  /-- There is nothing to do right now. -/
  | later
  /-- There is more to do at once. -/
  | now
  /-- The connection was closed. -/
  | close
deriving DecidableEq, Repr

/-- One step towards an established session. -/
structure EstablishStep where
  state : SessionState
  backoff : Backoff
deriving DecidableEq, Repr

/-- What an engine is to negotiate, and with whom. -/
structure Neighbor where
  routerId : V4
  localAs : UInt32
  peerAs : UInt32
  localAddress : Ip
  peerAddress : Ip
  port : UInt16
  holdTime : UInt16
  families : List Family
deriving DecidableEq, Repr

/-- What was agreed with the peer: the hold time, and the OPEN it sent. -/
structure Negotiated where
  holdTime : UInt16
  peerOpen : Open
deriving DecidableEq, Repr

/-- The families the peer offered. -/
def Negotiated.peerFamilies (n : Negotiated) : List Family := n.peerOpen.families

/-- States that answer the requests of a worker. -/
class Engine (σ : Type) where
  create : Neighbor → σ → σ
  /-- Advances by one step; no step is left once the session is established. -/
  establishStep : σ → Except EngineError (Option EstablishStep) × σ
  /-- What was agreed, once the session is established. -/
  negotiated : σ → Option Negotiated
  /-- How long a wait of at most `timeout` for something to read takes. -/
  waitReadable : (timeout : Time) → σ → Time
  isConnected : σ → Bool
  read : σ → Except EngineError Message × σ
  write : Octets → σ → Except EngineError Unit × σ
  /-- The octets of an update. -/
  encode : Update → σ → Except EngineError Octets
  close : σ → σ

end RouteExchange
