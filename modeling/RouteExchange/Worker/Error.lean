/-
  What ends a session or an attempt to open one.

  An error is fatal (`WorkerError.isFatal`) when the worker gives up; after the
  others it tries again.
-/
import RouteExchange.Engine.Error
import RouteExchange.Route
import RouteExchange.Session

namespace RouteExchange

/-- What ends a session or an attempt to open one. -/
inductive WorkerError where
  /-- The worker was asked to stop. -/
  | stopped
  /-- No connection could be opened. -/
  | connecting (text : String)
  /-- The peer's OPEN did not arrive in time. -/
  | openTimeout (n : Notification)
  | lostConnection (text : String)
  /-- A NOTIFICATION ended the attempt. -/
  | notified (n : Notification)
  /-- An UPDATE arrived in a state other than established. -/
  | earlyUpdate (s : SessionState)
  /-- An NLRI was neither announced nor withdrawn. -/
  | invalidAction (a : Action)
  /-- Any other error of the engine. -/
  | engine (e : EngineError)
deriving DecidableEq, Repr

namespace WorkerError

/-- The worker gives up, rather than try again. -/
def isFatal : WorkerError → Bool
  | notified _ | earlyUpdate _ | invalidAction _ | engine _ => true
  | stopped | connecting _ | openTimeout _ | lostConnection _ => false

def message : WorkerError → String
  | stopped => "worker stopped"
  | connecting text => "connection initiation failed: " ++ text
  | openTimeout n => "timed out waiting for OPEN: " ++ n.text
  | lostConnection text => "lost connection: " ++ text
  | notified n => "notification received: " ++ n.text
  | earlyUpdate s => "UPDATE received in state " ++ s.name ++ ", not Established"
  | invalidAction a => "unexpected NLRI action " ++ a.name
  | engine e => "engine error: " ++ e.message

end WorkerError

end RouteExchange
