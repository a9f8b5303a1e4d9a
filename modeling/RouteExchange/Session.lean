/-
  The states of a session with a peer.
-/

namespace RouteExchange

/-- The state of a session, for the worker and for the engine that drives it. -/
inductive SessionState where
  | idle
  | active
  | connect
  | openSent
  | openConfirm
  | established
deriving DecidableEq, Repr

namespace SessionState

instance : Inhabited SessionState := ⟨idle⟩

/-- All states, in the order a session usually passes them. -/
def all : List SessionState := [idle, active, connect, openSent, openConfirm, established]

/-- The name of a state. -/
def name : SessionState → String
  | idle => "Idle"
  | active => "Active"
  | connect => "Connect"
  | openSent => "OpenSent"
  | openConfirm => "OpenConfirm"
  | established => "Established"

end SessionState

end RouteExchange
