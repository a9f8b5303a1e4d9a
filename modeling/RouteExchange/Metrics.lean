/-
  Counters and gauges of what workers did.

  A `Metric` is one thing to record.  A `Registry` holds the samples recorded so
  far: the gauge of session states, where exactly the current state of a peer is
  one, and counters.  Before `Registry.init` nothing is recorded.
-/
import RouteExchange.Session

namespace RouteExchange

inductive Metric where
  /-- The session with a peer entered a state. -/
  | state (peer : String) (s : SessionState)
  | sent (peer type : String)
  | received (peer type : String)
  | route (peer family kind : String)
  /-- A subscription was changed by a route target constraint. -/
  | rtc (peer family kind : String)
  /-- A message could not be encoded or written. -/
  | failed (peer stage : String)
deriving DecidableEq, Repr

/-- A sample: the values of its labels and its number. -/
structure Sample where
  labels : List String
  value : Nat
deriving DecidableEq, Repr

/-- The samples of one name.  Two samples are the same one when the values of
    their labels, written one after the other, are the same text. -/
abbrev Samples := List Sample

namespace Samples

/-- The label values written one after the other. -/
def identity (labels : List String) : String := String.join labels

/-- The samples with the one of these labels changed; a new one starts at zero. -/
def update (ss : Samples) (labels : List String) (f : Nat → Nat) : Samples :=
  match ss with
  | [] => [⟨labels, f 0⟩]
  | s :: ss =>
    if identity s.labels = identity labels then { s with value := f s.value } :: ss
    else s :: update ss labels f

/-- The number of the sample with these labels, if there is one. -/
def value? (ss : Samples) (labels : List String) : Option Nat :=
  (ss.find? fun s => identity s.labels == identity labels).map Sample.value

end Samples

/-- The samples recorded so far, where recording has begun. -/
structure Registry where
  active : Bool := false
  states : Samples := []
  sent : Samples := []
  received : Samples := []
  routes : Samples := []
  rtc : Samples := []
  failures : Samples := []
deriving DecidableEq, Repr

namespace Registry

instance : Inhabited Registry := ⟨{}⟩

def init (r : Registry) : Registry := { r with active := true }

/-- The gauges of a peer: one for its current state and zero for the others. -/
def enter (ss : Samples) (peer : String) (s : SessionState) : Samples :=
  let zeroed := SessionState.all.foldl (fun ss t => ss.update [peer, t.name] fun _ => 0) ss
  zeroed.update [peer, s.name] fun _ => 1

/-- Records one thing, where recording has begun. -/
def record (r : Registry) (m : Metric) : Registry :=
  if r.active then
    match m with
    | .state peer s => { r with states := enter r.states peer s }
    | .sent peer type => { r with sent := r.sent.update [peer, type] (· + 1) }
    | .received peer type => { r with received := r.received.update [peer, type] (· + 1) }
    | .route peer family kind => { r with routes := r.routes.update [peer, family, kind] (· + 1) }
    | .rtc peer family kind => { r with rtc := r.rtc.update [peer, family, kind] (· + 1) }
    | .failed peer stage => { r with failures := r.failures.update [peer, stage] (· + 1) }
  else r

end Registry

end RouteExchange
