/-
  A worker that runs: sessions with the peer, one after another, until it is
  stopped.

  A `Runner` is a worker and the `Phase` it is in.  `Runner.step` is its next
  move, and `Runner.wake?` the time at which that move is due; between two moves
  anything else may happen.  In a session the worker waits for a message, reads
  it, handles all events of its inbox, and looks at its timers.  After a session
  or an attempt that failed it cleans up and pauses before the next attempt; it
  ends after a fatal error, or once it sees that a stop is asked for.
-/
import RouteExchange.Worker.Attempt
import RouteExchange.Worker.Receive
import RouteExchange.Worker.Send

namespace RouteExchange

/-- The timers of a session: its hold time in seconds, when the peer was last
    heard, and when the last KEEPALIVE was sent. -/
structure Timers where
  hold : Nat
  heard : Time
  kept : Time
deriving DecidableEq, Repr

namespace Timers

/-- The timers of a session that begins. -/
def start (hold : UInt16) (now : Time) : Timers := ⟨hold.toNat, now, now⟩

/-- The peer was not heard for the hold time. -/
def expired (t : Timers) (now : Time) : Bool :=
  decide (0 < t.hold ∧ t.heard + 1000 * t.hold ≤ now)

/-- The last KEEPALIVE was sent a third of the hold time ago. -/
def keepaliveDue (t : Timers) (now : Time) : Bool :=
  decide (0 < t.hold ∧ 3 * t.kept + 1000 * t.hold ≤ 3 * now)

end Timers

/-- How a session ends without an error. -/
inductive SessionEnd where
  | stopped
  | reconnect
deriving DecidableEq, Repr

/-- Where a running worker stands. -/
inductive Phase where
  /-- There is no session. -/
  | between
  /-- A session is being opened. -/
  | connecting (a : Attempt)
  /-- The worker is about to wait for a message. -/
  | polling (t : Timers)
  /-- The worker waits for a message until a time. -/
  | waiting (deadline : Time) (t : Timers)
  /-- The worker handles the events of its inbox. -/
  | draining (t : Timers)
  /-- The worker is about to look at its timers. -/
  | checking (t : Timers)
  /-- The worker pauses until a time, or until it is stopped. -/
  | pausing (deadline : Time)
  /-- The worker has ended. -/
  | finished (result : Except WorkerError Unit)

/-- A worker that runs. -/
structure Runner (σ : Type) where
  worker : Worker σ
  phase : Phase

namespace Runner

variable {σ : Type} [Engine σ]

/-- The worker begins to run. -/
def start (w : Worker σ) : Runner σ := ⟨w.log .info "Starting peer worker", .between⟩

/-- The worker ends because it is stopped. -/
def finish (w : Worker σ) : Runner σ :=
  ⟨w.stopAndClean.log .info "Peer worker stopped", .finished (.ok ())⟩

/-- The worker cleans up and pauses. -/
def retry (w : Worker σ) : Runner σ :=
  let w := w.stopAndClean
  ⟨w, .pausing (w.now + w.config.retryDelay)⟩

/-- What follows the end of a session or of an attempt. -/
def conclude (w : Worker σ) : Except WorkerError SessionEnd → Runner σ
  | .ok .stopped | .error .stopped => finish w
  | .ok .reconnect => retry w
  | .error e =>
    if e.isFatal then
      ⟨(w.log .error ("Session failed: " ++ e.message)).stopAndClean, .finished (.error e)⟩
    else retry (w.log .warn ("Session failed, retrying: " ++ e.message))

/-- What follows a move of an attempt: the session, where it succeeded. -/
def afterAttempt (w : Worker σ) : Attempt → Runner σ
  | .ended (.ok ()) =>
    let w := w.toEstablished.log .info "Session established"
    ⟨w, .polling (.start w.holdTime w.now)⟩
  | .ended (.error e) => conclude w (.error e)
  | a => ⟨w, .connecting a⟩

/-- What follows the reading of a message. -/
def afterRead (t : Timers) (w : Worker σ) : Except WorkerError Outcome → Runner σ
  | .ok .again => ⟨w, .draining t⟩
  | .ok .reconnect => conclude w (.ok .reconnect)
  | .error e => conclude w (.error e)

/-- Handles the next event of the inbox; without one the timers are next. -/
def drain (t : Timers) (w : Worker σ) : Runner σ :=
  match w.nextEvent with
  | (none, w) => ⟨w, .checking t⟩
  | (some (.route e), w) => ⟨w.forward e, .draining t⟩
  | (some .keepalive, w) | (some .update, w) => ⟨w, .draining { t with heard := w.now }⟩

/-- Looks at the timers. -/
def check (t : Timers) (w : Worker σ) : Runner σ :=
  if t.expired w.now then conclude (w.log .warn "Hold timer expired") (.ok .reconnect)
  else if t.keepaliveDue w.now then
    ⟨w.send Header.keepalive, .polling { t with kept := w.now }⟩
  else ⟨w, .polling t⟩

/-- The next move of a running worker. -/
def step (r : Runner σ) : Runner σ :=
  let w := r.worker
  match r.phase with
  | .between => if w.stopping then finish w else ⟨w.beginAttempt, .connecting .asking⟩
  | .connecting a => afterAttempt (w.attemptStep a).1 (w.attemptStep a).2
  | .polling t =>
    if w.stopping then conclude w (.ok .stopped)
    else
      match w.waitEnd? with
      | none => conclude w (.error Worker.noConnection)
      | some u => ⟨w, .waiting u t⟩
  | .waiting _ t => afterRead t w.readMessage.2 w.readMessage.1
  | .draining t => drain t w
  | .checking t => check t w
  | .pausing _ => ⟨w, .between⟩
  | .finished _ => r

/-- The time at which the next move is due, while there is one.  A stop cuts the
    pause between two sessions short, and nothing else. -/
def wake? (r : Runner σ) : Option Time :=
  let w := r.worker
  match r.phase with
  | .connecting a => some (w.attemptWake a)
  | .waiting u _ => some (max w.now u)
  | .pausing u => some (w.stop.cutShort w.now (max w.now u))
  | .finished _ => none
  | _ => some w.now

/-- The next move, made when it is due. -/
def advance (r : Runner σ) : Runner σ :=
  match r.wake? with
  | none => r
  | some t => ({ r with worker := { r.worker with now := t } } : Runner σ).step

/-- The result of a run that has ended. -/
def result? (r : Runner σ) : Option (Except WorkerError Unit) :=
  match r.phase with
  | .finished result => some result
  | _ => none

/-- Moves on until the run has ended, at most `moves` times. -/
def advances (r : Runner σ) : Nat → Runner σ
  | 0 => r
  | moves + 1 =>
    match r.result? with
    | some _ => r
    | none => r.advance.advances moves

/-- Moves on until the next move is due later, or the run has ended, at most
    `moves` times. -/
def burst (r : Runner σ) : Nat → Runner σ
  | 0 => r
  | moves + 1 =>
    match r.wake? with
    | none => r
    | some t => if t ≤ r.worker.now then r.step.burst moves else r

end Runner

/-- Runs a worker over a script to its end.  There is no result where it would
    run for ever: a message or a step of the script takes at most eight moves,
    and so does a wait, of which those until a stop take 100 ms or more. -/
def Worker.run (w : Worker Script) : Option (Except WorkerError Unit) × Worker Script :=
  let wait := w.stop.moments.foldl max 0 - w.now
  let moves := 8 * (2 * w.engine.size + w.inbox.length + wait / 100 + 8)
  let r := (Runner.start w).advances moves
  (r.result?, r.worker)

end RouteExchange
