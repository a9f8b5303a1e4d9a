/-
  The attempt of a worker to open a session.

  An attempt opens a connection and asks the engine for one step after another,
  backing off after each as the engine says, until the session is established,
  the engine fails or closes the connection, or a stop is asked for.  Then the
  families to be used are those that both sides offer.  `Worker.attemptStep` is one
  move of an attempt, so that others can move in between; `Worker.connect` makes
  all the moves over a script.
-/
import RouteExchange.Engine.Script
import RouteExchange.Worker

namespace RouteExchange

/-- Where an attempt stands. -/
inductive Attempt where
  /-- The engine is about to be asked for the next step. -/
  | asking
  /-- The worker backs off until a time; then the attempt fails if the
      connection was closed. -/
  | backingOff (deadline : Time) (closed : Bool)
  /-- The attempt is over. -/
  | ended (result : Except WorkerError Unit)

/-- How long an engine is left alone after a step. -/
def Backoff.delay : Backoff → Time
  | later => 2000
  | now => 100
  | close => 0

namespace Worker

variable {σ : Type} [Engine σ]

/-- Begins an attempt: nothing is active any more, and a connection that is
    still held is closed before the new one is opened. -/
def beginAttempt (w : Worker σ) : Worker σ :=
  ({ w with rtcActive := false, activeFamilies := [] } : Worker σ).closeConnection.openConnection

/-- The code and subcode by which an engine says that the peer's OPEN did not
    arrive in time. -/
def openTimeoutCodes : UInt8 × UInt8 := (1, 1)

/-- What an error of the engine is to an attempt. -/
def attemptError : EngineError → WorkerError
  | .interrupted => .connecting "connect was interrupted"
  | .notification n =>
    if (n.code, n.subcode) = openTimeoutCodes then .openTimeout n else .notified n
  | .lostConnection text => .lostConnection text
  | e => .engine e

/-- Ends an attempt with an error of the engine. -/
def failAttempt (w : Worker σ) (e : EngineError) : Worker σ × Attempt :=
  match attemptError e with
  | .notified n =>
    (w.log .error "Notification during connection setup", .ended (.error (.notified n)))
  | e => (w, .ended (.error e))

/-- Keeps the offered families that the peer offers too, with a warning for each
    of the others. -/
def negotiateFamilies (w : Worker σ) (peerFamilies : List Family) : Worker σ :=
  let active := w.config.offered.filter fun f => peerFamilies.contains f
  let missing := w.config.offered.filter fun f => !peerFamilies.contains f
  let w := missing.foldl
    (fun w f => w.log .warn ("Peer does not support family " ++ f.text)) w
  let w := if active.isEmpty then w.log .error "No address family negotiated with peer" else w
  let w := { w with
    rtcActive := w.config.rtcEnabled && active.contains .ipv4Rtc
    activeFamilies := active }
  w.log .info "Negotiated address families"

/-- Ends an attempt whose engine says that the session is established.  There
    has to be something that was agreed. -/
def completeAttempt (w : Worker σ) : Worker σ × Attempt :=
  match Engine.negotiated w.engine with
  | none => (w, .ended (.error (.engine (.protocol "established without a negotiated context"))))
  | some n =>
    (({ w with holdTime := n.holdTime } : Worker σ).negotiateFamilies n.peerFamilies,
      .ended (.ok ()))

def attemptStep (w : Worker σ) : Attempt → Worker σ × Attempt
  | .asking =>
    match Engine.establishStep w.engine with
    | (.error e, s) => ({ w with engine := s } : Worker σ).failAttempt e
    | (.ok none, s) => ({ w with engine := s } : Worker σ).completeAttempt
    | (.ok (some step), s) =>
      (({ w with engine := s } : Worker σ).enter step.state,
        .backingOff (w.now + step.backoff.delay) (step.backoff = .close))
  | .backingOff _ closed =>
    if w.stopping then (w, .ended (.error .stopped))
    else if closed then (w, .ended (.error (.connecting "socket closed")))
    else (w, .asking)
  | .ended result => (w, .ended result)

/-- The moment at which an attempt moves on. -/
def attemptWake (w : Worker σ) : Attempt → Time
  | .backingOff deadline _ => max w.now deadline
  | _ => w.now

/-- Enters the established state and asks the bus for routes: for route target
    constraints where these were negotiated, since they will say what else the
    peer wants, and otherwise for all routes of the active families. -/
def toEstablished (w : Worker σ) : Worker σ :=
  let w := w.enter .established
  if w.rtcActive then w.subscribe .ipv4Rtc none
  else w.activeFamilies.foldl (fun w f => w.subscribe f none) w

end Worker

/-! ## Attempts over a script -/

/-- How many moves an attempt still has, besides those for the steps of the script. -/
def Attempt.weight : Attempt → Nat
  | ended _ => 0
  | asking => 1
  | backingOff _ _ => 2

namespace Worker

/-- Writing log lines leaves the engine alone. -/
theorem engine_foldl_log {σ α : Type} (text : α → String) (xs : List α) (w : Worker σ) :
    (xs.foldl (fun w x => w.log .warn (text x)) w).engine = w.engine := by
  induction xs generalizing w with
  | nil => rfl
  | cons x xs ih => rw [List.foldl_cons, ih]; rfl

/-- Choosing the families leaves the engine alone. -/
theorem engine_negotiateFamilies {σ : Type} (w : Worker σ) (fs : List Family) :
    (w.negotiateFamilies fs).engine = w.engine := by
  simp only [negotiateFamilies, log, emit]
  split <;> exact engine_foldl_log _ _ w

/-- A failure of the engine ends the attempt, and leaves the engine as it was. -/
theorem failAttempt_ended {σ : Type} (w : Worker σ) (e : EngineError) :
    (w.failAttempt e).1.engine = w.engine ∧ ∃ r, (w.failAttempt e).2 = .ended r := by
  unfold failAttempt
  split <;> exact ⟨rfl, _, rfl⟩

/-- An established session ends the attempt, and leaves the engine as it was. -/
theorem completeAttempt_ended {σ : Type} [Engine σ] (w : Worker σ) :
    w.completeAttempt.1.engine = w.engine ∧ ∃ r, w.completeAttempt.2 = .ended r := by
  unfold completeAttempt
  split
  · exact ⟨rfl, _, rfl⟩
  · exact ⟨engine_negotiateFamilies _ _, _, rfl⟩

/-- A move that asks for a step uses one up, or ends the attempt. -/
theorem weight_asking (w : Worker Script) :
    2 * (w.attemptStep .asking).1.engine.steps.length + (w.attemptStep .asking).2.weight <
      2 * w.engine.steps.length + 1 := by
  unfold attemptStep
  cases hs : w.engine.steps with
  | nil =>
    obtain ⟨he, r, hr⟩ := completeAttempt_ended w
    simp [Engine.establishStep, Script.establishStep, hs, he, hr, Attempt.weight]
  | cons x xs =>
    cases x with
    | error e =>
      obtain ⟨he, r, hr⟩ := failAttempt_ended { w with engine := { w.engine with steps := xs } } e
      simp only [Engine.establishStep, Script.establishStep, hs, he, hr, Attempt.weight,
        List.length_cons]
      omega
    | ok step =>
      simp only [Engine.establishStep, Script.establishStep, hs, enter, count, emit,
        Attempt.weight, List.length_cons]
      omega

/-- A move that ends a back-off asks for the next step, or ends the attempt. -/
theorem weight_backingOff (w : Worker Script) (t : Time) (closed : Bool) :
    2 * (w.attemptStep (.backingOff t closed)).1.engine.steps.length +
        (w.attemptStep (.backingOff t closed)).2.weight < 2 * w.engine.steps.length + 2 := by
  unfold attemptStep
  grind [Attempt.weight]

/-- Makes the moves of an attempt over a script, each when it is due. -/
def finishAttempt (w : Worker Script) (a : Attempt) : Except WorkerError Unit × Worker Script :=
  match a with
  | .ended result => (result, w)
  | .asking => finishAttempt (w.attemptStep .asking).1 (w.attemptStep .asking).2
  | .backingOff t closed =>
    let due : Worker Script := { w with now := max w.now t }
    finishAttempt (due.attemptStep (.backingOff t closed)).1
      (due.attemptStep (.backingOff t closed)).2
termination_by 2 * w.engine.steps.length + a.weight
decreasing_by
  · exact weight_asking w
  · exact weight_backingOff { w with now := max w.now t } t closed

/-- Opens a connection and negotiates the active families. -/
def connect (w : Worker Script) : Except WorkerError Unit × Worker Script :=
  w.beginAttempt.finishAttempt .asking

end Worker

end RouteExchange
