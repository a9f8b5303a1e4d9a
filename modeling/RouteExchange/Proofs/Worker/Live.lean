/-
  What the phase of a running worker says of it.

  In an attempt and in a session a connection is held, and in a session the worker is
  established: it is entered by `Worker.toEstablished` only, and nothing that is done in
  it changes the state.  `Runner.Live` says so, and holds of every run.
-/
import RouteExchange.Proofs.Worker.Interests
import RouteExchange.Proofs.Worker.Past

namespace RouteExchange

/-! ## What keeps the state -/

namespace Worker

variable {σ : Type} [Engine σ]

theorem state_readMessage (w : Worker σ) : w.readMessage.2.state = w.state := by
  cases hc : Engine.isConnected w.engine with
  | false => rw [readMessage_of_disconnected hc]
  | true =>
    obtain ⟨_, _, h⟩ := readMessage_snd hc
    rw [h]

end Worker

/-! ## The invariant -/

namespace Runner

variable {σ : Type}

/-- A connection is held in an attempt and in a session, and a session is established. -/
def Live (r : Runner σ) : Prop :=
  match r.phase with
  | .connecting a => r.worker.connection.isSome ∧ ∀ result, a ≠ .ended result
  | .polling _ | .waiting _ _ | .draining _ | .checking _ =>
    r.worker.connection.isSome ∧ r.worker.state = .established
  | .between | .pausing _ | .finished _ => True

theorem Live.amid {r : Runner σ} (h : r.Live) (s : Surroundings σ) (events : List WorkerEvent) :
    (r.amid s events).Live := by
  rcases r with ⟨w, phase⟩
  cases phase <;> exact h

variable [Engine σ]

theorem live_conclude (w : Worker σ) (x : Except WorkerError SessionEnd) : (conclude w x).Live := by
  unfold conclude
  split
  · exact trivial
  · exact trivial
  · exact trivial
  · split <;> exact trivial

theorem live_afterRead {t : Timers} {w : Worker σ} (hc : w.connection.isSome)
    (hs : w.state = .established) (x : Except WorkerError Outcome) : (afterRead t w x).Live := by
  cases x with
  | error e => exact live_conclude w (.error e)
  | ok o =>
    cases o with
    | again => exact ⟨hc, hs⟩
    | reconnect => exact live_conclude w (.ok .reconnect)

theorem live_afterAttempt {w : Worker σ} (hc : w.connection.isSome) (a : Attempt) :
    (afterAttempt w a).Live := by
  cases a with
  | asking => exact ⟨hc, by simp⟩
  | backingOff t closed => exact ⟨hc, by simp⟩
  | ended result =>
    cases result with
    | error e => exact live_conclude w (.error e)
    | ok => exact ⟨w.gives_toEstablished.connection ▸ hc, w.state_toEstablished⟩

theorem live_drain {t : Timers} {w : Worker σ} (hc : w.connection.isSome)
    (hs : w.state = .established) : (drain t w).Live := by
  unfold drain Worker.nextEvent
  cases w.inbox with
  | nil => exact ⟨hc, hs⟩
  | cons e rest =>
    cases e with
    | keepalive => exact ⟨hc, hs⟩
    | update => exact ⟨hc, hs⟩
    | route e =>
      have hforward := Worker.gives_forward { w with inbox := rest } e
      exact ⟨(congrArg Option.isSome hforward.connection).trans hc,
        (Worker.alike_forward _ e).state.trans hs⟩

theorem live_check {t : Timers} {w : Worker σ} (hc : w.connection.isSome)
    (hs : w.state = .established) : (check t w).Live := by
  unfold check
  split
  · exact live_conclude _ _
  · split
    · exact ⟨(w.gives_send _).connection ▸ hc, (w.alike_send _).state.trans hs⟩
    · exact ⟨hc, hs⟩

theorem live_step {r : Runner σ} (h : r.Live) : r.step.Live := by
  rcases r with ⟨w, phase⟩
  cases phase with
  | between =>
    simp only [step]
    split
    · exact trivial
    · exact ⟨by rw [w.beginAttempt_spec.2.1]; rfl, by simp⟩
  | connecting a => exact live_afterAttempt ((w.passes_attemptStep a).connection ▸ h.1) _
  | polling t =>
    simp only [step]
    split
    · exact live_conclude w _
    · split
      · exact live_conclude w _
      · exact h
  | waiting u t =>
    obtain ⟨rs, hp⟩ := w.passes_readMessage
    exact live_afterRead (hp.connection ▸ h.1) (w.state_readMessage.trans h.2) _
  | draining t => exact live_drain h.1 h.2
  | checking t => exact live_check h.1 h.2
  | pausing u => exact trivial
  | finished result => exact trivial

theorem live_of_leads {allowed : Runner σ → Surroundings σ → Prop} {w : Worker σ} {r : Runner σ}
    (h : Leads allowed (start w) r) : r.Live := by
  induction h with
  | refl => exact trivial
  | tail _ hmove ih =>
    obtain ⟨s, events, -⟩ := hmove
    exact live_step (ih.amid s events)

end Runner

end RouteExchange
