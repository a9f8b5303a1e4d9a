/-
  The moves of a running worker.

  `Runner.Moves` lists what one move can be, in terms of what the worker gives
  (`Worker.Gives`); `Runner.step_moves` says that every move is one of these.
  Nothing else about a worker that runs needs to look into `Runner.step`.
-/
import RouteExchange.Proofs.Worker.Gives
import RouteExchange.Runner

namespace RouteExchange

/-- The worker is in a session. -/
def Phase.inSession : Phase → Bool
  | .polling _ | .waiting _ _ | .draining _ | .checking _ => true
  | .between | .connecting _ | .pausing _ | .finished _ => false

namespace Runner

open Worker (Gives)

variable {σ : Type} [Engine σ]

/-- What one move from `r` to `r'` can be. -/
inductive Moves (r r' : Runner σ) : Prop
  /-- Nothing is asked of the bus. -/
  | goesOn (h : Gives r.worker [] r'.worker) (hp : r'.phase.inSession = r.phase.inSession)
  /-- A connection is opened. -/
  | begins (u : Worker σ)
    (h : Gives { r.worker with activeFamilies := [], rtcActive := false, connection := none } [] u)
    (hw : r'.worker = u.openConnection) (hp : r.phase.inSession = false)
    (hp' : r'.phase.inSession = false)
  /-- The session is established. -/
  | establishes (u : Worker σ)
    (h : Gives r.worker [] u ∨ ∃ fs, Gives (r.worker.agree fs) [] u)
    (hw : Gives u u.firstCalls r'.worker) (hp : r.phase.inSession = false)
    (hp' : r'.phase.inSession = true)
  /-- An UPDATE is handled. -/
  | hears (u : Update) (h : Gives r.worker (r.worker.updateCalls u) r'.worker)
    (hread : .read (.ok (.update u)) ∈ r'.worker.session) (hp : r.phase.inSession = true)
    (hp' : r'.phase.inSession = true)
  /-- A route event is taken from the inbox. -/
  | takes (e : Route.Event) (rest : List WorkerEvent) (hin : r.worker.inbox = .route e :: rest)
    (h : Gives { r.worker with inbox := rest } [] r'.worker) (hp : r.phase.inSession = true)
    (hp' : r'.phase.inSession = true)
  /-- The worker cleans up. -/
  | cleans (u : Worker σ) (h : Gives r.worker [] u) (hw : Gives u.stopAndClean [] r'.worker)
    (hp' : r'.phase.inSession = false)

/-- Whatever ends a session or an attempt, a clean-up follows. -/
theorem conclude_cleans {r : Runner σ} {w : Worker σ} (h : Gives r.worker [] w)
    (result : Except WorkerError SessionEnd) : Moves r (conclude w result) := by
  have hfinish : Moves r (finish w) := .cleans w h (Worker.gives_log _ _ _) rfl
  have hretry {v : Worker σ} (hv : Gives r.worker [] v) : Moves r (retry v) :=
    .cleans v hv (.refl _) rfl
  unfold conclude
  split
  · exact hfinish
  · exact hfinish
  · exact hretry h
  · split
    · exact .cleans _ (h.quiet (Worker.gives_log _ _ _)) (.refl _) rfl
    · exact hretry (h.quiet (Worker.gives_log _ _ _))

theorem moves_afterAttempt {r : Runner σ} (hp : r.phase.inSession = false) {w : Worker σ}
    {a : Attempt} (h : (Gives r.worker [] w) ∨
      a = .ended (.ok ()) ∧ ∃ fs, Gives (r.worker.agree fs) [] w) :
    Moves r (afterAttempt w a) := by
  have hestablished (h : Gives r.worker [] w ∨ ∃ fs, Gives (r.worker.agree fs) [] w) :
      Moves r (afterAttempt w (.ended (.ok ()))) :=
    .establishes w h (w.gives_toEstablished.quiet (Worker.gives_log _ _ _)) hp rfl
  rcases h with h | ⟨rfl, h⟩
  · cases a with
    | asking => exact .goesOn h hp.symm
    | backingOff t closed => exact .goesOn h hp.symm
    | ended result =>
      cases result with
      | ok => exact hestablished (Or.inl h)
      | error e => exact conclude_cleans h _
  · exact hestablished (Or.inr h)

theorem moves_afterRead {r : Runner σ} (hp : r.phase.inSession = true) (t : Timers)
    {w : Worker σ} (result : Except WorkerError Outcome) (h : Gives r.worker [] w) :
    Moves r (afterRead t w result) := by
  cases result with
  | error e => exact conclude_cleans h _
  | ok outcome =>
    cases outcome with
    | again => exact .goesOn h hp.symm
    | reconnect => exact conclude_cleans h (.ok .reconnect)

theorem moves_drain {r : Runner σ} (hp : r.phase.inSession = true) (t : Timers) :
    Moves r (drain t r.worker) := by
  have hother {e : WorkerEvent} {rest : List WorkerEvent} (hin : r.worker.inbox = e :: rest)
      (he : e.route? = none) : Gives r.worker [] { r.worker with inbox := rest } := by
    refine .of_inbox r.worker _ _ _ _ _ ?_
    simp [Worker.routes, hin, he]
  unfold drain Worker.nextEvent
  cases hin : r.worker.inbox with
  | nil => exact .goesOn (.refl _) hp.symm
  | cons e rest =>
    cases e with
    | keepalive => exact .goesOn (hother hin rfl) hp.symm
    | update => exact .goesOn (hother hin rfl) hp.symm
    | route e => exact .takes e rest hin (Worker.gives_forward _ e) hp rfl

theorem moves_check {r : Runner σ} (hp : r.phase.inSession = true) (t : Timers) :
    Moves r (check t r.worker) := by
  unfold check
  split
  · exact conclude_cleans (Worker.gives_log _ _ _) _
  · split
    · exact .goesOn (Worker.gives_send _ _) hp.symm
    · exact .goesOn (.refl _) hp.symm

/-- Every move is one of these. -/
theorem step_moves (r : Runner σ) : Moves r r.step := by
  rcases r with ⟨w, phase⟩
  cases phase with
  | between =>
    simp only [step]
    split
    · exact .cleans w (.refl w) (Worker.gives_log _ _ _) rfl
    · obtain ⟨u, hu, hw⟩ := w.beginAttempt_cases
      exact .begins u hu hw rfl rfl
  | connecting a =>
    refine moves_afterAttempt rfl ?_
    by_cases ha : ∃ result, a = .ended result
    · obtain ⟨result, rfl⟩ := ha
      exact Or.inl (.refl w)
    · rcases w.attemptStep_cases fun result h => ha ⟨result, h⟩ with ⟨n, hr, -, h⟩ | ⟨-, h⟩
      · exact Or.inr ⟨hr, n.peerFamilies, h⟩
      · exact Or.inl h
  | polling t =>
    simp only [step]
    split
    · exact conclude_cleans (.refl w) _
    · split
      · exact conclude_cleans (.refl w) _
      · exact .goesOn (.refl w) rfl
  | waiting u t =>
    rcases w.readMessage_cases with h | ⟨u, hr, h, hread⟩
    · exact moves_afterRead rfl t _ h
    · simp only [step, hr]
      exact .hears u h hread rfl rfl
  | draining t => exact moves_drain (r := ⟨w, .draining t⟩) rfl t
  | checking t => exact moves_check (r := ⟨w, .checking t⟩) rfl t
  | pausing u => exact .goesOn (.refl w) rfl
  | finished result => exact .goesOn (.refl w) rfl

end Runner

end RouteExchange
