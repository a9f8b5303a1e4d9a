/-
  The turns of a running worker, in any surroundings.

  `Runner.Beat` lists what one move of a session can be, with what passes on the wire
  and what becomes of the timers, and `Runner.Turn` what any move can be to the
  connection; `step_beat` and `step_turn` say that there is nothing else.  A worker
  that runs for a while is related to where it began by `Runner.Leads`: before each
  move its surroundings change and events come to its inbox.
-/
import Mathlib.Logic.Relation
import RouteExchange.Proofs.Worker.Moves
import RouteExchange.Proofs.Worker.Wire

namespace RouteExchange

/-- The timers of a session, in a session. -/
def Phase.timers? : Phase → Option Timers
  | .polling t | .waiting _ t | .draining t | .checking t => some t
  | .between | .connecting _ | .pausing _ | .finished _ => none

theorem Worker.Passes.closing {σ : Type} {w u : Worker σ} {es : List Effect}
    (h : w.Passes es u) : u.closing = w.closing := by
  rw [Worker.closing, Worker.closing, h.connection, h.now]

namespace Runner

open Worker (Gives Passes)

variable {σ : Type} [Engine σ]

/-! ## The end of a session -/

/-- The worker cleans up, and is in no session. -/
structure CleansUp (w : Worker σ) (r : Runner σ) : Prop where
  clean : r.worker.Clean
  cleaned : Worker.Cleaned w r.worker
  wire : r.worker.wire = w.wire ++ w.closing
  connections : r.worker.connections = w.connections
  now : r.worker.now = w.now
  phase : r.phase.inSession = false

/-- Log lines before and after a clean-up do not matter. -/
theorem CleansUp.of_stopAndClean {w u : Worker σ} {r : Runner σ} (hg : Gives w [] u)
    (hp : Passes w [] u) (hg' : Gives u.stopAndClean [] r.worker)
    (hp' : Passes u.stopAndClean [] r.worker) (hclean : r.worker.Clean)
    (hphase : r.phase.inSession = false) : CleansUp w r := by
  obtain ⟨-, hwire, hcount, hnow⟩ := u.stopAndClean_spec
  refine ⟨hclean, hg.cleaned hg', ?_, ?_, (hp'.now.trans hnow).trans hp.now, hphase⟩
  · rw [hp'.wire, hwire, hp.wire, hp.closing]
    simp
  · rw [hp'.connections, hcount, hp.connections]

theorem cleansUp_finish (w : Worker σ) : CleansUp w (finish w) := by
  obtain ⟨hclean, -⟩ := w.stopAndClean_spec
  exact .of_stopAndClean (.refl w) (.refl w) (Worker.gives_log _ _ _) (Worker.passes_log _ _ _)
    ⟨hclean.state, hclean.families, hclean.rtc, hclean.connection, hclean.inbox⟩ rfl

/-- Whatever ends a session or an attempt, the worker cleans up. -/
theorem cleansUp_conclude (w : Worker σ) (result : Except WorkerError SessionEnd) :
    CleansUp w (conclude w result) := by
  have hretry {u : Worker σ} (hg : Gives w [] u) (hp : Passes w [] u) : CleansUp w (retry u) :=
    .of_stopAndClean hg hp (.refl _) (.refl _) u.stopAndClean_spec.1 rfl
  unfold conclude
  split
  · exact cleansUp_finish w
  · exact cleansUp_finish w
  · exact hretry (.refl w) (.refl w)
  · split
    · exact .of_stopAndClean (w.gives_log _ _) (w.passes_log _ _) (.refl _) (.refl _)
        (Worker.stopAndClean_spec _).1 rfl
    · exact hretry (w.gives_log _ _) (w.passes_log _ _)

/-! ## The moves of a session -/

/-- What a move of a session, from a phase, can be. -/
inductive Beat (w : Worker σ) : Phase → Runner σ → Prop
  /-- The worker waits for a message. -/
  | waits {t : Timers} {u : Time} (h : w.waitEnd? = some u) : Beat w (.polling t) ⟨w, .waiting u t⟩
  /-- A message is read. -/
  | reads {t : Timers} {u : Time} {w' : Worker σ} {rs : List (Except EngineError Message)}
    (h : Passes w (rs.map .read) w') : Beat w (.waiting u t) ⟨w', .draining t⟩
  /-- The peer was heard. -/
  | hears {t : Timers} {e : WorkerEvent} {rest : List WorkerEvent} (hin : w.inbox = e :: rest)
    (he : e.route? = none) :
    Beat w (.draining t) ⟨{ w with inbox := rest }, .draining { t with heard := w.now }⟩
  /-- The peer is told of a route. -/
  | forwards {t : Timers} {e : Route.Event} {rest : List WorkerEvent} {w' : Worker σ}
    {data : Octets} {es : List Effect} (hin : w.inbox = .route e :: rest)
    (h : Passes w (.encoded e data :: es) w')
    (hes : es.map Effect.sent? = if data = [] then [] else [some data])
    (hdata : data = [] ∨ Engine.encode (Worker.updateFor e) w.engine = .ok data) :
    Beat w (.draining t) ⟨w', .draining t⟩
  /-- The inbox is empty. -/
  | drains {t : Timers} (hin : w.inbox = []) : Beat w (.draining t) ⟨w, .checking t⟩
  /-- A KEEPALIVE is sent. -/
  | keeps {t : Timers} {w' : Worker σ} {e : Effect} (hdue : t.keepaliveDue w.now = true)
    (he : e.sent? = some Header.keepalive) (h : Passes w [e] w') :
    Beat w (.checking t) ⟨w', .polling { t with kept := w.now }⟩
  /-- No timer has run out. -/
  | passes {t : Timers} (hdue : t.keepaliveDue w.now = false) : Beat w (.checking t) ⟨w, .polling t⟩
  /-- The session ends. -/
  | ends {p : Phase} {u : Worker σ} {rs : List (Except EngineError Message)} {r : Runner σ}
    (h : Passes w (rs.map .read) u) (hg : Gives w [] u) (hc : CleansUp u r) : Beat w p r

theorem Beat.of_conclude {w u : Worker σ} (p : Phase) (h : Passes w [] u) (hg : Gives w [] u)
    (result : Except WorkerError SessionEnd) : Beat w p (conclude u result) :=
  have hread : Passes w (List.map .read []) u := h
  .ends hread hg (cleansUp_conclude u result)

theorem beat_afterRead (w : Worker σ) (u : Time) (t : Timers) :
    Beat w (.waiting u t) (afterRead t w.readMessage.2 w.readMessage.1) := by
  obtain ⟨rs, h⟩ := w.passes_readMessage
  have hends (hr : w.readMessage.1 ≠ .ok .again) (result : Except WorkerError SessionEnd) :
      Beat w (.waiting u t) (conclude w.readMessage.2 result) := by
    rcases w.readMessage_cases with hg | ⟨_, hagain, -⟩
    · exact .ends h hg (cleansUp_conclude _ result)
    · exact absurd hagain hr
  rcases hr : w.readMessage.1 with e | outcome
  · exact hends (by simp [hr]) _
  · cases outcome with
    | again => exact .reads h
    | reconnect => exact hends (by simp [hr]) (.ok .reconnect)

theorem beat_drain (w : Worker σ) (t : Timers) : Beat w (.draining t) (drain t w) := by
  unfold drain Worker.nextEvent
  cases hin : w.inbox with
  | nil => exact .drains hin
  | cons e rest =>
    cases e with
    | keepalive => exact .hears hin rfl
    | update => exact .hears hin rfl
    | route e =>
      obtain ⟨data, es, h, hes, hdata⟩ := Worker.passes_forward { w with inbox := rest } e
      have hrest : Passes w [] { w with inbox := rest } := .of_history rfl rfl rfl rfl
      exact .forwards hin (hrest.after h) hes hdata

theorem beat_check (w : Worker σ) (t : Timers) : Beat w (.checking t) (check t w) := by
  unfold check
  split
  · exact .of_conclude _ (w.passes_log _ _) (w.gives_log _ _) _
  · split
    · next hdue =>
      obtain ⟨e, he, -, h⟩ := w.passes_send Header.keepalive
      exact .keeps hdue he h
    · next hdue => exact .passes (Bool.eq_false_iff.2 hdue)

/-- Every move of a session is one of these. -/
theorem step_beat (w : Worker σ) {p : Phase} (hp : p.inSession = true) :
    Beat w p (step ⟨w, p⟩) := by
  cases p with
  | polling t =>
    simp only [step]
    split
    · exact .of_conclude _ (.refl w) (.refl w) _
    · split
      · exact .of_conclude _ (.refl w) (.refl w) _
      · next u hu => exact .waits hu
  | waiting u t => exact beat_afterRead w u t
  | draining t => exact beat_drain w t
  | checking t => exact beat_check w t
  | between => cases hp
  | connecting a => cases hp
  | pausing u => cases hp
  | finished result => cases hp

/-! ## All moves -/

/-- What one move from `r` to `r'` can be to the connection. -/
inductive Turn (r r' : Runner σ) : Prop
  /-- The worker goes on with the connection that it holds. -/
  | goesOn {es : List Effect} (h : Passes r.worker es r'.worker) (hp : r'.result? = r.result?)
  /-- A connection is opened. -/
  | begins (hw : r'.worker = r.worker.beginAttempt) (hp : r'.result? = none)
  /-- The worker cleans up. -/
  | cleansUp {es : List Effect} {u : Worker σ} (h : Passes r.worker es u)
    (hg : Gives r.worker [] u) (hc : CleansUp u r')

theorem Beat.turn {w : Worker σ} {p : Phase} {r : Runner σ} (h : Beat w p r) : Turn ⟨w, p⟩ r := by
  cases h with
  | waits => exact .goesOn (.refl w) rfl
  | reads h => exact .goesOn h rfl
  | hears => exact .goesOn (.of_history rfl rfl rfl rfl) rfl
  | forwards _ h => exact .goesOn h rfl
  | drains => exact .goesOn (.refl w) rfl
  | keeps _ _ h => exact .goesOn h rfl
  | passes => exact .goesOn (.refl w) rfl
  | ends h hg hc => exact .cleansUp h hg hc

theorem turn_connecting (w : Worker σ) (a : Attempt) :
    Turn ⟨w, .connecting a⟩ (afterAttempt (w.attemptStep a).1 (w.attemptStep a).2) := by
  have h := w.passes_attemptStep a
  -- an attempt that fails has agreed on nothing
  have hgives : (w.attemptStep a).2 ≠ .ended (.ok ()) → Gives w [] (w.attemptStep a).1 := by
    intro hne
    by_cases ha : ∃ result, a = .ended result
    · obtain ⟨result, rfl⟩ := ha
      exact .refl w
    · rcases w.attemptStep_cases fun result h => ha ⟨result, h⟩ with ⟨_, hok, -⟩ | ⟨-, hg⟩
      · exact absurd hok hne
      · exact hg
  rcases ha : (w.attemptStep a).2 with _ | ⟨deadline, closed⟩ | result
  · exact .goesOn h rfl
  · exact .goesOn h rfl
  · rcases result with e | _
    · exact .cleansUp h (hgives (by simp [ha])) (cleansUp_conclude _ _)
    · exact .goesOn ((h.quiet (Worker.passes_toEstablished _)).quiet (Worker.passes_log _ _ _)) rfl

/-- Every move is one of these. -/
theorem step_turn (r : Runner σ) : Turn r r.step := by
  rcases r with ⟨w, p⟩
  cases p with
  | between =>
    simp only [step]
    split
    · exact .cleansUp (.refl w) (.refl w) (cleansUp_finish w)
    · exact .begins rfl rfl
  | connecting a => exact turn_connecting w a
  | polling t => exact (step_beat w (p := .polling t) rfl).turn
  | waiting u t => exact (step_beat w (p := .waiting u t) rfl).turn
  | draining t => exact (step_beat w (p := .draining t) rfl).turn
  | checking t => exact (step_beat w (p := .checking t) rfl).turn
  | pausing u => exact .goesOn (.refl w) rfl
  | finished result => exact .goesOn (.refl w) rfl

/-- A move keeps the name, and what was asked of the bus before. -/
theorem step_calls (r : Runner σ) : r.step.worker.id = r.worker.id ∧
    ∃ cs, r.step.worker.calls = r.worker.calls ++ cs := by
  cases r.step_moves with
  | goesOn h _ => exact ⟨h.id, _, h.calls⟩
  | begins u h hw _ _ =>
    have hopened : Worker.Opened r.worker r.step.worker := hw ▸ h.opened
    exact ⟨hopened.id, [], hopened.calls.trans (List.append_nil _).symm⟩
  | establishes u h hw _ _ =>
    rcases h with h | ⟨fs, h⟩
    · exact ⟨hw.id.trans h.id, _, (h.trans hw).calls⟩
    · exact ⟨hw.id.trans h.id, _, (h.trans hw).calls⟩
  | hears u h _ _ _ => exact ⟨h.id, _, h.calls⟩
  | takes e rest _ h _ _ => exact ⟨h.id, _, h.calls⟩
  | cleans u h hw _ => exact ⟨(h.cleaned hw).id, _, (h.cleaned hw).calls⟩

/-! ## Runs -/

/-- The worker in other surroundings, where events have come to its inbox. -/
def amid (r : Runner σ) (s : Surroundings σ) (events : List WorkerEvent) : Runner σ :=
  ⟨{ r.worker.within s with inbox := r.worker.inbox ++ events }, r.phase⟩

/-- The worker after some moves, each in surroundings of its own and after some events
    came to its inbox. -/
def after (r : Runner σ) : List (Surroundings σ × List WorkerEvent) → Runner σ
  | [] => r
  | x :: xs => (r.amid x.1 x.2).step.after xs

/-- A move of the worker, in surroundings it is allowed in, whatever came to its inbox. -/
inductive MovesIn (allowed : Runner σ → Surroundings σ → Prop) (r : Runner σ) : Runner σ → Prop
  | intro (s : Surroundings σ) (events : List WorkerEvent) (h : allowed r s) :
    MovesIn allowed r (r.amid s events).step

/-- Any number of moves. -/
def Leads (allowed : Runner σ → Surroundings σ → Prop) : Runner σ → Runner σ → Prop :=
  Relation.ReflTransGen (MovesIn allowed)

/-- A run goes on until it has a result. -/
def Running (r : Runner σ) (_ : Surroundings σ) : Prop := r.result? = none

/-- A move that is made when it is due, in the surroundings of the move before. -/
theorem movesIn_advance {allowed : Runner σ → Surroundings σ → Prop} {r : Runner σ} {t : Time}
    (ht : r.wake? = some t) (h : allowed r ⟨r.worker.engine, t, r.worker.stop⟩) :
    MovesIn allowed r r.advance := by
  have hmove : r.advance = (r.amid ⟨r.worker.engine, t, r.worker.stop⟩ []).step := by
    simp only [advance, ht, amid, Worker.within, List.append_nil]
  exact hmove ▸ .intro _ _ h

omit [Engine σ] in
theorem result?_of_inSession {r : Runner σ} (h : r.phase.inSession = true) : r.result? = none := by
  rcases r with ⟨w, p⟩
  cases p with
  | finished result => cases h
  | _ => rfl

omit [Engine σ] in
theorem exists_wake {r : Runner σ} (h : r.result? = none) : ∃ t, r.wake? = some t := by
  rcases r with ⟨w, p⟩
  cases p with
  | finished result => cases h
  | _ => exact ⟨_, rfl⟩

/-- The moves of a script, each made when it is due. -/
theorem leads_of_advances {allowed : Runner σ → Surroundings σ → Prop} (r : Runner σ) (moves : Nat)
    (h : ∀ k < moves, (r.advances k).result? = none ∧ ∀ t, (r.advances k).wake? = some t →
      allowed (r.advances k) ⟨(r.advances k).worker.engine, t, (r.advances k).worker.stop⟩) :
    Leads allowed r (r.advances moves) := by
  induction moves generalizing r with
  | zero => exact .refl
  | succ moves ih =>
    have hrun : r.result? = none := (h 0 (Nat.succ_pos _)).1
    obtain ⟨t, ht⟩ := exists_wake hrun
    have hadvance (k : Nat) : r.advances (k + 1) = r.advance.advances k := by
      rw [advances, hrun]
    rw [hadvance]
    refine .head (movesIn_advance ht ((h 0 (Nat.succ_pos _)).2 t ht)) (ih _ fun k hk => ?_)
    exact hadvance k ▸ h (k + 1) (Nat.succ_lt_succ hk)

/-- Moves that are made when they are due, where the surroundings stay as they are. -/
theorem leads_advances_of {allowed : Runner σ → Surroundings σ → Prop}
    (h : ∀ q t, q.result? = none → allowed q ⟨q.worker.engine, t, q.worker.stop⟩) (r : Runner σ)
    (moves : Nat) : Leads allowed r (r.advances moves) := by
  induction moves generalizing r with
  | zero => exact .refl
  | succ moves ih =>
    rw [advances]
    cases hr : r.result? with
    | some result => exact .refl
    | none =>
      obtain ⟨t, ht⟩ := exists_wake hr
      exact .head (movesIn_advance ht (h r t hr)) (ih r.advance)

theorem leads_advances (r : Runner σ) (moves : Nat) : Leads Running r (r.advances moves) :=
  leads_advances_of (fun _ _ h => h) r moves

/-- A script leads a worker to where its run ends. -/
theorem leads_run (w : Worker Script) :
    ∃ r, Leads Running (start w) r ∧ w.run = (r.result?, r.worker) :=
  ⟨_, leads_advances _ _, rfl⟩

end Runner

end RouteExchange
