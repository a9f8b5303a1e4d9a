/-
  What a script records of the worker that uses it.

  A script keeps a record of its own: what was written to it, with whom connections were
  opened, and how often one was closed.  `Script.Use.add` says what an effect adds to that
  record, and `Worker.Uses` that what a worker logs of its connection adds up to what its
  script records.  That holds of each thing that a worker does, and so of whatever is asked
  of it (`Worker.record_agrees_with_log`).
-/
import RouteExchange.Proofs.Worker.Notes
import RouteExchange.Proofs.Worker.Past
import RouteExchange.Proofs.Worker.Teardown

namespace RouteExchange

/-- The message that an effect writes, where that succeeds. -/
def Effect.accepted? : Effect → Option Octets
  | wrote data => some data
  | _ => none

/-! ## The record of a script -/

namespace Script

/-- What a script records of its use. -/
structure Use where
  written : List Octets
  neighbors : List Neighbor
  closes : Nat

def use (s : Script) : Use := ⟨s.written, s.neighbors, s.closes⟩

/-- The record after an effect of a worker that opens connections to the neighbor `n`. -/
def Use.add (n : Neighbor) (u : Use) : Effect → Use
  | .wrote data => { u with written := data :: u.written }
  | .opened _ => { u with neighbors := u.neighbors ++ [n] }
  | .closed _ => { u with closes := u.closes + 1 }
  | _ => u

/-- The record after several effects. -/
def Use.replay (n : Neighbor) (es : List (Time × Effect)) (u : Use) : Use :=
  es.foldl (fun u x => u.add n x.2) u

theorem Use.replay_append (n : Neighbor) (es fs : List (Time × Effect)) (u : Use) :
    u.replay n (es ++ fs) = (u.replay n es).replay n fs := List.foldl_append

theorem Use.replay_eq (n : Neighbor) (es : List (Time × Effect)) (u : Use) : u.replay n es =
    ⟨(es.filterMap fun x => x.2.accepted?).reverse ++ u.written,
      u.neighbors ++ List.replicate (openings es).length n, u.closes + (closings es).length⟩ := by
  induction es generalizing u with
  | nil => simp [replay, openings, closings]
  | cons x es ih =>
    rcases x with ⟨t, e⟩
    rw [show u.replay n ((t, e) :: es) = (u.add n e).replay n es from rfl, ih]
    cases e <;> simp [add, openings, closings, Effect.accepted?, Effect.opened?, Effect.closed?,
      List.replicate_succ]
    omega

/-- Taking a step towards the session is not recorded. -/
theorem use_establishStep (s : Script) : s.establishStep.2.use = s.use := by
  unfold establishStep
  split <;> rfl

theorem use_read (s : Script) : s.read.2.use = s.use := by
  unfold read
  split <;> rfl

/-- What is written is recorded, and what is refused is not. -/
theorem write_cases (data : Octets) (s : Script) : (∃ e, s.write data = (.error e, s)) ∨
    s.write data = (.ok (), { s with written := data :: s.written }) := by
  unfold write
  split
  · exact .inl ⟨_, rfl⟩
  · exact .inr rfl

end Script

/-! ## What a worker adds -/

namespace Worker

theorem Gives.neighbor {σ : Type} {w u : Worker σ} {cs : List Bus.Command} (h : Gives w cs u) :
    u.neighbor = w.neighbor := by
  simp only [Worker.neighbor, h.config, h.peer]

/-- What the worker logs of its connection adds up to what its script records. -/
structure Uses (w w' : Worker Script) : Prop where
  neighbor : w'.neighbor = w.neighbor
  log : ∃ es, w'.wire = w.wire ++ es ∧ w'.engine.use = w.engine.use.replay w.neighbor es

namespace Uses

variable {w u v : Worker Script} {es : List Effect}

theorem trans (h : Uses w u) (h' : Uses u v) : Uses w v := by
  obtain ⟨es, hes, huse⟩ := h.log
  obtain ⟨fs, hfs, huse'⟩ := h'.log
  refine ⟨h'.neighbor.trans h.neighbor, es ++ fs, ?_, ?_⟩
  · rw [hfs, hes, List.append_assoc]
  · rw [huse', huse, h.neighbor, Script.Use.replay_append]

theorem of_passes (h : Passes w es u) (hn : u.neighbor = w.neighbor)
    (hu : u.engine.use = es.foldl (Script.Use.add w.neighbor) w.engine.use) : Uses w u := by
  refine ⟨hn, _, h.wire, hu.trans ?_⟩
  rw [Script.Use.replay, List.foldl_map]

/-- Nothing passes, and nothing is recorded. -/
theorem quiet (h : Passes w [] u) (hn : u.neighbor = w.neighbor)
    (hu : u.engine.use = w.engine.use) : Uses w u := of_passes h hn hu

/-- What is neither logged nor recorded by the script does not matter. -/
theorem of_history (hn : u.neighbor = w.neighbor) (hh : u.history = w.history)
    (hu : u.engine.use = w.engine.use) : Uses w u := by
  refine ⟨hn, [], ?_, hu⟩
  rw [wire, hh, List.append_nil, wire]

theorem refl (w : Worker Script) : Uses w w := of_history rfl rfl rfl

end Uses

section
variable (w : Worker Script)

theorem uses_log (level : Level) (text : String) : Uses w (w.log level text) :=
  .quiet (w.passes_log level text) rfl rfl

theorem uses_count (m : Metric) : Uses w (w.count m) := .quiet (w.passes_count m) rfl rfl

theorem uses_closeConnection : Uses w w.closeConnection := by
  unfold closeConnection
  split
  · exact .refl w
  · exact ⟨rfl, [_], wire_emit _ rfl, rfl⟩

theorem uses_openConnection : Uses w w.openConnection := ⟨rfl, [_], wire_emit _ rfl, rfl⟩

theorem uses_reset : Uses w { w with rtcActive := false, activeFamilies := [] } :=
  .of_history rfl rfl rfl

theorem uses_beginAttempt : Uses w w.beginAttempt :=
  (w.uses_reset.trans (uses_closeConnection _)).trans (uses_openConnection _)

theorem uses_attemptStep (a : Attempt) : Uses w (w.attemptStep a).1 := by
  have hneighbor : (w.attemptStep a).1.neighbor = w.neighbor := by
    by_cases ha : ∃ result, a = .ended result
    · obtain ⟨result, rfl⟩ := ha
      rfl
    · rcases w.attemptStep_cases fun result h => ha ⟨result, h⟩ with ⟨n, -, -, h⟩ | ⟨-, h⟩
      · exact h.neighbor
      · exact h.neighbor
  refine .quiet (w.passes_attemptStep a) hneighbor ?_
  cases a with
  | asking =>
    have huse := w.engine.use_establishStep
    rcases hstep : w.engine.establishStep with ⟨r, s⟩
    rw [hstep] at huse
    simp only [attemptStep, Engine.establishStep, hstep]
    cases r with
    | error e =>
      exact (congrArg Script.use (failAttempt_ended { w with engine := s } e).1).trans huse
    | ok step =>
      cases step with
      | none =>
        exact (congrArg Script.use (completeAttempt_ended { w with engine := s }).1).trans huse
      | some step => exact huse
  | backingOff t closed =>
    simp only [attemptStep]
    split
    · rfl
    · split <;> rfl
  | ended r => rfl

theorem uses_toEstablished : Uses w w.toEstablished := by
  have hpasses := w.passes_toEstablished
  obtain ⟨outbox, history, h⟩ := w.toEstablished_eq
  rw [h] at hpasses ⊢
  exact .quiet hpasses rfl rfl

theorem uses_publish (kind : Route.Kind) (route : Route) : Uses w (w.publish kind route) := by
  have hpasses := w.passes_publish kind route
  obtain ⟨outbox, history, h⟩ := w.notes_publish kind route
  rw [h] at hpasses ⊢
  exact .quiet hpasses rfl rfl

theorem uses_readMessage : Uses w w.readMessage.2 := by
  obtain ⟨rs, hpasses⟩ := w.passes_readMessage
  cases hc : Engine.isConnected w.engine with
  | false =>
    rw [readMessage_of_disconnected hc]
    exact .refl w
  | true =>
    obtain ⟨outbox, history, h⟩ := readMessage_snd hc
    rw [h] at hpasses ⊢
    refine .of_passes hpasses rfl (w.engine.use_read.trans ?_)
    have hnone : (rs.map Effect.read).foldl (Script.Use.add w.neighbor) w.engine.use =
        w.engine.use := by
      rw [List.foldl_map]
      exact List.foldlRecOn rs _ (motive := fun u => u = w.engine.use) rfl fun _ h _ _ => h
    exact hnone.symm

theorem uses_send (data : Octets) : Uses w (w.send data) := by
  unfold send
  split
  · have hemit : Uses w (w.emit (.unsent data)) := ⟨rfl, [_], wire_emit _ rfl, rfl⟩
    exact (hemit.trans (uses_log _ _ _)).trans (uses_count _ _)
  · rcases Script.write_cases data w.engine with ⟨e, he⟩ | hok
    · rw [show Engine.write data w.engine = (.error e, w.engine) from he]
      have hemit : Uses w (w.emit (.refused data)) := ⟨rfl, [_], wire_emit _ rfl, rfl⟩
      exact (hemit.trans (uses_log _ _ _)).trans (uses_count _ _)
    · have hemit : Uses w (({ w with
          engine := { w.engine with written := data :: w.engine.written } } :
          Worker Script).emit (.wrote data)) := ⟨rfl, [_], wire_emit _ rfl, rfl⟩
      rw [show Engine.write data w.engine = _ from hok]
      exact hemit.trans (uses_count _ _)

theorem uses_encodeEvent (e : Route.Event) : Uses w (w.encodeEvent e).2 := by
  have hemit (v : Worker Script) (data : Octets) : Uses v (v.emit (.encoded e data)) :=
    ⟨rfl, [_], wire_emit _ rfl, rfl⟩
  have hfail (text : String) : Uses w (w.encodeFailed e text).2 :=
    ((w.uses_log _ _).trans (uses_count _ _)).trans (hemit _ _)
  unfold encodeEvent
  split
  · exact hfail _
  · split
    · exact hemit _ _
    · exact hfail _

theorem uses_forward (e : Route.Event) : Uses w (w.forward e) := by
  rw [forward_eq]
  split
  · exact w.uses_encodeEvent e
  · exact (w.uses_encodeEvent e).trans (uses_send _ _)

theorem uses_stopAndClean : Uses w w.stopAndClean := by
  have henter (v : Worker Script) : Uses v (v.enter .idle) := .quiet (v.passes_enter _) rfl rfl
  have hcall (v : Worker Script) : Uses v (v.call (.cleanup v.id)) :=
    .quiet (v.passes_call _) rfl rfl
  have hinbox (v : Worker Script) : Uses v { v with inbox := [], epoch := v.epoch + 1 } :=
    .of_history rfl rfl rfl
  exact (((w.uses_reset.trans (henter _)).trans (uses_closeConnection _)).trans (hcall _)).trans
    (hinbox _)

end

end Worker

/-! ## A run -/

namespace Runner

open Worker (Uses)

section
variable (w : Worker Script)

theorem uses_finish : Uses w (finish w).worker :=
  w.uses_stopAndClean.trans (Worker.uses_log _ _ _)

theorem uses_conclude (result : Except WorkerError SessionEnd) :
    Uses w (conclude w result).worker := by
  unfold conclude
  split
  · exact uses_finish w
  · exact uses_finish w
  · exact w.uses_stopAndClean
  · split
    · exact (w.uses_log _ _).trans (Worker.uses_stopAndClean _)
    · exact (w.uses_log _ _).trans (Worker.uses_stopAndClean _)

theorem uses_afterAttempt (a : Attempt) : Uses w (afterAttempt w a).worker := by
  rcases a with _ | ⟨t, closed⟩ | result
  · exact .refl w
  · exact .refl w
  · cases result with
    | ok => exact w.uses_toEstablished.trans (Worker.uses_log _ _ _)
    | error e => exact uses_conclude w _

theorem uses_afterRead (t : Timers) (result : Except WorkerError Outcome) :
    Uses w (afterRead t w result).worker := by
  cases result with
  | error e => exact uses_conclude w _
  | ok outcome =>
    cases outcome with
    | again => exact .refl w
    | reconnect => exact uses_conclude w _

theorem uses_drain (t : Timers) : Uses w (drain t w).worker := by
  have htaken (rest : List WorkerEvent) : Uses w { w with inbox := rest } := .of_history rfl rfl rfl
  unfold drain Worker.nextEvent
  cases w.inbox with
  | nil => exact .refl w
  | cons e rest =>
    cases e with
    | keepalive => exact htaken rest
    | update => exact htaken rest
    | route e => exact (htaken rest).trans (Worker.uses_forward _ e)

theorem uses_check (t : Timers) : Uses w (check t w).worker := by
  unfold check
  split
  · exact (w.uses_log _ _).trans (uses_conclude _ _)
  · split
    · exact w.uses_send _
    · exact .refl w

end

/-- In every move the log and the record of the script grow alike. -/
theorem uses_step (r : Runner Script) : Uses r.worker r.step.worker := by
  rcases r with ⟨w, p⟩
  cases p with
  | between =>
    simp only [step]
    split
    · exact uses_finish w
    · exact w.uses_beginAttempt
  | connecting a => exact (w.uses_attemptStep a).trans (uses_afterAttempt _ _)
  | polling t =>
    simp only [step]
    split
    · exact uses_conclude w _
    · split
      · exact uses_conclude w _
      · exact .refl w
  | waiting u t => exact w.uses_readMessage.trans (uses_afterRead _ t _)
  | draining t => exact uses_drain w t
  | checking t => exact uses_check w t
  | pausing u => exact .refl w
  | finished result => exact .refl w

/-- Nobody but the worker has the script record anything. -/
def Alone (r : Runner Script) (s : Surroundings Script) : Prop :=
  r.result? = none ∧ s.engine.use = r.worker.engine.use

theorem uses_of_leads {w : Worker Script} {r : Runner Script} (h : Leads Alone (start w) r) :
    Uses w r.worker := by
  induction h with
  | refl => exact w.uses_log _ _
  | @tail q _ _ hmove ih =>
    obtain ⟨s, events, -, hs⟩ := hmove
    have hamid : Uses q.worker (q.amid s events).worker := .of_history rfl rfl hs
    exact (ih.trans hamid).trans (uses_step _)

end Runner

/-! ## Whatever is asked of a worker -/

namespace Worker

section
variable (w : Worker Script)

theorem uses_finishAttempt (a : Attempt) : Uses w (w.finishAttempt a).2 := by
  fun_induction finishAttempt w a with
  | case1 w result => exact .refl w
  | case2 w ih => exact (w.uses_attemptStep _).trans ih
  | case3 w t closed due ih =>
    have hdue : Uses w due := .of_history rfl rfl rfl
    exact (hdue.trans (due.uses_attemptStep _)).trans ih

theorem uses_receiveOnce : Uses w w.receiveOnce.2 := by
  unfold receiveOnce
  split
  · exact .refl w
  · next t _ =>
    have hwait : Uses w { w with now := t } := .of_history rfl rfl rfl
    exact hwait.trans (uses_readMessage _)

end

/-- Something is asked of a worker over a script, or happens around it, while nobody else has
    the script record anything. -/
inductive Asks (w : Worker Script) : Worker Script → Prop
  | around (s : Surroundings Script) (h : s.engine.use = w.engine.use)
    (inbox : List WorkerEvent) (outbox : List Bus.Command) :
    Asks w { w.within s with inbox, outbox }
  | connects : Asks w w.connect.2
  | establishes : Asks w w.toEstablished
  | receives : Asks w w.receiveOnce.2
  | publishes (kind : Route.Kind) (route : Route) : Asks w (w.publish kind route)
  | encodes (e : Route.Event) : Asks w (w.encodeEvent e).2
  | sends (data : Octets) : Asks w (w.send data)
  | cleans : Asks w w.stopAndClean
  | runs {r : Runner Script} (h : Runner.Leads Runner.Alone (Runner.start w) r) : Asks w r.worker

theorem asks_run (w : Worker Script) : Asks w w.run.2 :=
  .runs (Runner.leads_advances_of (fun _ _ h => ⟨h, rfl⟩) _ _)

theorem Asks.uses {w v : Worker Script} (h : Asks w v) : Uses w v := by
  cases h with
  | around s h inbox outbox => exact .of_history rfl rfl h
  | connects => exact w.uses_beginAttempt.trans (uses_finishAttempt _ _)
  | establishes => exact w.uses_toEstablished
  | receives => exact w.uses_receiveOnce
  | publishes kind route => exact w.uses_publish kind route
  | encodes e => exact w.uses_encodeEvent e
  | sends data => exact w.uses_send data
  | cleans => exact w.uses_stopAndClean
  | runs h => exact Runner.uses_of_leads h

/-- **What a worker logs is what its script records.** Whatever is asked of a worker over a
    script that nobody else has record anything, in whatever order: the messages that were
    written, the connections that were opened, with the neighbor, and the number of those
    that were closed are the same in the log of the worker and in the record of the
    script. -/
theorem record_agrees_with_log {w v : Worker Script} (h : Relation.ReflTransGen Asks w v) :
    ∃ es, v.wire = w.wire ++ es ∧
      v.engine.written = (es.filterMap fun x => x.2.accepted?).reverse ++ w.engine.written ∧
      v.engine.neighbors =
        w.engine.neighbors ++ List.replicate (openings es).length w.neighbor ∧
      v.engine.closes = w.engine.closes + (closings es).length := by
  have huses : Uses w v := by
    induction h with
    | refl => exact .refl w
    | tail _ hasks ih => exact ih.trans hasks.uses
  obtain ⟨es, hes, huse⟩ := huses.log
  rw [Script.Use.replay_eq] at huse
  refine ⟨es, hes, ?_, ?_, ?_⟩
  · exact congrArg Script.Use.written huse
  · exact congrArg Script.Use.neighbors huse
  · exact congrArg Script.Use.closes huse

end Worker

end RouteExchange
