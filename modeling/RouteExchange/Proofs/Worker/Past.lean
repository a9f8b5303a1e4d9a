/-
  What does not matter to what a worker does.

  A history is only ever added to: `w.withPast es` is the worker `w` that did `es`
  before all that it did, and everything a worker does commutes with that.  So a running
  worker makes the same moves, with the same effects, whatever its past
  (`Runner.step_withPast`).  Neither does it matter to later moves whether a message
  could be encoded or written: that leaves a worker `Alike` but for its engine, which is
  another one before each move anyway, and its past.
-/
import RouteExchange.Proofs.Worker.Turns

namespace RouteExchange

namespace Worker

variable {σ : Type}

/-- The worker with more that it did before. -/
def withPast (w : Worker σ) (es : List (Time × Effect)) : Worker σ :=
  { w with history := w.history ++ es }

section
variable (w : Worker σ) (es : List (Time × Effect))

@[simp] theorem config_withPast : (w.withPast es).config = w.config := rfl

@[simp] theorem state_withPast : (w.withPast es).state = w.state := rfl

@[simp] theorem rtcActive_withPast : (w.withPast es).rtcActive = w.rtcActive := rfl

@[simp] theorem connection_withPast : (w.withPast es).connection = w.connection := rfl

@[simp] theorem inbox_withPast : (w.withPast es).inbox = w.inbox := rfl

@[simp] theorem engine_withPast : (w.withPast es).engine = w.engine := rfl

@[simp] theorem now_withPast : (w.withPast es).now = w.now := rfl

@[simp] theorem stopping_withPast : (w.withPast es).stopping = w.stopping := rfl

theorem wire_withPast :
    (w.withPast es).wire = (es.reverse.filter fun x => x.2.onWire) ++ w.wire := by
  rw [wire, withPast, List.reverse_append, List.filter_append, ← wire]

end

theorem foldl_withPast {α : Type} (es : List (Time × Effect)) {f : Worker σ → α → Worker σ}
    (h : ∀ w x, f (w.withPast es) x = (f w x).withPast es) (xs : List α) (w : Worker σ) :
    xs.foldl f (w.withPast es) = (xs.foldl f w).withPast es := by
  induction xs generalizing w with
  | nil => rfl
  | cons x xs ih => rw [List.foldl_cons, List.foldl_cons, h, ih]

section
variable (w : Worker σ) (es : List (Time × Effect))

theorem nextEvent_withPast : (w.withPast es).nextEvent =
    (w.nextEvent.1, w.nextEvent.2.withPast es) := by
  cases h : w.inbox with
  | nil => simp [nextEvent, withPast, h]
  | cons e rest => simp [nextEvent, withPast, h]

/-! ## The attempt -/

theorem failAttempt_withPast (e : EngineError) : (w.withPast es).failAttempt e =
    ((w.failAttempt e).1.withPast es, (w.failAttempt e).2) := by
  unfold failAttempt
  split
  · rfl
  · rfl

theorem negotiateFamilies_withPast (fs : List Family) :
    (w.withPast es).negotiateFamilies fs = (w.negotiateFamilies fs).withPast es := by
  have hwarn := foldl_withPast es
    (f := fun u f => u.log .warn ("Peer does not support family " ++ Family.text f))
    (fun _ _ => rfl) (w.config.offered.filter fun f => !fs.contains f) w
  unfold negotiateFamilies
  simp only
  rw [config_withPast, hwarn]
  split
  · rfl
  · rfl

variable [Engine σ]

theorem completeAttempt_withPast : (w.withPast es).completeAttempt =
    (w.completeAttempt.1.withPast es, w.completeAttempt.2) := by
  unfold completeAttempt
  rw [engine_withPast]
  cases Engine.negotiated w.engine with
  | none => rfl
  | some n =>
    exact congrArg (·, Attempt.ended (.ok ()))
      (negotiateFamilies_withPast { w with holdTime := n.holdTime } es n.peerFamilies)

theorem attemptStep_withPast (a : Attempt) : (w.withPast es).attemptStep a =
    ((w.attemptStep a).1.withPast es, (w.attemptStep a).2) := by
  cases a with
  | asking =>
    rcases hstep : Engine.establishStep w.engine with ⟨r, s⟩
    have hstep' : Engine.establishStep (w.withPast es).engine = (r, s) := hstep
    simp only [attemptStep, hstep, hstep']
    cases r with
    | error e => exact failAttempt_withPast { w with engine := s } es e
    | ok step =>
      cases step with
      | none => exact completeAttempt_withPast { w with engine := s } es
      | some step => rfl
  | backingOff t closed =>
    simp only [attemptStep]
    rw [stopping_withPast]
    split
    · rfl
    · split
      · rfl
      · rfl
  | ended r => rfl

theorem closeConnection_withPast :
    (w.withPast es).closeConnection = w.closeConnection.withPast es := by
  unfold closeConnection
  rw [connection_withPast]
  cases w.connection with
  | none => rfl
  | some n => rfl

theorem beginAttempt_withPast : (w.withPast es).beginAttempt = w.beginAttempt.withPast es :=
  congrArg openConnection
    (closeConnection_withPast { w with rtcActive := false, activeFamilies := [] } es)

theorem stopAndClean_withPast : (w.withPast es).stopAndClean = w.stopAndClean.withPast es := by
  have hclosed := closeConnection_withPast
    (({ w with activeFamilies := [], rtcActive := false } : Worker σ).enter .idle) es
  exact congrArg
    (fun v : Worker σ => { v.call (.cleanup v.id) with inbox := [], epoch := v.epoch + 1 }) hclosed

end

/-! ## A session -/

section
variable (w : Worker σ) (es : List (Time × Effect))

theorem toEstablished_withPast : (w.withPast es).toEstablished = w.toEstablished.withPast es := by
  have hstart : (w.withPast es).enter .established = (w.enter .established).withPast es := rfl
  unfold toEstablished
  rw [hstart]
  generalize w.enter .established = v
  simp only
  rw [rtcActive_withPast]
  split
  · rfl
  · exact foldl_withPast es (f := fun u f => u.subscribe f none) (fun _ _ => rfl) _ v

theorem applyConstraint_withPast (kind : Route.Kind) (target : Option RouteTarget) :
    (w.withPast es).applyConstraint kind target = (w.applyConstraint kind target).withPast es := by
  unfold applyConstraint
  refine foldl_withPast es ?_ _ (w.log .info _)
  intro u f
  cases kind with
  | advertise => rfl
  | withdraw => rfl

theorem publish_withPast (kind : Route.Kind) (route : Route) :
    (w.withPast es).publish kind route = (w.publish kind route).withPast es := by
  unfold publish
  simp only
  split
  · exact applyConstraint_withPast ((w.count _).call _) es kind _
  · rfl

theorem publishUpdate_withPast (u : Update) : (w.withPast es).publishUpdate u =
    ((w.publishUpdate u).1, (w.publishUpdate u).2.withPast es) := by
  unfold publishUpdate
  cases kinds? u.nlris with
  | none => rfl
  | some ks =>
    exact congrArg (Except.ok (), ·) (foldl_withPast es (fun v x => publish_withPast v es x.1 _) ks w)

theorem handle_withPast (m : Message) : (w.withPast es).handle m =
    ((w.handle m).1, (w.handle m).2.withPast es) := by
  have hcount : (if m = .nop then w.withPast es
      else (w.withPast es).count (.received (w.withPast es).id m.name)) =
      (if m = .nop then w else w.count (.received w.id m.name)).withPast es := by
    split
    · rfl
    · rfl
  unfold handle
  simp only [hcount]
  generalize (if m = .nop then w else w.count (.received w.id m.name)) = v
  cases m with
  | update u =>
    simp only [publishUpdate_withPast]
    rw [state_withPast]
    split
    · rcases v.publishUpdate u with ⟨r, v'⟩
      cases r with
      | ok => rfl
      | error e => rfl
    · rfl
  | nop => rfl
  | keepalive => rfl
  | opening o => rfl
  | notification n => rfl
  | routeRefresh f => rfl

theorem handleFailure_withPast (e : EngineError) : (w.withPast es).handleFailure e =
    ((w.handleFailure e).1, (w.handleFailure e).2.withPast es) := by
  cases e <;> rfl

variable [Engine σ]

theorem waitEnd?_withPast : (w.withPast es).waitEnd? = w.waitEnd? := rfl

theorem readMessage_withPast : (w.withPast es).readMessage =
    (w.readMessage.1, w.readMessage.2.withPast es) := by
  unfold readMessage
  rw [engine_withPast]
  split
  · rcases Engine.read w.engine with ⟨r, s⟩
    cases r with
    | ok m => exact handle_withPast (({ w with engine := s } : Worker σ).emit (.read (.ok m))) es m
    | error e =>
      exact handleFailure_withPast (({ w with engine := s } : Worker σ).emit (.read (.error e))) es e
  · rfl

theorem send_withPast (data : Octets) :
    (w.withPast es).send data = (w.send data).withPast es := by
  unfold send
  simp only [connection_withPast, engine_withPast]
  split
  · rfl
  · rcases Engine.write data w.engine with ⟨r, s⟩
    cases r with
    | ok => rfl
    | error e => rfl

theorem encodeEvent_withPast (e : Route.Event) : (w.withPast es).encodeEvent e =
    ((w.encodeEvent e).1, (w.encodeEvent e).2.withPast es) := by
  unfold encodeEvent
  simp only [connection_withPast, engine_withPast]
  split
  · rfl
  · split
    · rfl
    · rfl

theorem forward_withPast (e : Route.Event) :
    (w.withPast es).forward e = (w.forward e).withPast es := by
  simp only [forward_eq, encodeEvent_withPast]
  split
  · rfl
  · exact send_withPast _ es _

end

/-! ## What an engine makes of a message -/

/-- The workers differ at most in their engines and in what they did. -/
def Alike (w v : Worker σ) : Prop := ∃ engine history, v = { w with engine, history }

theorem Alike.refl (w : Worker σ) : Alike w w := ⟨_, _, rfl⟩

theorem Alike.symm {w v : Worker σ} (h : Alike w v) : Alike v w := by
  obtain ⟨_, _, rfl⟩ := h
  exact ⟨w.engine, w.history, rfl⟩

theorem Alike.trans {w v u : Worker σ} (h : Alike w v) (h' : Alike v u) : Alike w u := by
  obtain ⟨_, _, rfl⟩ := h
  obtain ⟨_, _, rfl⟩ := h'
  exact ⟨_, _, rfl⟩

theorem Alike.state {w v : Worker σ} (h : Alike w v) : v.state = w.state := by
  obtain ⟨_, _, rfl⟩ := h
  rfl

section
variable [Engine σ]

/-- Whether a message can be written changes nothing else. -/
theorem alike_send (w : Worker σ) (data : Octets) : Alike w (w.send data) := by
  unfold send
  split
  · exact ⟨_, _, rfl⟩
  · split
    · exact ⟨_, _, rfl⟩
    · exact ⟨_, _, rfl⟩

/-- Whether a route event can be encoded changes nothing else. -/
theorem alike_encodeEvent (w : Worker σ) (e : Route.Event) : Alike w (w.encodeEvent e).2 := by
  unfold encodeEvent
  split
  · exact ⟨_, _, rfl⟩
  · split
    · exact ⟨_, _, rfl⟩
    · exact ⟨_, _, rfl⟩

theorem alike_forward (w : Worker σ) (e : Route.Event) : Alike w (w.forward e) := by
  rw [forward_eq]
  split
  · exact w.alike_encodeEvent e
  · exact (w.alike_encodeEvent e).trans (alike_send _ _)

theorem Alike.stopAndClean {w v : Worker σ} (h : Alike w v) :
    Alike w.stopAndClean v.stopAndClean := by
  obtain ⟨engine, history, rfl⟩ := h
  unfold Worker.stopAndClean closeConnection
  rcases w with ⟨_, _, _, _, _, _, _, connection, _, _, _, _, _, _, _, _⟩
  cases connection with
  | none => exact ⟨_, _, rfl⟩
  | some n => exact ⟨_, _, rfl⟩

end

end Worker

namespace Runner

variable {σ : Type} [Engine σ]

/-- The running worker with more that it did before. -/
def withPast (r : Runner σ) (es : List (Time × Effect)) : Runner σ :=
  ⟨r.worker.withPast es, r.phase⟩

section
variable (w : Worker σ) (es : List (Time × Effect))

theorem retry_withPast : retry (w.withPast es) = (retry w).withPast es := by
  unfold retry
  simp only [Worker.stopAndClean_withPast]
  rfl

theorem finish_withPast : finish (w.withPast es) = (finish w).withPast es := by
  unfold finish
  rw [Worker.stopAndClean_withPast]
  rfl

theorem conclude_withPast (x : Except WorkerError SessionEnd) :
    conclude (w.withPast es) x = (conclude w x).withPast es := by
  unfold conclude
  split
  · exact finish_withPast w es
  · exact finish_withPast w es
  · exact retry_withPast w es
  · next e _ =>
    split
    · exact congrArg (Runner.mk · _)
        (Worker.stopAndClean_withPast (w.log .error ("Session failed: " ++ e.message)) es)
    · exact retry_withPast (w.log .warn ("Session failed, retrying: " ++ e.message)) es

theorem afterAttempt_withPast (a : Attempt) :
    afterAttempt (w.withPast es) a = (afterAttempt w a).withPast es := by
  cases a with
  | ended result =>
    cases result with
    | error e => exact conclude_withPast w es (.error e)
    | ok =>
      simp only [afterAttempt, Worker.toEstablished_withPast]
      rfl
  | asking => rfl
  | backingOff t closed => rfl

theorem afterRead_withPast (t : Timers) (x : Except WorkerError Outcome) :
    afterRead t (w.withPast es) x = (afterRead t w x).withPast es := by
  cases x with
  | error e => exact conclude_withPast w es (.error e)
  | ok o =>
    cases o with
    | again => rfl
    | reconnect => exact conclude_withPast w es (.ok .reconnect)

theorem drain_withPast (t : Timers) : drain t (w.withPast es) = (drain t w).withPast es := by
  unfold drain
  rw [Worker.nextEvent_withPast]
  rcases w.nextEvent with ⟨e, v⟩
  cases e with
  | none => rfl
  | some e =>
    cases e with
    | route e => exact congrArg (Runner.mk · _) (Worker.forward_withPast v es e)
    | keepalive => rfl
    | update => rfl

theorem check_withPast (t : Timers) : check t (w.withPast es) = (check t w).withPast es := by
  unfold check
  rw [Worker.now_withPast]
  split
  · exact conclude_withPast (w.log .warn "Hold timer expired") es (.ok .reconnect)
  · split
    · exact congrArg (Runner.mk · _) (Worker.send_withPast w es Header.keepalive)
    · rfl

end

/-- **A move does not depend on the past.** -/
theorem step_withPast (r : Runner σ) (es : List (Time × Effect)) :
    (r.withPast es).step = r.step.withPast es := by
  rcases r with ⟨w, p⟩
  have hstop := w.stopping_withPast es
  cases p with
  | between =>
    simp only [step, withPast, hstop]
    split
    · exact finish_withPast w es
    · exact congrArg (Runner.mk · _) (w.beginAttempt_withPast es)
  | connecting a =>
    simp only [step, withPast, Worker.attemptStep_withPast]
    exact afterAttempt_withPast _ es _
  | polling t =>
    simp only [step, withPast, hstop, Worker.waitEnd?_withPast]
    split
    · exact conclude_withPast w es (.ok .stopped)
    · split
      · exact conclude_withPast w es (.error Worker.noConnection)
      · rfl
  | waiting u t =>
    simp only [step, withPast, Worker.readMessage_withPast]
    exact afterRead_withPast _ es t _
  | draining t => exact drain_withPast w es t
  | checking t => exact check_withPast w es t
  | pausing u => rfl
  | finished result => rfl

/-- The runners differ at most in their engines and in what they did. -/
def Alike (r q : Runner σ) : Prop := r.worker.Alike q.worker ∧ q.phase = r.phase

theorem alike_retry {w v : Worker σ} (h : w.Alike v) : Alike (retry w) (retry v) := by
  obtain ⟨engine, history, hv⟩ := h.stopAndClean
  unfold retry
  rw [hv]
  exact ⟨⟨engine, history, rfl⟩, rfl⟩

theorem alike_drain (w : Worker σ) (engine : σ) (t : Timers) :
    Alike (drain t w) (drain t { w with engine }) := by
  have hforward (v : Worker σ) (e : Route.Event) :
      (v.forward e).Alike (({ v with engine } : Worker σ).forward e) :=
    ((v.alike_forward e).symm.trans ⟨engine, _, rfl⟩).trans (Worker.alike_forward _ e)
  rcases w with ⟨config, peer, index, state, holdTime, activeFamilies, rtcActive, connection,
    connections, inbox, epoch, outbox, _, now, stop, history⟩
  cases inbox with
  | nil => exact ⟨⟨engine, _, rfl⟩, rfl⟩
  | cons e rest =>
    cases e with
    | keepalive => exact ⟨⟨engine, _, rfl⟩, rfl⟩
    | update => exact ⟨⟨engine, _, rfl⟩, rfl⟩
    | route e => exact ⟨hforward _ e, rfl⟩

theorem alike_check (w : Worker σ) (engine : σ) (t : Timers) :
    Alike (check t w) (check t { w with engine }) := by
  unfold check
  simp only
  split
  · have hlogged : (w.log .warn "Hold timer expired").Alike
        (({ w with engine } : Worker σ).log .warn "Hold timer expired") := ⟨engine, _, rfl⟩
    exact alike_retry hlogged
  · split
    · exact ⟨((w.alike_send _).symm.trans ⟨engine, _, rfl⟩).trans (Worker.alike_send _ _), rfl⟩
    · exact ⟨⟨engine, _, rfl⟩, rfl⟩

/-- What the engine makes of a message to be sent does not matter. -/
theorem alike_step {r : Runner σ}
    (hr : (∃ t, r.phase = .draining t) ∨ ∃ t, r.phase = .checking t) (s : Surroundings σ)
    (engine : σ) (events : List WorkerEvent) :
    Alike (r.amid s events).step (r.amid { s with engine } events).step := by
  rcases r with ⟨w, p⟩
  rcases hr with ⟨t, rfl⟩ | ⟨t, rfl⟩
  · exact alike_drain _ engine t
  · exact alike_check _ engine t

theorem after_withPast (r : Runner σ) (es : List (Time × Effect))
    (xs : List (Surroundings σ × List WorkerEvent)) :
    (r.withPast es).after xs = (r.after xs).withPast es := by
  induction xs generalizing r with
  | nil => rfl
  | cons x xs ih =>
    have hamid : (r.withPast es).amid x.1 x.2 = (r.amid x.1 x.2).withPast es := rfl
    rw [after, after, hamid, step_withPast, ih]

omit [Engine σ] in
/-- In the same surroundings they differ at most in what they did. -/
theorem Alike.amid {r q : Runner σ} (h : Alike r q) (s : Surroundings σ)
    (events : List WorkerEvent) : ∃ c : Runner σ, r.amid s events = c.withPast r.worker.history ∧
      q.amid s events = c.withPast q.worker.history := by
  obtain ⟨⟨engine, history, hq⟩, hphase⟩ := h
  rcases r with ⟨w, p⟩
  rcases q with ⟨v, p'⟩
  cases hphase
  cases hq
  exact ⟨(⟨{ w with history := [] }, p⟩ : Runner σ).amid s events, rfl, rfl⟩

/-- They stay in the same phases and exchange the same with their peers. -/
theorem Alike.after {r q : Runner σ} (h : Alike r q)
    (xs : List (Surroundings σ × List WorkerEvent)) :
    (q.after xs).phase = (r.after xs).phase ∧
    ∃ es, (r.after xs).worker.wire = r.worker.wire ++ es ∧
      (q.after xs).worker.wire = q.worker.wire ++ es := by
  cases xs with
  | nil => exact ⟨h.2, [], (List.append_nil _).symm, (List.append_nil _).symm⟩
  | cons x xs =>
    obtain ⟨c, hr, hq⟩ := h.amid x.1 x.2
    rw [Runner.after, Runner.after, hr, hq, step_withPast, step_withPast, after_withPast,
      after_withPast]
    exact ⟨rfl, _, Worker.wire_withPast _ _, Worker.wire_withPast _ _⟩

end Runner

end RouteExchange
