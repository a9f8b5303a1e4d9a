/-
  The books of a worker.

  A worker counts what it does: each message that it writes or reads, each failure, each
  route that it publishes, and each interest that it changes because of a route target
  constraint.  `Worker.Books` says that these are balanced, in the name of the worker, and
  that the state it recorded last is the one it is in.  Each thing that a worker does keeps
  its books, and so does a run.
-/
import RouteExchange.Proofs.Worker.Ledger
import RouteExchange.Proofs.Worker.Operations

namespace RouteExchange

/-! ## The books of a worker -/

namespace Worker

variable {σ : Type}

/-- What the worker recorded, in order. -/
def metrics (w : Worker σ) : List Metric := w.history.reverse.filterMap fun x => x.2.metric?

/-- The states that the worker recorded, in order. -/
def entered (w : Worker σ) : List SessionState := w.metrics.filterMap (Metric.entered? w.id)

/-- The worker counted what it did, in its own name, and recorded its state last. -/
structure Books (w : Worker σ) : Prop where
  balanced : Balanced w.id w.history
  named : ∀ m ∈ w.metrics, m.peer = w.id
  state : ∀ s ∈ w.entered.getLast?, s = w.state

theorem metrics_of_history {w w' : Worker σ} (fs : List (Time × Effect))
    (hh : w'.history = fs ++ w.history) :
    w'.metrics = w.metrics ++ fs.reverse.filterMap fun x => x.2.metric? := by
  rw [metrics, hh, List.reverse_append, List.filterMap_append, metrics]

theorem books_new (config : Config) (peer : Ip) (engine : σ) (index : Nat) :
    Books (.new config peer engine index) := by
  refine ⟨rfl, ?_, ?_⟩
  · intro m hm
    cases hm
  · intro s hs
    cases hs

namespace Books

variable {w w' : Worker σ}

theorem congr (h : Books w) (hh : w'.history = w.history) (hid : w'.id = w.id)
    (hs : w'.state = w.state) : Books w' := by
  have hm : w'.metrics = w.metrics := by rw [metrics, hh, metrics]
  refine ⟨?_, ?_, ?_⟩
  · rw [hid, hh]
    exact h.balanced
  · rw [hm, hid]
    exact h.named
  · rw [entered, hm, hid, hs]
    exact h.state

/-- The worker goes on in the same state, and its books stay balanced. -/
theorem extend (h : Books w) (fs : List (Time × Effect)) (hh : w'.history = fs ++ w.history)
    (hid : w'.id = w.id) (hs : w'.state = w.state) (hb : Balanced w.id (fs ++ w.history))
    (hfs : ∀ x ∈ fs, ∀ m, x.2.metric? = some m → m.peer = w.id ∧ m.tick?.isSome = true) :
    Books w' := by
  have hms := metrics_of_history fs hh
  have hnew : ∀ m ∈ fs.reverse.filterMap fun x => x.2.metric?,
      m.peer = w.id ∧ m.tick?.isSome = true := by
    intro m hm
    obtain ⟨x, hx, hxm⟩ := List.mem_filterMap.1 hm
    exact hfs x (List.mem_reverse.1 hx) m hxm
  have hnone : (fs.reverse.filterMap fun x => x.2.metric?).filterMap (Metric.entered? w.id) = [] := by
    rw [List.filterMap_eq_nil_iff]
    intro m hm
    have htick := (hnew m hm).2
    cases m with
    | state p s => cases htick
    | _ => rfl
  refine ⟨?_, ?_, ?_⟩
  · rw [hid, hh]
    exact hb
  · intro m hm
    rw [hms, List.mem_append] at hm
    rw [hid]
    exact hm.elim (h.named m) fun hm => (hnew m hm).1
  · rw [entered, hms, hid, hs, List.filterMap_append, hnone, List.append_nil]
    exact h.state

theorem enter (h : Books w) (s : SessionState) : Books (w.enter s) := by
  have hms : (w.enter s).metrics = w.metrics ++ [.state w.id s] :=
    metrics_of_history [(w.now, .counted (.state w.id s))] rfl
  refine ⟨h.balanced.quiet _ rfl rfl, ?_, ?_⟩
  · intro m hm
    rw [hms, List.mem_append] at hm
    rcases hm with hm | hm
    · exact h.named m hm
    · rw [List.mem_singleton.1 hm]
      rfl
  · intro t ht
    rw [entered, hms, List.filterMap_append] at ht
    simpa [Metric.entered?, Worker.enter, count, emit, id, eq_comm] using ht

/-! ### Single effects -/

theorem emit (h : Books w) {e : Effect} (hm : e.metric? = none)
    (hd : e.due? w.id (constrained w.history) = none) : Books (w.emit e) := by
  refine h.extend [(w.now, e)] rfl rfl rfl
    (h.balanced.quiet _ (Effect.counts?_of_metric? hm) hd) ?_
  intro x hx m hxm
  rw [List.mem_singleton.1 hx, hm] at hxm
  cases hxm

theorem log (h : Books w) (level : Level) (text : String) : Books (w.log level text) :=
  h.emit rfl rfl

/-- What is to be counted is counted first. -/
theorem count_emit (h : Books w) {e : Effect} {m : Metric}
    (hd : e.due? w.id (constrained w.history) = some m) : Books ((w.count m).emit e) := by
  obtain ⟨hpeer, htick, hm⟩ := Effect.due?_spec hd
  refine h.extend [(w.now, e), (w.now, .counted m)] rfl rfl rfl
    (h.balanced.counted_first _ _ hd) ?_
  intro x hx m' hxm
  simp only [List.mem_cons, List.not_mem_nil, or_false] at hx
  rcases hx with rfl | rfl
  · rw [hm] at hxm
    cases hxm
  · cases hxm
    exact ⟨hpeer, htick⟩

/-- What is to be counted is counted next. -/
theorem emit_count (h : Books w) {e : Effect} {m : Metric}
    (hd : e.due? w.id (constrained w.history) = some m) : Books ((w.emit e).count m) := by
  obtain ⟨hpeer, htick, hm⟩ := Effect.due?_spec hd
  refine h.extend [(w.now, .counted m), (w.now, e)] rfl rfl rfl
    (h.balanced.counted_next w.now hd w.now w.now .info "").1 ?_
  intro x hx m' hxm
  simp only [List.mem_cons, List.not_mem_nil, or_false] at hx
  rcases hx with rfl | rfl
  · cases hxm
    exact ⟨hpeer, htick⟩
  · rw [hm] at hxm
    cases hxm

/-- What is to be counted is counted after a log line. -/
theorem emit_log_count (h : Books w) {e : Effect} {m : Metric}
    (hd : e.due? w.id (constrained w.history) = some m) (level : Level) (text : String) :
    Books (((w.emit e).log level text).count m) := by
  obtain ⟨hpeer, htick, hm⟩ := Effect.due?_spec hd
  refine h.extend [(w.now, .counted m), (w.now, .logged level text), (w.now, e)] rfl rfl rfl
    (h.balanced.counted_next w.now hd w.now w.now level text).2 ?_
  intro x hx m' hxm
  simp only [List.mem_cons, List.not_mem_nil, or_false] at hx
  rcases hx with rfl | rfl | rfl
  · cases hxm
    exact ⟨hpeer, htick⟩
  · cases hxm
  · rw [hm] at hxm
    cases hxm

theorem foldl {α : Type} {f : Worker σ → α → Worker σ} (hf : ∀ u x, Books u → Books (f u x))
    (h : Books w) (xs : List α) : Books (xs.foldl f w) :=
  List.foldlRecOn xs f h fun u hu x _ => hf u x hu

/-! ### Interests and routes -/

/-- Interests that no constraint changes do not count. -/
theorem subscribe (h : Books w) (hw : constrained w.history = false) (f : Family)
    (target : Option RouteTarget) : Books (w.subscribe f target) ∧
      constrained (w.subscribe f target).history = false := by
  have hnew : Books { w with outbox := w.outbox ++ [.subscribe w.id w.address ⟨f, target⟩] } :=
    h.congr rfl rfl rfl
  refine ⟨hnew.emit rfl ?_, hw⟩
  simp [Effect.due?, hw]

theorem toEstablished (h : Books w) : Books w.toEstablished := by
  have hentered := h.enter .established
  have hnone : constrained (w.enter .established).history = false := rfl
  unfold Worker.toEstablished
  simp only
  generalize w.enter .established = v at hentered hnone ⊢
  split
  · exact (hentered.subscribe hnone _ _).1
  · refine (List.foldlRecOn v.activeFamilies _
      (motive := fun u : Worker σ => Books u ∧ constrained u.history = false)
      ⟨hentered, hnone⟩ fun u hu f _ => hu.1.subscribe hu.2 f none).1

/-- A constraint came last: each change of an interest counts. -/
theorem applyConstraint (h : Books w) (hw : constrained w.history = true) (kind : Route.Kind)
    (target : Option RouteTarget) : Books (w.applyConstraint kind target) := by
  have hcall {u : Worker σ} (hu : Books u) (c : Bus.Command) {m : Metric}
      (hd : (Effect.called c).due? u.id (constrained u.history) = some m) :
      Books ((u.call c).count m) := by
    have hnew : Books { u with outbox := u.outbox ++ [c] } := hu.congr rfl rfl rfl
    exact hnew.emit_count hd
  unfold Worker.applyConstraint
  refine (List.foldlRecOn _ _
    (motive := fun u : Worker σ => Books u ∧ constrained u.history = true)
    ⟨h.log _ _, hw⟩ fun u hu f _ => ?_).1
  cases kind with
  | advertise => exact ⟨hcall hu.1 _ (by rw [hu.2]; rfl), hu.2⟩
  | withdraw => exact ⟨hcall hu.1 _ (by rw [hu.2]; rfl), hu.2⟩

theorem publish (h : Books w) (kind : Route.Kind) (route : Route) :
    Books (w.publish kind route) := by
  have hcall (c : Bus.Command) {m : Metric}
      (hd : (Effect.called c).due? w.id (constrained w.history) = some m) :
      Books ((w.count m).call c) := by
    have hnew : Books { w with outbox := w.outbox ++ [c] } := h.congr rfl rfl rfl
    exact (hnew.count_emit hd).congr rfl rfl rfl
  have hdone {v : Worker σ} (hv : Books v) (hlast : constrained v.history = route.family.isRtc) :
      Books (if route.family.isRtc then v.applyConstraint kind route.nlri.target else v) := by
    split
    · next hrtc => exact hv.applyConstraint (hlast.trans hrtc) _ _
    · exact hv
  cases kind with
  | advertise => exact hdone (hcall (.advertise w.id route) rfl) rfl
  | withdraw => exact hdone (hcall (.withdraw w.id route) rfl) rfl

theorem publishUpdate (h : Books w) (u : Update) : Books (w.publishUpdate u).2 := by
  unfold Worker.publishUpdate
  split
  · exact h
  · exact h.foldl (fun v x hv => hv.publish x.1 ⟨x.2, u.attributes⟩) _

/-- A message is handled after it was counted. -/
theorem handle {m : Message} (h : Books (if m = .nop then w else w.count (.received w.id m.name))) :
    Books (w.handle m).2 := by
  have hqueue {v : Worker σ} (hv : Books v) (e : WorkerEvent) : Books (v.enqueue e) :=
    hv.congr rfl rfl rfl
  unfold Worker.handle
  simp only
  generalize (if m = .nop then w else w.count (.received w.id m.name)) = v at h ⊢
  cases m with
  | nop => exact h
  | keepalive => exact hqueue h _
  | update u =>
    have hpublish := h.publishUpdate u
    simp only
    split
    · rcases hp : v.publishUpdate u with ⟨r, v'⟩
      rw [hp] at hpublish
      cases r with
      | ok => exact hqueue hpublish _
      | error e => exact hpublish
    · exact h
  | opening o => exact h.log _ _
  | notification n => exact h.log _ _
  | routeRefresh f => exact h.log _ _

/-! ### The attempt -/

theorem negotiateFamilies (h : Books w) (fs : List Family) : Books (w.negotiateFamilies fs) := by
  have hwarn := h.foldl (fun u f hu => hu.log .warn ("Peer does not support family " ++ Family.text f))
    (w.config.offered.filter fun f => !fs.contains f)
  have hset {v : Worker σ} (hv : Books v) (rtcActive : Bool) (activeFamilies : List Family) :
      Books { v with rtcActive, activeFamilies } := hv.congr rfl rfl rfl
  unfold Worker.negotiateFamilies
  simp only
  split
  · exact (hset (hwarn.log _ _) _ _).log _ _
  · exact (hset hwarn _ _).log _ _

theorem failAttempt (h : Books w) (e : EngineError) : Books (w.failAttempt e).1 := by
  unfold Worker.failAttempt
  split
  · exact h.log _ _
  · exact h

variable [Engine σ]

theorem completeAttempt (h : Books w) : Books w.completeAttempt.1 := by
  unfold Worker.completeAttempt
  split
  · exact h
  · next n _ =>
    have hset : Books { w with holdTime := n.holdTime } := h.congr rfl rfl rfl
    exact hset.negotiateFamilies _

theorem attemptStep (h : Books w) (a : Attempt) : Books (w.attemptStep a).1 := by
  cases a with
  | asking =>
    rcases hstep : Engine.establishStep w.engine with ⟨r, s⟩
    simp only [Worker.attemptStep, hstep]
    have hs : Books { w with engine := s } := h.congr rfl rfl rfl
    cases r with
    | error e => exact hs.failAttempt e
    | ok step =>
      cases step with
      | none => exact hs.completeAttempt
      | some step => exact hs.enter step.state
  | backingOff t closed =>
    simp only [Worker.attemptStep]
    split
    · exact h
    · split
      · exact h
      · exact h
  | ended r => exact h

theorem closeConnection (h : Books w) : Books w.closeConnection := by
  unfold Worker.closeConnection
  split
  · exact h
  · next n _ =>
    have hset : Books { w with connection := none, engine := Engine.close w.engine } :=
      h.congr rfl rfl rfl
    exact hset.emit rfl rfl

theorem beginAttempt (h : Books w) : Books w.beginAttempt := by
  have hset : Books { w with rtcActive := false, activeFamilies := [] } := h.congr rfl rfl rfl
  have hclosed := hset.closeConnection
  unfold Worker.beginAttempt
  generalize ({ w with rtcActive := false, activeFamilies := [] } : Worker σ).closeConnection = v
    at hclosed ⊢
  have hopen : Books
      { v with
        connection := some v.connections
        connections := v.connections + 1
        engine := Engine.create v.neighbor v.engine } := hclosed.congr rfl rfl rfl
  exact hopen.emit rfl rfl

theorem stopAndClean (h : Books w) : Books w.stopAndClean := by
  have hset : Books { w with activeFamilies := [], rtcActive := false } := h.congr rfl rfl rfl
  have hclosed := (hset.enter .idle).closeConnection
  unfold Worker.stopAndClean
  simp only
  generalize (({ w with activeFamilies := [], rtcActive := false } : Worker σ).enter
    .idle).closeConnection = v at hclosed ⊢
  have hcalled : Books (v.emit (.called (.cleanup v.id))) := hclosed.emit rfl rfl
  exact hcalled.congr rfl rfl rfl

/-! ### Messages -/

theorem readMessage (h : Books w) : Books w.readMessage.2 := by
  unfold Worker.readMessage
  split
  · rcases Engine.read w.engine with ⟨r, s⟩
    have hs : Books { w with engine := s } := h.congr rfl rfl rfl
    cases r with
    | error e =>
      have hread : Books (({ w with engine := s } : Worker σ).emit (.read (.error e))) :=
        hs.emit rfl rfl
      simp only [handleFailure]
      split <;> exact hread.log _ _
    | ok m =>
      refine handle ?_
      split
      · next hm => exact hs.emit rfl (by simp [Effect.due?, hm])
      · next hm =>
        have hd : (Effect.read (.ok m)).due? w.id (constrained w.history) =
            some (.received w.id m.name) := by simp [Effect.due?, hm]
        exact hs.emit_count hd
  · exact h

theorem send (h : Books w) (data : Octets) : Books (w.send data) := by
  unfold Worker.send
  split
  · exact h.emit_log_count rfl _ _
  · rcases Engine.write data w.engine with ⟨r, s⟩
    have hs : Books { w with engine := s } := h.congr rfl rfl rfl
    cases r with
    | ok => exact hs.emit_count rfl
    | error e => exact hs.emit_log_count rfl _ _

/-- An engine that encodes a route event to something, or fails. -/
theorem encodeEvent (hencode : ∀ (u : Update) (s : σ), Engine.encode u s ≠ .ok [])
    (h : Books w) (e : Route.Event) : Books (w.encodeEvent e).2 := by
  have hfail (text : String) : Books (w.encodeFailed e text).2 := (h.log _ _).count_emit rfl
  unfold Worker.encodeEvent
  split
  · exact hfail _
  · split
    · next data hdata =>
      cases data with
      | nil => exact absurd hdata (hencode _ _)
      | cons b bs => exact h.emit rfl rfl
    · exact hfail _

theorem forward (hencode : ∀ (u : Update) (s : σ), Engine.encode u s ≠ .ok [])
    (h : Books w) (e : Route.Event) : Books (w.forward e) := by
  have hencoded := h.encodeEvent hencode e
  unfold Worker.forward
  split
  · next v hv =>
    rw [hv] at hencoded
    exact hencoded
  · next data v _ hv =>
    rw [hv] at hencoded
    exact hencoded.send data

end Books

end Worker

/-! ## Runs -/

namespace Runner

open Worker (Books)

variable {σ : Type} [Engine σ] {w : Worker σ}

theorem books_conclude (h : w.Books) (x : Except WorkerError SessionEnd) :
    (conclude w x).worker.Books := by
  unfold conclude
  split
  · exact h.stopAndClean.log _ _
  · exact h.stopAndClean.log _ _
  · exact h.stopAndClean
  · split
    · exact (h.log _ _).stopAndClean
    · exact (h.log _ _).stopAndClean

theorem books_afterAttempt (h : w.Books) (a : Attempt) : (afterAttempt w a).worker.Books := by
  cases a with
  | ended result =>
    cases result with
    | error e => exact books_conclude h (.error e)
    | ok => exact h.toEstablished.log _ _
  | asking => exact h
  | backingOff t closed => exact h

theorem books_afterRead (t : Timers) (h : w.Books) (x : Except WorkerError Outcome) :
    (afterRead t w x).worker.Books := by
  cases x with
  | error e => exact books_conclude h (.error e)
  | ok o =>
    cases o with
    | again => exact h
    | reconnect => exact books_conclude h (.ok .reconnect)

theorem books_drain (hencode : ∀ (u : Update) (s : σ), Engine.encode u s ≠ .ok [])
    (t : Timers) (h : w.Books) : (drain t w).worker.Books := by
  have hrest (rest : List WorkerEvent) : Books { w with inbox := rest } := h.congr rfl rfl rfl
  unfold drain Worker.nextEvent
  cases w.inbox with
  | nil => exact h
  | cons e rest =>
    cases e with
    | keepalive => exact hrest rest
    | update => exact hrest rest
    | route e => exact (hrest rest).forward hencode e

theorem books_check (t : Timers) (h : w.Books) : (check t w).worker.Books := by
  unfold check
  split
  · exact books_conclude (h.log _ _) _
  · split
    · exact h.send _
    · exact h

theorem books_step (hencode : ∀ (u : Update) (s : σ), Engine.encode u s ≠ .ok [])
    {r : Runner σ} (h : r.worker.Books) : r.step.worker.Books := by
  rcases r with ⟨w, p⟩
  cases p with
  | between =>
    simp only [step]
    split
    · exact h.stopAndClean.log _ _
    · exact h.beginAttempt
  | connecting a => exact books_afterAttempt (h.attemptStep a) _
  | polling t =>
    simp only [step]
    split
    · exact books_conclude h _
    · split
      · exact books_conclude h _
      · exact h
  | waiting u t => exact books_afterRead t h.readMessage _
  | draining t => exact books_drain hencode t h
  | checking t => exact books_check t h
  | pausing u => exact h
  | finished result => exact h

end Runner

namespace Worker

variable {σ : Type} [Engine σ]

/-- Whatever is asked of a worker, its books stay in order. -/
theorem kept_books (hencode : ∀ (u : Update) (s : σ), Engine.encode u s ≠ .ok []) :
    Kept (@Books σ) where
  new := books_new
  within h _ _ _ := h.congr rfl rfl rfl
  begins h := h.beginAttempt
  moves h a := h.attemptStep a
  establishes h := h.toEstablished
  reads h := h.readMessage
  publishes h kind route := h.publish kind route
  encodes h e := h.encodeEvent hencode e
  sends h data := h.send data
  cleans h := h.stopAndClean
  starts h := h.log _ _
  steps h := Runner.books_step hencode h

end Worker

end RouteExchange
