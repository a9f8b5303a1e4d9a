/-
  The course of a run in time.

  `Runner.Course` lists what one move of a worker that runs can be, with the phase that
  it leads to, and `step_course` says that there is nothing else: a connection is opened
  between two sessions by a worker that is not to stop, and by no other move.
  `Runner.Due` are the surroundings in which a move is made just when it is due, and
  `Runner.Ripe` those in which it is made then or later.
-/
import RouteExchange.Proofs.Worker.Teardown

namespace RouteExchange

/-! ## Stop signals -/

namespace StopSignal

variable {s : StopSignal} {now planned t u : Time}

theorem raised_iff : s.raised t = true ↔ ∃ m ∈ s.moments, m ≤ t := by simp [raised]

theorem raised_mono (h : s.raised t = true) (htu : t ≤ u) : s.raised u = true := by
  obtain ⟨m, hm, hle⟩ := raised_iff.1 h
  exact raised_iff.2 ⟨m, hm, Nat.le_trans hle htu⟩

theorem foldl_min_le (f : Time → Time) (ms : List Time) (t : Time) :
    ms.foldl (fun t m => min t (f m)) t ≤ t := by
  induction ms generalizing t with
  | nil => exact Nat.le_refl t
  | cons m ms ih => exact Nat.le_trans (ih _) (Nat.min_le_left _ _)

theorem foldl_min_le_of_mem (f : Time → Time) {ms : List Time} {m : Time} (hm : m ∈ ms) (t : Time) :
    ms.foldl (fun t m => min t (f m)) t ≤ f m := by
  induction ms generalizing t with
  | nil => cases hm
  | cons m' ms ih =>
    rcases List.mem_cons.1 hm with rfl | hm
    · exact Nat.le_trans (foldl_min_le f ms _) (Nat.min_le_right _ _)
    · exact ih hm _

theorem foldl_min_cases (f : Time → Time) (ms : List Time) (t : Time) :
    ms.foldl (fun t m => min t (f m)) t = t ∨
      ∃ m ∈ ms, ms.foldl (fun t m => min t (f m)) t = f m := by
  induction ms generalizing t with
  | nil => exact .inl rfl
  | cons m ms ih =>
    rw [List.foldl_cons]
    rcases ih (min t (f m)) with h | ⟨m', hm', h⟩
    · rcases Nat.le_total t (f m) with hle | hle
      · exact .inl (h.trans (Nat.min_eq_left hle))
      · exact .inr ⟨m, List.mem_cons_self, h.trans (Nat.min_eq_right hle)⟩
    · exact .inr ⟨m', List.mem_cons_of_mem m hm', h⟩

/-- A stop ends a pause. -/
theorem cutShort_le (h : s.raised t = true) : s.cutShort now planned ≤ max now t := by
  obtain ⟨m, hm, hle⟩ := raised_iff.1 h
  refine Nat.le_trans (foldl_min_le_of_mem (fun m => max now m) hm planned) ?_
  exact Nat.max_le.2 ⟨Nat.le_max_left now t, Nat.le_trans hle (Nat.le_max_right now t)⟩

/-- Nothing else does. -/
theorem cutShort_cases (s : StopSignal) (now planned : Time) :
    s.cutShort now planned = planned ∨ s.raised (s.cutShort now planned) = true := by
  rcases foldl_min_cases (fun m => max now m) s.moments planned with h | ⟨m, hm, h⟩
  · exact .inl h
  · exact .inr (raised_iff.2 ⟨m, hm, Nat.le_trans (Nat.le_max_right now m) (Nat.le_of_eq h.symm)⟩)

end StopSignal

/-! ## What a worker does at one moment -/

theorem Effect.opened?_of_opens {e : Effect} (h : e.opens = false) : e.opened? = none := by
  cases e with
  | opened n => cases h
  | _ => rfl

namespace Worker

variable {σ : Type}

/-- What the worker did so far, in order. -/
def record (w : Worker σ) : List (Time × Effect) := w.history.reverse

/-- The worker does something at one moment, and opens no connection. -/
structure Acts (w w' : Worker σ) : Prop where
  config : w'.config = w.config
  id : w'.id = w.id
  now : w'.now = w.now
  record : ∃ es, w'.record = w.record ++ es ∧ openings es = []

/-- It also holds on to its connection. -/
structure Holds (w w' : Worker σ) : Prop extends Acts w w' where
  connection : w'.connection = w.connection

theorem Acts.refl (w : Worker σ) : Acts w w := ⟨rfl, rfl, rfl, [], (List.append_nil _).symm, rfl⟩

theorem Acts.trans {w u v : Worker σ} (h : Acts w u) (h' : Acts u v) : Acts w v := by
  obtain ⟨es, hes, hnone⟩ := h.record
  obtain ⟨fs, hfs, hnone'⟩ := h'.record
  refine ⟨h'.config.trans h.config, h'.id.trans h.id, h'.now.trans h.now, es ++ fs, ?_, ?_⟩
  · rw [hfs, hes, List.append_assoc]
  · rw [openings_append, hnone, hnone', List.append_nil]

theorem Holds.refl (w : Worker σ) : Holds w w := ⟨.refl w, rfl⟩

theorem Holds.trans {w u v : Worker σ} (h : Holds w u) (h' : Holds u v) : Holds w v :=
  ⟨h.toActs.trans h'.toActs, h'.connection.trans h.connection⟩

theorem Gives.holds {w u : Worker σ} {cs : List Bus.Command} (h : Gives w cs u)
    (hn : u.now = w.now) : Holds w u := by
  obtain ⟨es, hes, ho, -⟩ := h.effects
  refine ⟨⟨h.config, h.id, hn, es.reverse, ?_, ?_⟩, h.connection⟩
  · rw [record, hes, List.reverse_append, record]
  · rw [openings, List.filterMap_eq_nil_iff]
    intro e he
    exact Effect.opened?_of_opens (ho e (List.mem_reverse.1 he))

/-- The families of the session do not matter. -/
theorem Gives.holds_of_agree {w u : Worker σ} {fs : List Family} {cs : List Bus.Command}
    (h : Gives (w.agree fs) cs u) (hn : u.now = w.now) : Holds w u := by
  obtain ⟨⟨hconfig, hid, hnow, hrecord⟩, hconnection⟩ := h.holds hn
  exact ⟨⟨hconfig, hid, hnow, hrecord⟩, hconnection⟩

theorem holds_log (w : Worker σ) (level : Level) (text : String) : Holds w (w.log level text) :=
  (w.gives_log level text).holds rfl

variable [Engine σ]

theorem holds_attemptStep (w : Worker σ) (a : Attempt) : Holds w (w.attemptStep a).1 := by
  have hnow := (w.passes_attemptStep a).now
  by_cases ha : ∃ result, a = .ended result
  · obtain ⟨result, rfl⟩ := ha
    exact .refl w
  · rcases w.attemptStep_cases fun result h => ha ⟨result, h⟩ with ⟨n, -, -, h⟩ | ⟨-, h⟩
    · exact h.holds_of_agree hnow
    · exact h.holds hnow

/-- An engine is left alone for two seconds at most. -/
theorem attemptStep_asking (w : Worker σ) :
    (∃ result, (w.attemptStep .asking).2 = .ended result) ∨
      ∃ t closed, (w.attemptStep .asking).2 = .backingOff t closed ∧ t ≤ w.now + 2000 := by
  rcases hstep : Engine.establishStep w.engine with ⟨r, s⟩
  simp only [attemptStep, hstep]
  cases r with
  | error e => exact .inl (failAttempt_ended { w with engine := s } e).2
  | ok step =>
    cases step with
    | none => exact .inl (completeAttempt_ended { w with engine := s }).2
    | some step =>
      have hdelay : step.backoff.delay ≤ 2000 := by cases step.backoff <;> decide
      exact .inr ⟨_, _, rfl, Nat.add_le_add_left hdelay _⟩

theorem holds_readMessage (w : Worker σ) : Holds w w.readMessage.2 := by
  obtain ⟨rs, hp⟩ := w.passes_readMessage
  rcases w.readMessage_cases with h | ⟨u, -, h, -⟩
  · exact h.holds hp.now
  · exact h.holds hp.now

theorem holds_send (w : Worker σ) (data : Octets) : Holds w (w.send data) := by
  obtain ⟨e, -, -, hp⟩ := w.passes_send data
  exact (w.gives_send data).holds hp.now

theorem holds_forward (w : Worker σ) (e : Route.Event) : Holds w (w.forward e) := by
  obtain ⟨data, es, hp, -⟩ := w.passes_forward e
  exact (w.gives_forward e).holds hp.now

theorem record_closeConnection (w : Worker σ) :
    w.closeConnection.record = w.record ++ w.closing := by
  unfold closeConnection closing
  cases w.connection with
  | none => exact (List.append_nil _).symm
  | some n => exact List.reverse_cons

/-- An attempt closes the connection that is held, and opens one. -/
theorem record_beginAttempt (w : Worker σ) : w.beginAttempt.record =
    w.record ++ w.closing ++ [(w.now, .opened w.connections)] := by
  have hrecord := record_closeConnection { w with rtcActive := false, activeFamilies := [] }
  obtain ⟨-, -, hcount, hnow, -⟩ :=
    closeConnection_spec { w with rtcActive := false, activeFamilies := [] }
  unfold beginAttempt
  generalize closeConnection { w with rtcActive := false, activeFamilies := [] } = v at *
  have hopen : v.openConnection.record = v.record ++ [(v.now, .opened v.connections)] :=
    List.reverse_cons
  rw [hopen, hrecord, hnow, hcount]
  rfl

theorem now_beginAttempt (w : Worker σ) : w.beginAttempt.now = w.now := by
  obtain ⟨-, -, -, hnow, -⟩ :=
    closeConnection_spec { w with rtcActive := false, activeFamilies := [] }
  exact hnow

/-- A clean-up ends with the command that tells the bus of it. -/
theorem record_stopAndClean (w : Worker σ) : w.stopAndClean.record =
    w.record ++ (w.now, .counted (.state w.id .idle)) :: w.closing ++
      [(w.now, .called (.cleanup w.id))] := by
  have hidle : (({ w with activeFamilies := [], rtcActive := false } : Worker σ).enter .idle).record =
      w.record ++ [(w.now, .counted (.state w.id .idle))] := List.reverse_cons
  have hrecord := record_closeConnection
    (({ w with activeFamilies := [], rtcActive := false } : Worker σ).enter .idle)
  have hid := (gives_closeConnection
    (({ w with activeFamilies := [], rtcActive := false } : Worker σ).enter .idle)).id
  obtain ⟨-, -, -, hnow, -⟩ := closeConnection_spec
    (({ w with activeFamilies := [], rtcActive := false } : Worker σ).enter .idle)
  rw [hidle] at hrecord
  unfold stopAndClean
  simp only
  generalize (({ w with activeFamilies := [], rtcActive := false } : Worker σ).enter
    .idle).closeConnection = v at *
  have hcall : ({ v.call (.cleanup v.id) with inbox := [], epoch := v.epoch + 1 } : Worker σ).record =
      v.record ++ [(v.now, .called (.cleanup v.id))] := List.reverse_cons
  refine hcall.trans ?_
  rw [hrecord, hnow, hid, List.append_assoc, List.append_assoc, List.append_assoc]
  rfl

theorem acts_stopAndClean (w : Worker σ) : Acts w w.stopAndClean := by
  obtain ⟨u, hu, hclean⟩ := w.stopAndClean_cases
  obtain ⟨hnone, -⟩ := openings_closing w
  refine ⟨?_, ?_, w.stopAndClean_spec.2.2.2, _, w.record_stopAndClean.trans (List.append_assoc _ _ _),
    ?_⟩
  · rw [hclean]
    exact hu.config
  · rw [hclean]
    exact hu.id
  · rw [List.cons_append, ← List.singleton_append, openings_append, openings_append, hnone]
    rfl

end Worker

/-- The worker is in an attempt or in a session. -/
def Phase.busy : Phase → Bool
  | .connecting _ | .polling _ | .waiting _ _ | .draining _ | .checking _ => true
  | .between | .pausing _ | .finished _ => false

/-- How an attempt or a session goes on with a connection. -/
inductive Phase.Proceeds {σ : Type} [Engine σ] (w : Worker σ) : Phase → Phase → Prop
  | backsOff {t : Time} {closed : Bool} (ht : t ≤ w.now + 2000) :
    Proceeds w (.connecting .asking) (.connecting (.backingOff t closed))
  | asks {t : Time} {closed : Bool} (hs : w.stopping = false) :
    Proceeds w (.connecting (.backingOff t closed)) (.connecting .asking)
  | begins {a : Attempt} {t : Timers} : Proceeds w (.connecting a) (.polling t)
  | waits {t : Timers} {u : Time} (hs : w.stopping = false) (hu : w.waitEnd? = some u) :
    Proceeds w (.polling t) (.waiting u t)
  | reads {u : Time} {t : Timers} : Proceeds w (.waiting u t) (.draining t)
  | handles {t t' : Timers} : Proceeds w (.draining t) (.draining t')
  | drains {t : Timers} : Proceeds w (.draining t) (.checking t)
  | checks {t t' : Timers} : Proceeds w (.checking t) (.polling t')

theorem Phase.Proceeds.busy {σ : Type} [Engine σ] {w : Worker σ} {p q : Phase}
    (h : Proceeds w p q) : p.busy = true ∧ q.busy = true := by
  cases h <;> exact ⟨rfl, rfl⟩

namespace Runner

open Worker (Acts Holds)

variable {σ : Type}

/-- The next move is made when it is due. -/
def Due (r : Runner σ) (s : Surroundings σ) : Prop :=
  ({ r with worker := { r.worker with stop := s.stop } } : Runner σ).wake? = some s.now

/-- The next move is made when it is due, or later. -/
def Ripe (r : Runner σ) (s : Surroundings σ) : Prop :=
  ∃ t ≤ s.now, ({ r with worker := { r.worker with stop := s.stop } } : Runner σ).wake? = some t

theorem Due.ripe {r : Runner σ} {s : Surroundings σ} (h : Due r s) : Ripe r s :=
  ⟨_, Nat.le_refl _, h⟩

theorem Ripe.result? {r : Runner σ} {s : Surroundings σ} (h : Ripe r s) : r.result? = none := by
  rcases r with ⟨w, p⟩
  obtain ⟨t, -, ht⟩ := h
  cases p with
  | finished result => cases ht
  | _ => rfl

variable [Engine σ]

/-! ## The moves of a run -/

/-- What one move of a worker that has not ended can be. -/
inductive Course (r : Runner σ) : Runner σ → Prop
  /-- A connection is opened. -/
  | begins (hp : r.phase = .between) (hs : r.worker.stopping = false) :
    Course r ⟨r.worker.beginAttempt, .connecting .asking⟩
  /-- The worker goes on with the connection that it holds. -/
  | goesOn {w : Worker σ} {p : Phase} (hw : r.worker.Holds w)
    (hp : Phase.Proceeds r.worker r.phase p) : Course r ⟨w, p⟩
  /-- The worker cleans up and pauses. -/
  | retries {w : Worker σ} (hp : r.phase.busy = true) (hw : r.worker.Holds w) : Course r (retry w)
  /-- The pause is over. -/
  | resumes {u : Time} (hp : r.phase = .pausing u) : Course r ⟨r.worker, .between⟩
  | finishes {w : Worker σ} {result : Except WorkerError Unit} (hw : r.worker.Acts w) :
    Course r ⟨w, .finished result⟩

theorem course_finish {r : Runner σ} {w : Worker σ} (h : r.worker.Holds w) : Course r (finish w) :=
  .finishes ((h.toActs.trans w.acts_stopAndClean).trans (Worker.holds_log _ _ _).toActs)

theorem course_conclude {r : Runner σ} {w : Worker σ} (hp : r.phase.busy = true)
    (h : r.worker.Holds w) (x : Except WorkerError SessionEnd) : Course r (conclude w x) := by
  unfold conclude
  split
  · exact course_finish h
  · exact course_finish h
  · exact .retries hp h
  · split
    · exact .finishes ((h.trans (w.holds_log _ _)).toActs.trans (Worker.acts_stopAndClean _))
    · exact .retries hp (h.trans (w.holds_log _ _))

theorem course_ended {w u : Worker σ} {a : Attempt} (h : w.Holds u)
    (result : Except WorkerError Unit) :
    Course ⟨w, .connecting a⟩ (afterAttempt u (.ended result)) := by
  cases result with
  | error e => exact course_conclude rfl h (.error e)
  | ok =>
    have hbegun : u.Holds u.toEstablished := u.gives_toEstablished.holds u.passes_toEstablished.now
    exact .goesOn ((h.trans hbegun).trans (Worker.holds_log _ _ _)) .begins

theorem course_connecting (w : Worker σ) (a : Attempt) : Course ⟨w, .connecting a⟩
    (afterAttempt (w.attemptStep a).1 (w.attemptStep a).2) := by
  have h := w.holds_attemptStep a
  cases a with
  | asking =>
    rcases w.attemptStep_asking with ⟨result, hr⟩ | ⟨t, closed, hr, ht⟩
    · rw [hr]
      exact course_ended h result
    · rw [hr]
      exact .goesOn h (.backsOff ht)
  | backingOff t closed =>
    simp only [Worker.attemptStep]
    split
    · exact course_ended (.refl w) _
    · next hs =>
      split
      · exact course_ended (.refl w) _
      · exact .goesOn (.refl w) (.asks (Bool.eq_false_iff.2 hs))
  | ended result => exact course_ended (.refl w) result

theorem course_afterRead (w : Worker σ) (u : Time) (t : Timers) :
    Course ⟨w, .waiting u t⟩ (afterRead t w.readMessage.2 w.readMessage.1) := by
  have h := w.holds_readMessage
  rcases w.readMessage.1 with e | outcome
  · exact course_conclude rfl h (.error e)
  · cases outcome with
    | again => exact .goesOn h .reads
    | reconnect => exact course_conclude rfl h (.ok .reconnect)

theorem course_drain (w : Worker σ) (t : Timers) : Course ⟨w, .draining t⟩ (drain t w) := by
  have htaken (rest : List WorkerEvent) : w.Holds { w with inbox := rest } :=
    ⟨⟨rfl, rfl, rfl, [], (List.append_nil _).symm, rfl⟩, rfl⟩
  unfold drain Worker.nextEvent
  cases w.inbox with
  | nil => exact .goesOn (.refl w) .drains
  | cons e rest =>
    cases e with
    | keepalive => exact .goesOn (htaken rest) .handles
    | update => exact .goesOn (htaken rest) .handles
    | route e => exact .goesOn ((htaken rest).trans (Worker.holds_forward _ e)) .handles

theorem course_check (w : Worker σ) (t : Timers) : Course ⟨w, .checking t⟩ (check t w) := by
  unfold check
  split
  · exact course_conclude rfl (w.holds_log _ _) _
  · split
    · exact .goesOn (w.holds_send _) .checks
    · exact .goesOn (.refl w) .checks

/-- Every move of a worker that has not ended is one of these. -/
theorem step_course {r : Runner σ} (h : r.result? = none) : Course r r.step := by
  rcases r with ⟨w, p⟩
  cases p with
  | between =>
    simp only [step]
    split
    · exact course_finish (.refl w)
    · next hs => exact .begins rfl (Bool.eq_false_iff.2 hs)
  | connecting a => exact course_connecting w a
  | polling t =>
    simp only [step]
    split
    · exact course_conclude rfl (.refl w) _
    · next hs =>
      split
      · exact course_conclude rfl (.refl w) _
      · next u hu => exact .goesOn (.refl w) (.waits (Bool.eq_false_iff.2 hs) hu)
  | waiting u t => exact course_afterRead w u t
  | draining t => exact course_drain w t
  | checking t => exact course_check w t
  | pausing u => exact .resumes rfl
  | finished result => cases h

end Runner

end RouteExchange
