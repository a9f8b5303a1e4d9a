/-
  What a running worker writes to its peer.

  `Runner.forwards` is the route events that some moves take from the inbox, with what
  each is encoded to.  Apart from KEEPALIVEs a worker writes just what they are encoded
  to, in order, and in a session they are taken in the order in which they came.
  Whether one of them could be encoded or written leaves no trace but in the engine and
  in what was done (`Runner.Alike`), on which no later move depends.
-/
import RouteExchange.Proofs.Bus.Absence
import RouteExchange.Proofs.Worker.Live
import RouteExchange.Proofs.Worker.Past

namespace RouteExchange

/-- The octets that the engine is asked to write, whether or not it can. -/
def Effect.written? : Effect → Option Octets
  | wrote data | refused data => some data
  | _ => none

theorem Effect.written?_of_sent? {e : Effect} {data : Octets} (h : e.sent? = some data)
    (hasked : e ≠ .unsent data) : e.written? = some data := by
  cases e with
  | unsent d =>
    cases h
    exact absurd rfl hasked
  | wrote d | refused d => exact h
  | _ => cases h

/-- What the engine is asked to write, in order. -/
def writes (es : List (Time × Effect)) : List Octets := es.filterMap fun x => x.2.written?

theorem writes_append (es fs : List (Time × Effect)) : writes (es ++ fs) = writes es ++ writes fs :=
  List.filterMap_append

theorem writes_read (now : Time) (rs : List (Except EngineError Message)) :
    writes ((rs.map Effect.read).map fun e => (now, e)) = [] := by
  simp [writes, List.filterMap_map, Effect.written?]

namespace Worker

variable {σ : Type}

theorem writes_closing (w : Worker σ) : writes w.closing = [] := by
  unfold closing
  cases w.connection with
  | none => rfl
  | some n => rfl

variable [Engine σ]

/-- What is sent over a connection is given to the engine. -/
theorem passes_send_written {w : Worker σ} (hw : w.connection.isSome) (data : Octets) :
    ∃ e, e.written? = some data ∧ Passes w [e] (w.send data) := by
  obtain ⟨e, he, hasked, hp⟩ := w.passes_send data
  exact ⟨e, Effect.written?_of_sent? he (hasked hw), hp⟩

/-- The engine is asked to write what a route event is encoded to, if that is anything. -/
theorem passes_forward_written {w : Worker σ} (hw : w.connection.isSome) (e : Route.Event) :
    ∃ es, Passes w es (w.forward e) ∧
      es.filterMap Effect.written? = [(w.encodeEvent e).1].filter fun data => !data.isEmpty := by
  have h := w.passes_encodeEvent e
  rw [forward_eq]
  split
  · next hnil =>
    rw [hnil] at h ⊢
    exact ⟨_, h, rfl⟩
  · next hne =>
    rw [← (w.gives_encodeEvent e).connection] at hw
    obtain ⟨f, hf, hsend⟩ := passes_send_written hw (w.encodeEvent e).1
    refine ⟨_, h.trans hsend, ?_⟩
    rw [List.filterMap_append, List.filterMap_cons, List.filterMap_cons, hf]
    simp [Effect.written?, hne]

theorem routes_attemptStep (w : Worker σ) (a : Attempt) :
    (w.attemptStep a).1.routes = w.routes := by
  by_cases ha : ∃ result, a = .ended result
  · obtain ⟨result, rfl⟩ := ha
    rfl
  · rcases w.attemptStep_cases fun result h => ha ⟨result, h⟩ with ⟨_, -, -, h⟩ | ⟨-, h⟩
    · exact h.routes
    · exact h.routes

end Worker

namespace Runner

open Worker (Gives Passes)

variable {σ : Type} [Engine σ]

/-! ## Moves on some occasions -/

/-- The route events that come to the inbox before some moves. -/
def arrivals (xs : List (Surroundings σ × List WorkerEvent)) : List Route.Event :=
  xs.flatMap fun x => x.2.filterMap WorkerEvent.route?

/-- The route event that the next move takes from the inbox, and what it is encoded to. -/
def forwarded? (r : Runner σ) : Option (Route.Event × Octets) :=
  match r.phase, r.worker.inbox with
  | .draining _, .route e :: rest =>
    some (e, (({ r.worker with inbox := rest } : Worker σ).encodeEvent e).1)
  | _, _ => none

/-- The route events that some moves take from the inbox, and what each is encoded to. -/
def forwards (r : Runner σ) :
    List (Surroundings σ × List WorkerEvent) → List (Route.Event × Octets)
  | [] => []
  | x :: xs => (r.amid x.1 x.2).forwarded?.toList ++ (r.amid x.1 x.2).step.forwards xs

omit [Engine σ] in
theorem routes_amid (r : Runner σ) (s : Surroundings σ) (events : List WorkerEvent) :
    (r.amid s events).worker.routes =
      r.worker.routes ++ events.filterMap WorkerEvent.route? := List.filterMap_append

/-! ## What one move writes -/

/-- The messages that events are encoded to, without those that could not be. -/
def encodings (xs : List (Route.Event × Octets)) : List Octets :=
  (xs.map Prod.snd).filter fun data => !data.isEmpty

/-- What a move adds to the wire: what the event that it forwards is encoded to, or a
    KEEPALIVE, or nothing that is written. -/
structure Writes (r r' : Runner σ) (es : List (Time × Effect)) : Prop where
  wire : r'.worker.wire = r.worker.wire ++ es
  written : writes es = encodings r.forwarded?.toList ∨
    r.forwarded? = none ∧ writes es = [Header.keepalive]

theorem encodings_append (xs ys : List (Route.Event × Octets)) :
    encodings (xs ++ ys) = encodings xs ++ encodings ys := by
  rw [encodings, List.map_append, List.filter_append]
  rfl

theorem Writes.of_silent {r r' : Runner σ} {es : List (Time × Effect)} (hf : r.forwarded? = none)
    (hw : r'.worker.wire = r.worker.wire ++ es) (hes : writes es = []) : Writes r r' es := by
  refine ⟨hw, .inl ?_⟩
  rw [hes, hf]
  rfl

/-- A clean-up writes nothing. -/
theorem exists_writes_conclude {r : Runner σ} {u : Worker σ} {es : List (Time × Effect)}
    (hf : r.forwarded? = none) (hw : u.wire = r.worker.wire ++ es) (hes : writes es = [])
    (x : Except WorkerError SessionEnd) : ∃ fs, Writes r (conclude u x) fs := by
  refine ⟨es ++ u.closing, .of_silent hf ?_ ?_⟩
  · rw [(cleansUp_conclude u x).wire, hw, List.append_assoc]
  · rw [writes_append, hes, u.writes_closing, List.nil_append]

theorem exists_writes_afterAttempt (w : Worker σ) (a : Attempt) :
    ∃ es, Writes ⟨w, .connecting a⟩
      (afterAttempt (w.attemptStep a).1 (w.attemptStep a).2) es := by
  have h := (w.passes_attemptStep a).wire
  rcases (w.attemptStep a).2 with _ | _ | result
  · exact ⟨_, .of_silent rfl h rfl⟩
  · exact ⟨_, .of_silent rfl h rfl⟩
  · cases result with
    | error e => exact exists_writes_conclude rfl h rfl (.error e)
    | ok =>
      have hsession := ((w.passes_attemptStep a).quiet (Worker.passes_toEstablished _)).quiet
        (Worker.passes_log _ .info "Session established")
      exact ⟨_, .of_silent rfl hsession.wire rfl⟩

theorem exists_writes_drain {w : Worker σ} (hw : w.connection.isSome) (t : Timers) :
    ∃ es, Writes ⟨w, .draining t⟩ (drain t w) es := by
  unfold drain Worker.nextEvent
  cases hin : w.inbox with
  | nil => exact ⟨[], .of_silent (by simp [forwarded?, hin]) (List.append_nil _).symm rfl⟩
  | cons e rest =>
    cases e with
    | keepalive => exact ⟨[], .of_silent (by simp [forwarded?, hin]) (List.append_nil _).symm rfl⟩
    | update => exact ⟨[], .of_silent (by simp [forwarded?, hin]) (List.append_nil _).symm rfl⟩
    | route e =>
      obtain ⟨es, h, hes⟩ := Worker.passes_forward_written (w := { w with inbox := rest }) hw e
      refine ⟨_, h.wire, .inl ?_⟩
      rw [writes, List.filterMap_map]
      simpa [forwarded?, hin, encodings, Function.comp_def] using hes

theorem exists_writes_check {w : Worker σ} (hw : w.connection.isSome) (t : Timers) :
    ∃ es, Writes ⟨w, .checking t⟩ (check t w) es := by
  unfold check
  split
  · have h := (w.passes_log .warn "Hold timer expired").wire
    exact exists_writes_conclude rfl h rfl (.ok .reconnect)
  · split
    · obtain ⟨e, he, h⟩ := Worker.passes_send_written hw Header.keepalive
      refine ⟨_, h.wire, .inr ⟨rfl, ?_⟩⟩
      simp [writes, he]
    · exact ⟨[], .of_silent rfl (List.append_nil _).symm rfl⟩

/-- Every move writes what it forwards, or a KEEPALIVE. -/
theorem exists_writes_step {r : Runner σ} (h : r.Live) : ∃ es, Writes r r.step es := by
  rcases r with ⟨w, p⟩
  have hnil : w.wire = w.wire ++ [] := (List.append_nil _).symm
  cases p with
  | between =>
    simp only [step]
    split
    · refine ⟨w.closing, .of_silent rfl (cleansUp_finish w).wire w.writes_closing⟩
    · have hwire := w.beginAttempt_spec.1
      rw [List.append_assoc] at hwire
      refine ⟨_, .of_silent rfl hwire ?_⟩
      rw [writes_append, w.writes_closing]
      rfl
  | connecting a => exact exists_writes_afterAttempt w a
  | polling t =>
    simp only [step]
    split
    · exact exists_writes_conclude rfl hnil rfl (.ok .stopped)
    · split
      · exact exists_writes_conclude rfl hnil rfl (.error Worker.noConnection)
      · exact ⟨[], .of_silent rfl hnil rfl⟩
  | waiting u t =>
    obtain ⟨rs, hread⟩ := w.passes_readMessage
    have hsilent := writes_read w.now rs
    simp only [step]
    rcases w.readMessage.1 with e | o
    · exact exists_writes_conclude rfl hread.wire hsilent (.error e)
    · cases o with
      | again => exact ⟨_, .of_silent rfl hread.wire hsilent⟩
      | reconnect => exact exists_writes_conclude rfl hread.wire hsilent (.ok .reconnect)
  | draining t => exact exists_writes_drain h.1 t
  | checking t => exact exists_writes_check h.1 t
  | pausing u => exact ⟨[], .of_silent rfl hnil rfl⟩
  | finished result => exact ⟨[], .of_silent rfl hnil rfl⟩

/-! ## What becomes of the inbox -/

/-- A move takes the event that it forwards from the inbox, and no other route; or it
    ends a session, or there was none, and then the inbox is a new one. -/
theorem routes_step (r : Runner σ) :
    r.worker.routes = r.forwarded?.toList.map Prod.fst ++ r.step.worker.routes ∨
    r.forwarded? = none ∧ r.step.worker.inbox = [] ∧ r.step.phase.inSession = false := by
  have hclean {q : Runner σ} {u : Worker σ} (h : CleansUp u q) :
      q.worker.inbox = [] ∧ q.phase.inSession = false := ⟨h.clean.inbox, h.phase⟩
  rcases r with ⟨w, p⟩
  cases p with
  | between =>
    simp only [step]
    split
    · exact .inr ⟨rfl, hclean (cleansUp_finish w)⟩
    · obtain ⟨u, hu, hw⟩ := w.beginAttempt_cases
      exact .inl (hw ▸ hu.opened.routes).symm
  | connecting a =>
    have h := w.routes_attemptStep a
    simp only [step]
    rcases (w.attemptStep a).2 with _ | _ | result
    · exact .inl h.symm
    · exact .inl h.symm
    · cases result with
      | error e => exact .inr ⟨rfl, hclean (cleansUp_conclude _ (.error e))⟩
      | ok => exact .inl (((w.attemptStep a).1.gives_toEstablished.quiet
          (Worker.gives_log _ .info "Session established")).routes.trans h).symm
  | polling t =>
    simp only [step]
    split
    · exact .inr ⟨rfl, hclean (cleansUp_conclude w _)⟩
    · split
      · exact .inr ⟨rfl, hclean (cleansUp_conclude w _)⟩
      · exact .inl rfl
  | waiting u t =>
    have h : w.readMessage.2.routes = w.routes := by
      rcases w.readMessage_cases with hg | ⟨_, -, hg, -⟩
      · exact hg.routes
      · exact hg.routes
    simp only [step]
    rcases w.readMessage.1 with e | o
    · exact .inr ⟨rfl, hclean (cleansUp_conclude _ (.error e))⟩
    · cases o with
      | again => exact .inl h.symm
      | reconnect => exact .inr ⟨rfl, hclean (cleansUp_conclude _ (.ok .reconnect))⟩
  | draining t =>
    left
    simp only [step, drain, Worker.nextEvent]
    cases hin : w.inbox with
    | nil =>
      have hf : forwarded? ⟨w, .draining t⟩ = none := by simp [forwarded?, hin]
      rw [hf]
      rfl
    | cons e rest =>
      have hroutes : w.routes = (e :: rest).filterMap WorkerEvent.route? := by
        rw [Worker.routes, hin]
      cases e with
      | keepalive =>
        have hf : forwarded? ⟨w, .draining t⟩ = none := by simp [forwarded?, hin]
        rw [hf]
        exact hroutes
      | update =>
        have hf : forwarded? ⟨w, .draining t⟩ = none := by simp [forwarded?, hin]
        rw [hf]
        exact hroutes
      | route e =>
        have hf : (forwarded? ⟨w, .draining t⟩).toList.map Prod.fst = [e] := by
          simp [forwarded?, hin]
        rw [hf, (Worker.gives_forward _ e).routes]
        exact hroutes
  | checking t =>
    simp only [step, check]
    split
    · exact .inr ⟨rfl, hclean (cleansUp_conclude _ _)⟩
    · split
      · exact .inl (w.gives_send _).routes.symm
      · exact .inl rfl
  | pausing u => exact .inl rfl
  | finished result => exact .inl rfl

/-- The timers are looked at only when the inbox is empty. -/
theorem inbox_of_checking {r : Runner σ} {t : Timers} (h : r.step.phase = .checking t) :
    r.step.worker.inbox = [] := by
  have hclean {u : Worker σ} {q : Runner σ} (hc : CleansUp u q) : q.phase ≠ .checking t := by
    intro hq
    have hp := hc.phase
    rw [hq] at hp
    cases hp
  rcases r with ⟨w, p⟩
  by_cases hp : p.inSession = true
  · have hbeat := step_beat w hp
    generalize step ⟨w, p⟩ = q at hbeat h ⊢
    cases hbeat with
    | drains hin => exact hin
    | ends _ _ hc => exact absurd h (hclean hc)
    | _ => cases h
  · cases p with
    | between =>
      simp only [step] at h
      split at h
      · cases h
      · cases h
    | connecting a =>
      simp only [step] at h
      generalize (w.attemptStep a).2 = x at h
      rcases x with _ | _ | result
      · cases h
      · cases h
      · cases result with
        | error e => exact absurd h (hclean (cleansUp_conclude _ _))
        | ok => cases h
    | pausing u => cases h
    | finished result => cases h
    | _ => exact absurd rfl hp

/-! ## What some moves write -/

/-- The messages of some moves are KEEPALIVEs and what their events are encoded to. -/
theorem exists_writes_after {r : Runner σ} (h : r.Live)
    (xs : List (Surroundings σ × List WorkerEvent)) :
    ∃ es keeps, (r.after xs).worker.wire = r.worker.wire ++ es ∧
      (∀ k ∈ keeps, k = Header.keepalive) ∧
      Bus.Interleaves keeps (encodings (r.forwards xs)) (writes es) := by
  induction xs generalizing r with
  | nil => exact ⟨[], [], (List.append_nil _).symm, List.forall_mem_nil _, .nil⟩
  | cons x xs ih =>
    obtain ⟨es, hwire, hes⟩ := exists_writes_step (h.amid x.1 x.2)
    obtain ⟨fs, keeps, hwire', hkeeps, hfs⟩ := ih (live_step (h.amid x.1 x.2))
    have hall : (r.after (x :: xs)).worker.wire = r.worker.wire ++ (es ++ fs) := by
      rw [after, hwire', hwire, List.append_assoc]
      rfl
    rcases hes with hes | ⟨hnone, hes⟩
    · refine ⟨es ++ fs, keeps, hall, hkeeps, ?_⟩
      rw [writes_append, hes, forwards, encodings_append]
      exact hfs.append_right _
    · refine ⟨es ++ fs, Header.keepalive :: keeps, hall, ?_, ?_⟩
      · intro k hk
        rcases List.mem_cons.1 hk with rfl | hk
        · rfl
        · exact hkeeps k hk
      · rw [writes_append, hes, forwards, hnone]
        exact .left hfs

/-- While a session goes on, events are forwarded in the order in which they came. -/
theorem routes_after {r : Runner σ} {xs : List (Surroundings σ × List WorkerEvent)}
    (h : ∀ k ≤ xs.length, (r.after (xs.take k)).phase.inSession = true) :
    r.worker.routes ++ arrivals xs =
      (r.forwards xs).map Prod.fst ++ (r.after xs).worker.routes := by
  induction xs generalizing r with
  | nil => simp [arrivals, forwards, after]
  | cons x xs ih =>
    have hnext : ∀ k ≤ xs.length,
        ((r.amid x.1 x.2).step.after (xs.take k)).phase.inSession = true := fun k hk =>
      h (k + 1) (Nat.succ_le_succ hk)
    have hrest := ih hnext
    rcases (r.amid x.1 x.2).routes_step with hone | ⟨-, -, hout⟩
    · rw [routes_amid] at hone
      rw [arrivals, List.flatMap_cons, ← List.append_assoc, hone, List.append_assoc, forwards,
        List.map_append, List.append_assoc, after]
      exact congrArg _ hrest
    · have hin := hnext 0 (Nat.zero_le _)
      rw [List.take_zero, after, hout] at hin
      cases hin

/-- Nothing is forwarded but what is in the inbox or comes to it, each once and in order. -/
theorem forwards_sublist (r : Runner σ) (xs : List (Surroundings σ × List WorkerEvent)) :
    ((r.forwards xs).map Prod.fst).Sublist (r.worker.routes ++ arrivals xs) := by
  induction xs generalizing r with
  | nil => exact List.nil_sublist _
  | cons x xs ih =>
    have hrest := ih (r.amid x.1 x.2).step
    rw [forwards, List.map_append, arrivals, List.flatMap_cons, ← List.append_assoc, ← routes_amid]
    rcases (r.amid x.1 x.2).routes_step with hone | ⟨hnone, hempty, -⟩
    · rw [hone, List.append_assoc]
      exact (List.Sublist.refl _).append hrest
    · have hroutes : (r.amid x.1 x.2).step.worker.routes = [] := by
        rw [Worker.routes, hempty]
        rfl
      rw [hroutes, List.nil_append] at hrest
      rw [hnone]
      exact hrest.trans (List.sublist_append_right _ _)

theorem forwarded?_withPast (r : Runner σ) (es : List (Time × Effect)) :
    (r.withPast es).forwarded? = r.forwarded? := by
  rcases r with ⟨w, p⟩
  unfold forwarded? withPast
  simp only [Worker.inbox_withPast]
  split
  · next e rest _ =>
    have hencode := Worker.encodeEvent_withPast { w with inbox := rest } es e
    exact congrArg (fun x => some (e, x.1)) hencode
  · rfl

theorem forwards_withPast (r : Runner σ) (es : List (Time × Effect))
    (xs : List (Surroundings σ × List WorkerEvent)) :
    (r.withPast es).forwards xs = r.forwards xs := by
  induction xs generalizing r with
  | nil => rfl
  | cons x xs ih =>
    have hamid : (r.withPast es).amid x.1 x.2 = (r.amid x.1 x.2).withPast es := rfl
    rw [forwards, forwards, hamid, step_withPast, forwarded?_withPast, ih]

theorem Alike.forwards {r q : Runner σ} (h : Alike r q)
    (xs : List (Surroundings σ × List WorkerEvent)) : q.forwards xs = r.forwards xs := by
  cases xs with
  | nil => rfl
  | cons x xs =>
    obtain ⟨c, hr, hq⟩ := h.amid x.1 x.2
    rw [Runner.forwards, Runner.forwards, hr, hq, step_withPast, step_withPast, forwards_withPast,
      forwards_withPast, forwarded?_withPast, forwarded?_withPast]

/-- What is in the inbox when a session ends is gone. -/
theorem inbox_of_ended {r : Runner σ} (hin : r.phase.inSession = true)
    (hout : r.step.phase.inSession = false) : r.step.worker.inbox = [] := by
  rcases r with ⟨w, p⟩
  have hbeat := step_beat w hin
  generalize step ⟨w, p⟩ = q at hbeat hout ⊢
  cases hbeat with
  | ends _ _ hc => exact hc.clean.inbox
  | _ => cases hout

/-- A run that looks at its timers has emptied its inbox. -/
theorem inbox_of_leads {w : Worker σ} {r : Runner σ} (h : Leads Running (start w) r) {t : Timers}
    (ht : r.phase = .checking t) : r.worker.inbox = [] := by
  cases h with
  | refl => cases ht
  | tail _ hmove =>
    obtain ⟨s, events, -⟩ := hmove
    exact inbox_of_checking ht

/-- **Routes are written in order, each once.** Take a run of a worker, whatever its
    engine does, whatever comes to its inbox and whenever it is stopped, and some moves
    from there on.  The engine is asked to write just KEEPALIVEs and, in order, what the
    events that are taken from the inbox are encoded to, as far as they can be.  While a
    session goes on, these are the events that were in the inbox or came to it, in that
    order, up to those still in it.  Whether the engine can encode or write a message does
    not change what is done later, and so neither how the session ends.  The timers are
    looked at only once the inbox is empty.  What is in the inbox when a session ends is
    gone: later ones write only what came later. -/
theorem routes_written_in_order (w : Worker σ) (r : Runner σ) (hr : Leads Running (start w) r) :
    (∀ xs, ∃ es keeps, (r.after xs).worker.wire = r.worker.wire ++ es ∧
      (∀ k ∈ keeps, k = Header.keepalive) ∧
      Bus.Interleaves keeps (((r.forwards xs).map Prod.snd).filter fun data => !data.isEmpty)
        (writes es)) ∧
    (∀ xs, (∀ k ≤ xs.length, (r.after (xs.take k)).phase.inSession = true) →
      r.worker.routes ++ arrivals xs =
        (r.forwards xs).map Prod.fst ++ (r.after xs).worker.routes) ∧
    ((∃ t, r.phase = .draining t) ∨ (∃ t, r.phase = .checking t) →
      ∀ (s : Surroundings σ) (engine : σ) events xs,
        ((r.amid { s with engine } events).step.after xs).phase =
          ((r.amid s events).step.after xs).phase ∧
        (r.amid { s with engine } events).step.forwards xs =
          (r.amid s events).step.forwards xs ∧
        ∃ es, ((r.amid s events).step.after xs).worker.wire =
            (r.amid s events).step.worker.wire ++ es ∧
          ((r.amid { s with engine } events).step.after xs).worker.wire =
            (r.amid { s with engine } events).step.worker.wire ++ es) ∧
    (∀ t, r.phase = .checking t → r.worker.inbox = []) ∧
    (r.phase.inSession = true → ∀ s events, (r.amid s events).step.phase.inSession = false →
      (r.amid s events).step.worker.inbox = [] ∧ ∀ xs,
        (((r.amid s events).step.forwards xs).map Prod.fst).Sublist (arrivals xs)) := by
  refine ⟨fun xs => exists_writes_after (live_of_leads hr) xs, fun xs h => routes_after h,
    fun hp s engine events xs => ?_, fun t ht => inbox_of_leads hr ht,
    fun hin s events hout => ?_⟩
  · have halike := alike_step hp s engine events
    obtain ⟨hphase, hwire⟩ := halike.after xs
    exact ⟨hphase, halike.forwards xs, hwire⟩
  · have hempty := inbox_of_ended (r := r.amid s events) hin hout
    refine ⟨hempty, fun xs => ?_⟩
    have hsub := forwards_sublist (r.amid s events).step xs
    rw [Worker.routes, hempty] at hsub
    exact hsub

/-! ## A session with a route that cannot be encoded -/

/-- A worker whose session is established at once. -/
def Sample.caller : Worker Script :=
  .sample (.sample false) (Script.negotiate {} [.ipv4MplsVpn] 90)

/-- Its session begins. -/
def Sample.beginning : Runner Script := (start Sample.caller).advances 2

/-- Thirty seconds later a message is waited for in vain, while events come to the inbox;
    the first is too long to be encoded. -/
def Sample.turn : List (Surroundings Script × List WorkerEvent) :=
  ([.route (.sample 256), .route (.sample 1)] :: List.replicate 5 []).map fun events =>
    (⟨({ connected := true } : Script).negotiate [.ipv4MplsVpn] 90, 30000, {}⟩, events)

theorem sample_routes_written_in_order :
    (Sample.beginning.forwards Sample.turn).map Prod.fst = [.sample 256, .sample 1] ∧
    ((Sample.beginning.forwards Sample.turn).map fun x => x.2.isEmpty) = [true, false] ∧
    ∃ es keeps,
      (Sample.beginning.after Sample.turn).worker.wire = Sample.beginning.worker.wire ++ es ∧
      (∀ k ∈ keeps, k = Header.keepalive) ∧
      Bus.Interleaves keeps (((Sample.beginning.forwards Sample.turn).map Prod.snd).filter
        fun data => !data.isEmpty) (writes es) := by
  obtain ⟨hwrites, horder, -⟩ := routes_written_in_order Sample.caller Sample.beginning
    (leads_advances _ 2)
  have hin := horder Sample.turn (by decide +kernel)
  have hdone : (Sample.beginning.after Sample.turn).worker.routes = [] := by decide +kernel
  rw [hdone, List.append_nil] at hin
  exact ⟨hin.symm, by decide +kernel, hwrites Sample.turn⟩

end Runner

end RouteExchange
