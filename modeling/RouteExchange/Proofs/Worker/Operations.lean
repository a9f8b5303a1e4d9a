/-
  What can be asked of a worker.

  `Worker.Performs w o w'` says that the operation `o` takes a worker from `w` to
  `w'`; an operation that reports something says what.  Those that take several moves
  make each in surroundings of its own.  `Worker.Reached` is the workers that any
  operations lead to, in whatever order, with the operations that did.  A property that
  is `Worker.Kept` holds of all of them (`Kept.reached`).
-/
import RouteExchange.Proofs.Worker.Turns

namespace RouteExchange

/-- Something that is asked of a worker, with what it reports. -/
inductive Operation where
  /-- A connection is opened; what was agreed with the peer, where that succeeds. -/
  | connect (outcome : Except WorkerError Negotiated)
  /-- The session begins. -/
  | establish
  /-- A message is waited for, read and handled. -/
  | receive (outcome : Except WorkerError Outcome)
  | publish (kind : Route.Kind) (route : Route)
  | encode (e : Route.Event) (data : Octets)
  | send (data : Octets)
  | enqueue (e : WorkerEvent)
  | take (e : Option WorkerEvent)
  | clean
  /-- The worker runs to an end. -/
  | run (result : Except WorkerError Unit)

namespace Worker

variable {σ : Type}

/-- The worker leaves its configuration alone, and what was negotiated. -/
structure Keeps (w w' : Worker σ) : Prop where
  config : w'.config = w.config
  active : w'.activeFamilies = w.activeFamilies
  rtc : w'.rtcActive = w.rtcActive
  connection : w'.connection = w.connection

theorem Gives.keeps {w w' : Worker σ} {cs : List Bus.Command} (h : Gives w cs w') : w.Keeps w' :=
  ⟨h.config, h.active, h.rtc, h.connection⟩

variable [Engine σ]

/-- The moves of an attempt until it ends, each in surroundings of its own. -/
inductive Attempts : Worker σ → Attempt → Worker σ → Except WorkerError Unit → Prop
  | ends {w : Worker σ} {result : Except WorkerError Unit} : Attempts w (.ended result) w result
  | moves {w w' : Worker σ} {a : Attempt} {result : Except WorkerError Unit} (s : Surroundings σ)
    (ha : ∀ r, a ≠ .ended r)
    (h : Attempts ((w.within s).attemptStep a).1 ((w.within s).attemptStep a).2 w' result) :
    Attempts w a w' result

/-- What the operations do to a worker. -/
inductive Performs (w : Worker σ) : Operation → Worker σ → Prop
  | connects {w' : Worker σ} {n : Negotiated} (h : Attempts w.beginAttempt .asking w' (.ok ()))
    (hn : Engine.negotiated w'.engine = some n) : Performs w (.connect (.ok n)) w'
  | fails {w' : Worker σ} {e : WorkerError} (h : Attempts w.beginAttempt .asking w' (.error e)) :
    Performs w (.connect (.error e)) w'
  | establishes : Performs w .establish w.toEstablished
  | receives {o : Except WorkerError Outcome} {w' : Worker σ} (s : Surroundings σ)
    (hc : w.connection.isSome) (h : (w.within s).readMessage = (o, w')) :
    Performs w (.receive o) w'
  | receivesNothing (hc : w.connection = none) : Performs w (.receive (.error noConnection)) w
  | publishes (kind : Route.Kind) (route : Route) :
    Performs w (.publish kind route) (w.publish kind route)
  | encodes (e : Route.Event) : Performs w (.encode e (w.encodeEvent e).1) (w.encodeEvent e).2
  | sends (data : Octets) : Performs w (.send data) (w.send data)
  | enqueues (e : WorkerEvent) : Performs w (.enqueue e) (w.enqueue e)
  | takes : Performs w (.take w.nextEvent.1) w.nextEvent.2
  | cleans : Performs w .clean w.stopAndClean
  | runs {result : Except WorkerError Unit} {r : Runner σ}
    (h : Runner.Leads Runner.Running (Runner.start w) r) (hr : r.result? = some result) :
    Performs w (.run result) r.worker

/-- The workers with this configuration that operations lead to, the latest first.
    Between two of them the surroundings change and the bus takes commands. -/
inductive Reached (config : Config) : List Operation → Worker σ → Prop
  | new (peer : Ip) (engine : σ) (index : Nat) : Reached config [] (.new config peer engine index)
  | around {os : List Operation} {w : Worker σ} (h : Reached config os w) (s : Surroundings σ)
    (outbox : List Bus.Command) : Reached config os { w.within s with outbox }
  | performs {os : List Operation} {o : Operation} {w w' : Worker σ} (h : Reached config os w)
    (ho : Performs w o w') : Reached config (o :: os) w'

/-! ## The operations that can be carried out -/

/-- An attempt that succeeds agrees on the families, and one that fails leaves them. -/
theorem Attempts.cases {w w' : Worker σ} {a : Attempt} {result : Except WorkerError Unit}
    (h : Attempts w a w' result) (ha : ∀ r, a ≠ .ended r) :
    (∃ n, result = .ok () ∧ Engine.negotiated w'.engine = some n ∧
      Gives (w.agree n.peerFamilies) [] w') ∨
    (result ≠ .ok () ∧ Gives w [] w') := by
  induction h with
  | ends => exact absurd rfl (ha _)
  | @moves w w' a result s _ h ih =>
    have hs := w.gives_within s
    rcases (w.within s).attemptStep_cases ha with ⟨n, hr, hn, hw⟩ | ⟨hr, hw⟩
    · rw [hr] at h
      cases h with
      | ends => exact .inl ⟨n, rfl, hn, (hs.agree _).quiet hw⟩
      | moves _ hne => exact absurd rfl (hne _)
    · by_cases hend : ∃ r, ((w.within s).attemptStep a).2 = .ended r
      · obtain ⟨r, hr'⟩ := hend
        rw [hr'] at h hr
        cases h with
        | ends => exact .inr ⟨fun hok => hr (congrArg Attempt.ended hok), hs.quiet hw⟩
        | moves _ hne => exact absurd rfl (hne _)
      · have hstep := hs.quiet hw
        rcases ih fun r hr' => hend ⟨r, hr'⟩ with ⟨n, hok, hn, hagree⟩ | ⟨hne, hgives⟩
        · exact .inl ⟨n, hok, hn, (hstep.agree _).quiet hagree⟩
        · exact .inr ⟨hne, hstep.quiet hgives⟩

/-- Every attempt that ends is one of the operations. -/
theorem performs_of_attempts {w w' : Worker σ} {result : Except WorkerError Unit}
    (h : Attempts w.beginAttempt .asking w' result) :
    ∃ outcome, Performs w (.connect outcome) w' ∧ outcome.map (fun _ => ()) = result := by
  cases result with
  | error e => exact ⟨.error e, .fails h, rfl⟩
  | ok =>
    rcases h.cases (by simp) with ⟨n, -, hn, -⟩ | ⟨hne, -⟩
    · exact ⟨.ok n, .connects h hn, rfl⟩
    · exact absurd rfl hne

/-- Receiving once is one of the operations. -/
theorem performs_receiveOnce (w : Worker σ) :
    Performs w (.receive w.receiveOnce.1) w.receiveOnce.2 := by
  unfold receiveOnce
  cases h : w.waitEnd? with
  | none => exact .receivesNothing (Option.map_eq_none_iff.1 h)
  | some t =>
    obtain ⟨n, hn, -⟩ := Option.map_eq_some_iff.1 h
    exact .receives ⟨w.engine, t, w.stop⟩ (by simp [hn]) rfl

theorem attempts_finishAttempt (w : Worker Script) (a : Attempt) :
    Attempts w a (w.finishAttempt a).2 (w.finishAttempt a).1 := by
  fun_induction finishAttempt w a with
  | case1 w result => exact .ends
  | case2 w ih => exact .moves ⟨w.engine, w.now, w.stop⟩ (by simp) ih
  | case3 w t closed due ih => exact .moves ⟨w.engine, max w.now t, w.stop⟩ (by simp) ih

/-- Connecting over a script is one of the operations. -/
theorem performs_connect (w : Worker Script) :
    ∃ outcome, Performs w (.connect outcome) w.connect.2 ∧
      outcome.map (fun _ => ()) = w.connect.1 :=
  performs_of_attempts (attempts_finishAttempt _ _)

/-! ## What holds of every worker -/

/-- A property that a new worker has and that no step of an operation takes away. -/
structure Kept (P : Worker σ → Prop) : Prop where
  new : ∀ config peer engine index, P (.new config peer engine index)
  within : ∀ {w}, P w → ∀ (s : Surroundings σ) inbox outbox, P { w.within s with inbox, outbox }
  begins : ∀ {w}, P w → P w.beginAttempt
  moves : ∀ {w}, P w → ∀ a, P (w.attemptStep a).1
  establishes : ∀ {w}, P w → P w.toEstablished
  reads : ∀ {w}, P w → P w.readMessage.2
  publishes : ∀ {w}, P w → ∀ kind route, P (w.publish kind route)
  encodes : ∀ {w}, P w → ∀ e, P (w.encodeEvent e).2
  sends : ∀ {w}, P w → ∀ data, P (w.send data)
  cleans : ∀ {w}, P w → P w.stopAndClean
  starts : ∀ {w}, P w → P (Runner.start w).worker
  steps : ∀ {r : Runner σ}, P r.worker → P r.step.worker

namespace Kept

variable {P : Worker σ → Prop} {w w' : Worker σ}

theorem attempts (hP : Kept P) {a : Attempt} {result : Except WorkerError Unit} (h : P w)
    (ha : Attempts w a w' result) : P w' := by
  induction ha with
  | ends => exact h
  | @moves w w' a result s _ _ ih => exact ih (hP.moves (hP.within h s w.inbox w.outbox) a)

theorem leads (hP : Kept P) {allowed : Runner σ → Surroundings σ → Prop} {r : Runner σ} (h : P w)
    (hr : Runner.Leads allowed (Runner.start w) r) : P r.worker := by
  induction hr with
  | refl => exact hP.starts h
  | @tail q _ _ hmove ih =>
    obtain ⟨s, events, -⟩ := hmove
    exact hP.steps (hP.within ih s (q.worker.inbox ++ events) q.worker.outbox)

theorem performs (hP : Kept P) {o : Operation} (h : P w) (ho : Performs w o w') : P w' := by
  have hinbox (inbox : List WorkerEvent) : P { w with inbox } :=
    hP.within h ⟨w.engine, w.now, w.stop⟩ inbox w.outbox
  cases ho with
  | connects ha => exact hP.attempts (hP.begins h) ha
  | fails ha => exact hP.attempts (hP.begins h) ha
  | establishes => exact hP.establishes h
  | receives s _ hread =>
    have hdone := hP.reads (hP.within h s w.inbox w.outbox)
    rw [show ({ w.within s with inbox := w.inbox, outbox := w.outbox } : Worker σ) = w.within s
      from rfl, hread] at hdone
    exact hdone
  | receivesNothing => exact h
  | publishes kind route => exact hP.publishes h kind route
  | encodes e => exact hP.encodes h e
  | sends data => exact hP.sends h data
  | enqueues e => exact hinbox _
  | takes =>
    unfold nextEvent
    split
    · exact h
    · exact hinbox _
  | cleans => exact hP.cleans h
  | runs hr _ => exact hP.leads h hr

/-- Whatever was asked of a worker, it has the property. -/
theorem reached (hP : Kept P) {config : Config} {os : List Operation} (h : Reached config os w) :
    P w := by
  induction h with
  | new peer engine index => exact hP.new config peer engine index
  | @around _ w _ s outbox ih => exact hP.within ih s w.inbox outbox
  | performs _ ho ih => exact hP.performs ih ho

end Kept

end Worker

end RouteExchange
