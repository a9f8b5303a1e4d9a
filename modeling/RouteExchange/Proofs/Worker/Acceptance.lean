/-
  When a worker accepts an UPDATE.

  The UPDATEs of the peer are published in an established session, and refused in any
  other state.  `Milestone`s are what enters a state: the steps of an attempt, in which the
  engine reports one, the beginning of a session, and a clean-up.  `Worker.Passed` is the
  workers that any operations lead to, with the milestones on the way, and
  `Passed.state_eq` says that the last of them decides.
-/
import RouteExchange.Proofs.Worker.Operations
import RouteExchange.Proofs.Worker.Retries
import RouteExchange.Proofs.Worker.Teardown

namespace RouteExchange

/-- What decides on the state of a session. -/
inductive Milestone where
  /-- An attempt to connect begins. -/
  | attempted
  /-- The engine reports a state, in a step of an attempt. -/
  | reported (s : SessionState)
  /-- The session begins. -/
  | established
  /-- What is left of a session is cleaned up. -/
  | cleaned
deriving DecidableEq

namespace Milestone

/-- The state that a milestone enters, if it enters one. -/
def state? : Milestone → Option SessionState
  | attempted => none
  | reported s => some s
  | established => some .established
  | cleaned => some .idle

/-- The state that milestones lead to; here and below the latest is the first. -/
def final (ms : List Milestone) : SessionState := (ms.findSome? state?).getD .idle

theorem final_cons (m : Milestone) (ms : List Milestone) :
    final (m :: ms) = m.state?.getD (final ms) := by
  cases h : m.state? <;> simp [final, h]

/-- The last of some reports counts. -/
theorem final_reports (ss : List SessionState) (ms : List Milestone) :
    final ((ss.map reported).reverse ++ ms) = ss.getLast?.getD (final ms) := by
  cases h : ss.getLast? with
  | none =>
    rw [List.getLast?_eq_none_iff] at h
    rw [h]
    rfl
  | some s =>
    obtain ⟨ys, rfl⟩ := List.getLast?_eq_some_iff.1 h
    rw [List.map_append, List.reverse_append, List.append_assoc]
    exact final_cons (reported s) _

end Milestone

/-- The milestone that an operation is, if it is one.  A run ends with a clean-up. -/
def Operation.milestone? : Operation → Option Milestone
  | establish => some .established
  | clean | run _ => some .cleaned
  | _ => none

namespace Worker

variable {σ : Type}

/-! ## The state of a session -/

theorem state_negotiateFamilies (w : Worker σ) (fs : List Family) :
    (w.negotiateFamilies fs).state = w.state := by
  have hwarn : ((w.config.offered.filter fun f => !fs.contains f).foldl
      (fun w f => w.log .warn ("Peer does not support family " ++ f.text)) w).state = w.state :=
    List.foldlRecOn _ _ (motive := fun u : Worker σ => u.state = w.state) rfl fun _ h _ _ => h
  unfold negotiateFamilies
  simp only
  split <;> exact hwarn

theorem state_failAttempt (w : Worker σ) (e : EngineError) : (w.failAttempt e).1.state = w.state := by
  unfold failAttempt
  split <;> rfl

variable [Engine σ]

theorem state_completeAttempt (w : Worker σ) : w.completeAttempt.1.state = w.state := by
  unfold completeAttempt
  split
  · rfl
  · exact state_negotiateFamilies _ _

theorem state_beginAttempt (w : Worker σ) : w.beginAttempt.state = w.state :=
  (closeConnection_spec { w with rtcActive := false, activeFamilies := [] }).2.2.2.2

/-- The state that the engine reports in the next move of an attempt, if it reports one. -/
def reported? (w : Worker σ) : Attempt → Option SessionState
  | .asking =>
    match (Engine.establishStep w.engine).1 with
    | .ok (some step) => some step.state
    | _ => none
  | _ => none

/-- In an attempt only the reports of the engine change the state. -/
theorem state_attemptStep (w : Worker σ) (a : Attempt) :
    (w.attemptStep a).1.state = (w.reported? a).getD w.state := by
  cases a with
  | asking =>
    rcases hstep : Engine.establishStep w.engine with ⟨r, s⟩
    simp only [attemptStep, reported?, hstep]
    cases r with
    | error e => exact state_failAttempt { w with engine := s } e
    | ok step =>
      cases step with
      | none => exact state_completeAttempt { w with engine := s }
      | some step => rfl
  | backingOff t closed =>
    simp only [attemptStep]
    split
    · rfl
    · split <;> rfl
  | ended r => rfl

/-- The moves of an attempt until it ends, with the states that the engine reports. -/
inductive Reports : Worker σ → Attempt → List SessionState → Worker σ →
    Except WorkerError Unit → Prop
  | ends {w : Worker σ} {result : Except WorkerError Unit} : Reports w (.ended result) [] w result
  | moves {w w' : Worker σ} {a : Attempt} {ss : List SessionState}
    {result : Except WorkerError Unit} (s : Surroundings σ) (ha : ∀ r, a ≠ .ended r)
    (h : Reports ((w.within s).attemptStep a).1 ((w.within s).attemptStep a).2 ss w' result) :
    Reports w a (((w.within s).reported? a).toList ++ ss) w' result

theorem Attempts.exists_reports {w w' : Worker σ} {a : Attempt} {result : Except WorkerError Unit}
    (h : Attempts w a w' result) : ∃ ss, Reports w a ss w' result := by
  induction h with
  | ends => exact ⟨[], .ends⟩
  | moves s ha _ ih =>
    obtain ⟨ss, hss⟩ := ih
    exact ⟨_, .moves s ha hss⟩

theorem Reports.state_eq {w w' : Worker σ} {a : Attempt} {ss : List SessionState}
    {result : Except WorkerError Unit} (h : Reports w a ss w' result) :
    w'.state = ss.getLast?.getD w.state := by
  induction h with
  | ends => rfl
  | @moves w w' a ss result s _ _ ih =>
    rw [ih, state_attemptStep]
    cases (w.within s).reported? a with
    | none => rfl
    | some t =>
      cases hlast : ss.getLast? <;> simp [List.getLast?_cons, hlast]

/-- The workers that any operations lead to, as in `Reached`, with the milestones on the
    way. -/
inductive Passed (config : Config) : List Milestone → Worker σ → Prop
  | new (peer : Ip) (engine : σ) (index : Nat) : Passed config [] (.new config peer engine index)
  | around {ms : List Milestone} {w : Worker σ} (h : Passed config ms w) (s : Surroundings σ)
    (outbox : List Bus.Command) : Passed config ms { w.within s with outbox }
  | connects {ms : List Milestone} {w w' : Worker σ} {ss : List SessionState}
    {result : Except WorkerError Unit} (h : Passed config ms w)
    (hs : Reports w.beginAttempt .asking ss w' result) :
    Passed config ((ss.map .reported).reverse ++ .attempted :: ms) w'
  | performs {ms : List Milestone} {o : Operation} {w w' : Worker σ} (h : Passed config ms w)
    (ho : Performs w o w') (hne : ∀ outcome, o ≠ .connect outcome) :
    Passed config (o.milestone?.toList ++ ms) w'

/-- Nothing is left out. -/
theorem Reached.exists_passed {config : Config} {os : List Operation} {w : Worker σ}
    (h : Reached config os w) : ∃ ms, Passed config ms w := by
  induction h with
  | new peer engine index => exact ⟨_, .new peer engine index⟩
  | around _ s outbox ih =>
    obtain ⟨ms, hms⟩ := ih
    exact ⟨ms, hms.around s outbox⟩
  | @performs os o w w' _ ho ih =>
    obtain ⟨ms, hms⟩ := ih
    have hattempt {result : Except WorkerError Unit} (ha : Attempts w.beginAttempt .asking w' result) :
        ∃ ms, Passed config ms w' := by
      obtain ⟨ss, hss⟩ := ha.exists_reports
      exact ⟨_, hms.connects hss⟩
    cases o with
    | connect outcome =>
      cases ho with
      | connects ha => exact hattempt ha
      | fails ha => exact hattempt ha
    | _ => exact ⟨_, hms.performs ho (by simp)⟩

/-- The operations that are no attempt enter the state of their milestone, if any. -/
theorem Performs.state_eq {w w' : Worker σ} {o : Operation} (h : Performs w o w')
    (hne : ∀ outcome, o ≠ .connect outcome) :
    w'.state = (o.milestone?.bind Milestone.state?).getD w.state := by
  cases h with
  | connects => exact absurd rfl (hne _)
  | fails => exact absurd rfl (hne _)
  | establishes => exact w.state_toEstablished
  | receives s _ hread =>
    have hstate := (w.within s).state_readMessage
    rw [hread] at hstate
    exact hstate
  | receivesNothing => rfl
  | publishes kind route => exact (w.notes_publish kind route).state
  | encodes e => exact (w.alike_encodeEvent e).state
  | sends data => exact (w.alike_send data).state
  | enqueues => rfl
  | takes =>
    unfold nextEvent
    split <;> rfl
  | cleans => exact w.stopAndClean_spec.1.state
  | runs hleads hresult =>
    obtain ⟨_, _, htidy⟩ := Runner.exists_tidy hleads
    exact (htidy.ended _ hresult).1.state

/-- The state is the one that the last milestone entered. -/
theorem Passed.state_eq {config : Config} {ms : List Milestone} {w : Worker σ}
    (h : Passed config ms w) : w.state = Milestone.final ms := by
  induction h with
  | new => rfl
  | around _ _ _ ih => exact ih
  | connects _ hs ih =>
    rw [hs.state_eq, state_beginAttempt, ih, Milestone.final_reports, Milestone.final_cons]
    rfl
  | @performs ms o w w' _ ho hne ih =>
    rw [ho.state_eq hne, ih]
    cases o.milestone? with
    | none => rfl
    | some m => exact (Milestone.final_cons m ms).symm

/-! ## Reading an UPDATE -/

omit [Engine σ] in
/-- Outside an established session an UPDATE is an error. -/
theorem handle_early {w : Worker σ} (hw : w.state ≠ .established) (u : Update) :
    (w.handle (.update u)).1 = .error (.earlyUpdate w.state) := by
  unfold handle
  rw [if_neg (by simp : Message.update u ≠ .nop)]
  exact congrArg Prod.fst (if_neg hw)

/-- Outside an established session nothing that is read is published. -/
theorem gives_readMessage_early {w : Worker σ} (hw : w.state ≠ .established) :
    Gives w [] w.readMessage.2 := by
  by_cases hc : Engine.isConnected w.engine = true
  · obtain ⟨v, -, hv, hstate, hok, herror⟩ := exists_readMessage hc
    rcases hr : (Engine.read w.engine).1 with e | m
    · rw [herror e hr]
      exact hv.quiet (v.gives_handleFailure e)
    · rw [hok m hr]
      rcases v.handle_cases m with h | ⟨u, rfl, hagain, -⟩
      · exact hv.quiet h
      · rw [handle_early (hstate ▸ hw)] at hagain
        cases hagain
  · unfold readMessage
    rw [if_neg hc]
    exact .refl w

/-- Outside an established session an UPDATE that is read is an error. -/
theorem readMessage_early {w : Worker σ} {s : Surroundings σ} {u : Update}
    (hw : w.state ≠ .established) (hs : s.Brings u) :
    (w.within s).readMessage.1 = .error (.earlyUpdate w.state) := by
  obtain ⟨v, -, -, hstate, hok, -⟩ := exists_readMessage (w := w.within s) hs.connected
  rw [hok _ hs.read, handle_early (hstate ▸ hw), hstate]
  rfl

/-- A message is read at the end of the wait for it. -/
theorem exists_receiveOnce_eq {w : Worker σ} (hc : w.connection.isSome) (s : Surroundings σ) :
    ∃ t, (w.within s).receiveOnce = (w.within { s with now := t }).readMessage := by
  obtain ⟨n, hn⟩ := Option.isSome_iff_exists.1 hc
  have hwait : (w.within s).waitEnd? = some (s.now + Engine.waitReadable pollTimeout s.engine) := by
    rw [waitEnd?, show (w.within s).connection = some n from hn]
    rfl
  exact ⟨_, by rw [receiveOnce, hwait]; rfl⟩

theorem calls_receiveOnce_early {w : Worker σ} (hw : w.state ≠ .established) (s : Surroundings σ) :
    (w.within s).receiveOnce.2.calls = w.calls := by
  unfold receiveOnce
  split
  · rfl
  · next t _ => exact (gives_readMessage_early (w := w.within { s with now := t }) hw).calls_eq

/-- **UPDATEs are accepted in an established session only.** Whatever was asked of a
    worker, `receiveOnce` asks something of the bus only where the last milestone that
    entered a state entered the established one: the session began, or the engine itself
    reported that state in the last step of an attempt.  In every other state an UPDATE
    that is read is an error, which says what the state is, and nothing is asked of the
    bus.  Where the session began last of all, a valid UPDATE is published. -/
theorem update_accepted_if_established (config : Config) (ms : List Milestone) (w : Worker σ)
    (h : Passed config ms w) (s : Surroundings σ) :
    ((w.within s).receiveOnce.2.calls ≠ w.calls → Milestone.final ms = .established) ∧
    ∀ u, w.connection.isSome → s.Brings u →
      (Milestone.final ms ≠ .established →
        (w.within s).receiveOnce.1 = .error (.earlyUpdate (Milestone.final ms)) ∧
        (w.within s).receiveOnce.2.calls = w.calls) ∧
      (ms.head? = some .established → u.Valid →
        (w.within s).receiveOnce.1 = .ok .again ∧
        (w.within s).receiveOnce.2.calls = w.calls ++ w.updateCalls u) := by
  have hstate := h.state_eq
  refine ⟨fun hcalls => ?_, fun u hc hs => ⟨fun hne => ?_, fun hbegun hu => ?_⟩⟩
  · by_contra hne
    exact hcalls (calls_receiveOnce_early (hstate ▸ hne) s)
  · have hw : w.state ≠ .established := hstate ▸ hne
    obtain ⟨t, ht⟩ := exists_receiveOnce_eq hc s
    refine ⟨?_, calls_receiveOnce_early hw s⟩
    rw [ht, ← hstate]
    exact readMessage_early hw ⟨hs.connected, hs.read⟩
  · have hest : w.state = .established := by
      obtain ⟨rest, rfl⟩ := List.head?_eq_some_iff.1 hbegun
      exact hstate
    obtain ⟨w', hw', -, hgives⟩ := receiveOnce_of_brings hest hc hs hu
    rw [hw']
    exact ⟨rfl, hgives.calls⟩

/-! ## An engine that reports a state and then completes the attempt -/

/-- A script with an UPDATE to be read, and these steps towards the session. -/
def Sample.steps (steps : List (Except EngineError EstablishStep)) : Script :=
  ({ steps, incoming := [.ok (.update ⟨[.sample .announced [8]], ∅⟩)]
     connected := true } : Script).negotiate [.ipv4MplsVpn] 90

/-- The engine has a single step left, in which it reports a state. -/
def Sample.asking (s : SessionState) : Surroundings Script :=
  ⟨Sample.steps [.ok ⟨s, .now⟩], 0, {}⟩

/-- The engine has no step left. -/
def Sample.reading : Surroundings Script := ⟨Sample.steps [], 100, {}⟩

def Sample.fresh : Worker Script := .sample (.sample false) {}

/-- The attempt succeeded, and the session has not begun. -/
def Sample.connected (s : SessionState) : Worker Script :=
  (Sample.fresh.beginAttempt.attempt .asking
    [Sample.asking s, Sample.reading, Sample.reading]).1

theorem brings_reading : Sample.reading.Brings ⟨[.sample .announced [8]], ∅⟩ := ⟨rfl, rfl⟩

theorem passed_connected (s : SessionState) :
    Passed Sample.fresh.config [.reported s, .attempted] (Sample.connected s) := by
  have hcompleted : Reports _ .asking [] (Sample.connected s) (.ok ()) :=
    .moves Sample.reading (by simp) .ends
  have hbackedOff : Reports _ (.backingOff 100 false) [] (Sample.connected s) (.ok ()) :=
    .moves Sample.reading (by simp) hcompleted
  have hreported : Reports Sample.fresh.beginAttempt .asking [s] (Sample.connected s) (.ok ()) :=
    .moves (Sample.asking s) (by simp) hbackedOff
  exact .connects (.new _ _ _) hreported

/-- In a state before the established one the UPDATE is refused; once the session began it
    is published. -/
theorem update_refused_then_accepted :
    ((Sample.connected .openConfirm).within Sample.reading).receiveOnce.1 =
      .error (.earlyUpdate .openConfirm) ∧
    ((Sample.connected .openConfirm).within Sample.reading).receiveOnce.2.calls = [] ∧
    ((Sample.connected .openConfirm).toEstablished.within Sample.reading).receiveOnce.1 =
      .ok .again ∧
    ((Sample.connected .openConfirm).toEstablished.within Sample.reading).receiveOnce.2.calls =
      [.subscribe Sample.fresh.id (.worker 0 0) ⟨.ipv4MplsVpn, none⟩,
        .advertise Sample.fresh.id ⟨.sample .announced [8], ∅⟩] := by
  have hpassed := passed_connected .openConfirm
  obtain ⟨-, hupdate⟩ := update_accepted_if_established _ _ _ hpassed Sample.reading
  obtain ⟨hrefused, -⟩ := hupdate _ rfl brings_reading
  obtain ⟨-, hupdate⟩ := update_accepted_if_established _ _ _
    (hpassed.performs .establishes (by simp)) Sample.reading
  obtain ⟨-, haccepted⟩ := hupdate _ rfl brings_reading
  obtain ⟨herror, hnone⟩ := hrefused (by decide)
  obtain ⟨hagain, hcalls⟩ := haccepted rfl (by simp [Update.Valid, Nlri.sample])
  refine ⟨herror, hnone, hagain, hcalls.trans ?_⟩
  rfl

/-- A new attempt is made over the session that began. -/
def Sample.renewed : Worker Script :=
  ((Sample.connected .openConfirm).toEstablished.beginAttempt.attempt .asking [Sample.reading]).1

theorem passed_renewed : Passed Sample.fresh.config
    [.attempted, .established, .reported .openConfirm, .attempted] Sample.renewed := by
  have hbegun := (passed_connected .openConfirm).performs .establishes (by simp)
  have hcompleted : Reports (Sample.connected .openConfirm).toEstablished.beginAttempt .asking []
      Sample.renewed (.ok ()) := .moves Sample.reading (by simp) .ends
  exact hbegun.connects hcompleted

/-- An engine that reports the established state is believed, and a new attempt over an
    established session leaves the state as it is: either way the UPDATE is published although
    no session began since the last attempt. -/
theorem update_accepted_before_session :
    (∃ ms, Passed Sample.fresh.config ms (Sample.connected .established) ∧
      Milestone.established ∉ ms ∧ Sample.reading.Brings ⟨[.sample .announced [8]], ∅⟩ ∧
      ((Sample.connected .established).within Sample.reading).receiveOnce.1 = .ok .again ∧
      ((Sample.connected .established).within Sample.reading).receiveOnce.2.calls =
        [.advertise Sample.fresh.id ⟨.sample .announced [8], ∅⟩]) ∧
    ∃ ms, Passed Sample.fresh.config (.attempted :: ms) Sample.renewed ∧
      (Sample.renewed.within Sample.reading).receiveOnce.1 = .ok .again ∧
      (Sample.renewed.within Sample.reading).receiveOnce.2.calls =
        Sample.renewed.calls ++ [.advertise Sample.fresh.id ⟨.sample .announced [8], ∅⟩] :=
  ⟨⟨_, passed_connected .established, by simp, brings_reading, rfl, rfl⟩,
    _, passed_renewed, rfl, rfl⟩

end Worker

end RouteExchange
