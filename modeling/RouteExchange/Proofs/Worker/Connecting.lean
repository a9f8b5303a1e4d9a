/-
  How an attempt over a script goes.

  A script is some steps and its ending.  The attempt is cut off at the first step where the
  engine closes the connection or a stop is asked for once the back-off is over
  (`finishAttempt_of_first`); where there is none, it takes all the steps and meets the ending
  (`finishAttempt_of_none`).  Either way the worker went a number of steps (`Worker.went`), and
  all else that an attempt does is to open one connection and, where it succeeds, to agree with
  the peer.
-/
import RouteExchange.Proofs.Sample
import RouteExchange.Proofs.Worker.Gives

namespace RouteExchange

/-! ## Scripts of an attempt -/

/-- The time that an attempt is left to back off in after these steps. -/
def backedOff (steps : List EstablishStep) : Time :=
  2000 * steps.countP (fun s => s.backoff = .later) + 100 * steps.countP (fun s => s.backoff = .now)

theorem backedOff_cons (s : EstablishStep) (steps : List EstablishStep) :
    backedOff (s :: steps) = s.backoff.delay + backedOff steps := by
  unfold backedOff
  rw [List.countP_cons, List.countP_cons, Nat.mul_add, Nat.mul_add, Nat.add_add_add_comm,
    Nat.add_comm]
  congr 1
  cases s.backoff with
  | later => rfl
  | now => rfl
  | close => rfl

theorem backedOff_singleton (s : EstablishStep) : backedOff [s] = s.backoff.delay :=
  backedOff_cons s []

/-- An attempt that begins at a time is cut off at a step: the engine closes the connection
    there, or a stop is asked for when the back-off after the step is over. -/
def CutOff (stop : StopSignal) (start : Time) (steps : List EstablishStep) (i : Nat) : Prop :=
  ∃ s ∈ steps[i]?,
    s.backoff = .close ∨ stop.raised (start + backedOff (steps.take (i + 1))) = true

instance (stop : StopSignal) (start : Time) (steps : List EstablishStep) (i : Nat) :
    Decidable (CutOff stop start steps i) :=
  inferInstanceAs (Decidable (∃ s ∈ steps[i]?,
    s.backoff = .close ∨ stop.raised (start + backedOff (steps.take (i + 1))) = true))

theorem lt_length_of_cutOff {stop : StopSignal} {start : Time} {steps : List EstablishStep}
    {i : Nat} (h : CutOff stop start steps i) : i < steps.length := by
  obtain ⟨s, hs, -⟩ := h
  exact (List.getElem?_eq_some_iff.1 hs).1

theorem cutOff_zero {stop : StopSignal} {start : Time} {s : EstablishStep}
    {steps : List EstablishStep} : CutOff stop start (s :: steps) 0 ↔
      s.backoff = .close ∨ stop.raised (start + s.backoff.delay) = true := by
  simp [CutOff, backedOff_singleton]

/-- Behind the first step the attempt goes on as one that begins after its back-off. -/
theorem cutOff_succ {stop : StopSignal} {start : Time} {s : EstablishStep}
    {steps : List EstablishStep} {i : Nat} : CutOff stop start (s :: steps) (i + 1) ↔
      CutOff stop (start + s.backoff.delay) steps i := by
  simp [CutOff, backedOff_cons, Nat.add_assoc]

/-- What the steps of a script end with. -/
inductive Ending where
  /-- The session is established. -/
  | established
  /-- The engine fails; the script goes on, for the attempts that follow. -/
  | failed (e : EngineError) (rest : List (Except EngineError EstablishStep))

/-- The entries of a script after its steps. -/
def Ending.entries : Ending → List (Except EngineError EstablishStep)
  | established => []
  | failed e rest => .error e :: rest

namespace Worker

/-! ## The steps -/

section
variable (w : Worker Script)

/-- The worker after some steps of its script, where `left` is left of it. -/
def went (steps : List EstablishStep) (left : List (Except EngineError EstablishStep)) :
    Worker Script :=
  { w with
    state := (steps.getLast?.map EstablishStep.state).getD w.state
    now := w.now + backedOff steps
    engine := { w.engine with steps := left } }

/-- The worker after one step, when the back-off is over. -/
def stepped (s : EstablishStep) (left : List (Except EngineError EstablishStep)) : Worker Script :=
  { ({ w with engine := { w.engine with steps := left } } : Worker Script).enter s.state with
    now := w.now + s.backoff.delay }

theorem went_nil (left : List (Except EngineError EstablishStep)) :
    w.went [] left = { w with engine := { w.engine with steps := left } } := rfl

theorem went_stepped (s : EstablishStep) (steps : List EstablishStep)
    (left left' : List (Except EngineError EstablishStep)) :
    ∃ history, (w.stepped s left).went steps left' =
      { w.went (s :: steps) left' with history } := by
  have hstate : (steps.getLast?.map EstablishStep.state).getD s.state =
      ((s :: steps).getLast?.map EstablishStep.state).getD w.state := by
    rw [List.getLast?_cons]
    cases steps.getLast? <;> rfl
  refine ⟨(w.stepped s left).history, ?_⟩
  unfold went
  rw [← hstate, backedOff_cons, ← Nat.add_assoc]
  rfl

end

section
variable {w : Worker Script} {s : EstablishStep} {steps : List EstablishStep}
  {left : List (Except EngineError EstablishStep)}

/-- The end of a back-off. -/
theorem finishAttempt_backingOff {w v : Worker Script} {t : Time} (closed : Bool)
    (hv : v = { w with now := max w.now t }) :
    w.finishAttempt (.backingOff t closed) =
      if v.stopping then (.error .stopped, v)
      else if closed then (.error (.connecting "socket closed"), v)
      else v.finishAttempt .asking := by
  have hmove : w.finishAttempt (.backingOff t closed) =
      (v.attemptStep (.backingOff t closed)).1.finishAttempt
        (v.attemptStep (.backingOff t closed)).2 := by
    rw [hv, finishAttempt]
  rw [hmove]
  simp only [attemptStep]
  split
  · rw [finishAttempt]
  · split
    · rw [finishAttempt]
    · rfl

/-- A step of the script, and what follows it. -/
theorem finishAttempt_step (h : w.engine.steps = .ok s :: left) :
    w.finishAttempt .asking =
      if w.stop.raised (w.now + s.backoff.delay) then (.error .stopped, w.stepped s left)
      else if s.backoff = .close then
        (.error (.connecting "socket closed"), w.stepped s left)
      else (w.stepped s left).finishAttempt .asking := by
  have hasked : w.attemptStep .asking =
      (({ w with engine := { w.engine with steps := left } } : Worker Script).enter s.state,
        .backingOff (w.now + s.backoff.delay) (s.backoff = .close)) := by
    simp only [attemptStep, Engine.establishStep, Script.establishStep, h]
  have hdue : max w.now (w.now + s.backoff.delay) = w.now + s.backoff.delay :=
    Nat.max_eq_right (Nat.le_add_right _ _)
  have hstepped : w.stepped s left =
      { ({ w with engine := { w.engine with steps := left } } : Worker Script).enter s.state with
        now := max w.now (w.now + s.backoff.delay) } := by
    rw [hdue]
    rfl
  rw [finishAttempt, hasked]
  refine (finishAttempt_backingOff _ hstepped).trans ?_
  simp only [decide_eq_true_eq]
  rfl

/-- A first step at which the attempt is not cut off. -/
theorem finishAttempt_of_not_cutOff (h : w.engine.steps = .ok s :: left)
    (hs : ¬ CutOff w.stop w.now (s :: steps) 0) :
    w.finishAttempt .asking = (w.stepped s left).finishAttempt .asking := by
  rw [cutOff_zero, not_or] at hs
  rw [finishAttempt_step h, if_neg hs.2, if_neg hs.1]

/-- The attempt ends at the first step at which it is cut off. -/
theorem finishAttempt_of_first {i : Nat} (h : w.engine.steps = steps.map .ok ++ left)
    (hcut : CutOff w.stop w.now steps i) (hfirst : ∀ j < i, ¬ CutOff w.stop w.now steps j) :
    ∃ history, w.finishAttempt .asking =
      (.error (if w.stop.raised (w.now + backedOff (steps.take (i + 1))) then .stopped
        else .connecting "socket closed"),
      { w.went (steps.take (i + 1)) ((steps.drop (i + 1)).map .ok ++ left) with history }) := by
  induction i generalizing w steps with
  | zero =>
    cases steps with
    | nil => exact absurd (lt_length_of_cutOff hcut) (Nat.not_lt_zero _)
    | cons s steps =>
      have hfront : w.engine.steps = .ok s :: (steps.map .ok ++ left) := h
      rw [cutOff_zero] at hcut
      have hstepped : w.stepped s (steps.map .ok ++ left) =
          { w.went [s] (steps.map .ok ++ left) with
            history := (w.stepped s (steps.map .ok ++ left)).history } := by
        rw [went, backedOff_singleton]
        rfl
      refine ⟨(w.stepped s (steps.map .ok ++ left)).history, ?_⟩
      rw [finishAttempt_step hfront, List.take_succ_cons, List.take_zero, backedOff_singleton]
      by_cases hraised : w.stop.raised (w.now + s.backoff.delay) = true
      · rw [if_pos hraised, if_pos hraised]
        exact congrArg (Prod.mk _) hstepped
      · rw [if_neg hraised, if_neg hraised, if_pos (hcut.resolve_right hraised)]
        exact congrArg (Prod.mk _) hstepped
  | succ i ih =>
    cases steps with
    | nil => exact absurd (lt_length_of_cutOff hcut) (Nat.not_lt_zero _)
    | cons s steps =>
      have hfront : w.engine.steps = .ok s :: (steps.map .ok ++ left) := h
      have hrest : (w.stepped s (steps.map .ok ++ left)).engine.steps =
          steps.map .ok ++ left := rfl
      obtain ⟨history, hend⟩ := ih hrest (cutOff_succ.1 hcut)
        fun j hj hcut => hfirst (j + 1) (Nat.succ_lt_succ hj) (cutOff_succ.2 hcut)
      obtain ⟨history', hwent⟩ := w.went_stepped s (steps.take (i + 1))
        (steps.map .ok ++ left) ((steps.drop (i + 1)).map .ok ++ left)
      rw [finishAttempt_of_not_cutOff hfront (hfirst 0 (Nat.succ_pos i)), hend, hwent]
      refine ⟨history, ?_⟩
      rw [List.take_succ_cons, backedOff_cons, ← Nat.add_assoc]
      rfl

/-- An attempt that is never cut off takes all steps. -/
theorem finishAttempt_of_none (h : w.engine.steps = steps.map .ok ++ left)
    (hnone : ∀ i, ¬ CutOff w.stop w.now steps i) :
    ∃ history, w.finishAttempt .asking =
      ({ w.went steps left with history } : Worker Script).finishAttempt .asking := by
  induction steps generalizing w with
  | nil =>
    refine ⟨w.history, ?_⟩
    have hengine : { w.engine with steps := left } = w.engine := by
      rw [← show w.engine.steps = left from h]
    rw [went_nil, hengine]
  | cons s steps ih =>
    have hfront : w.engine.steps = .ok s :: (steps.map .ok ++ left) := h
    have hrest : (w.stepped s (steps.map .ok ++ left)).engine.steps = steps.map .ok ++ left := rfl
    obtain ⟨history, hend⟩ := ih hrest fun i hcut => hnone (i + 1) (cutOff_succ.2 hcut)
    obtain ⟨history', hwent⟩ := w.went_stepped s steps (steps.map .ok ++ left) left
    rw [finishAttempt_of_not_cutOff hfront (hnone 0), hend, hwent]
    exact ⟨history, rfl⟩

/-! ## The ending -/

/-- The error of an established session for which nothing was agreed. -/
def notNegotiated : WorkerError := .engine (.protocol "established without a negotiated context")

theorem finishAttempt_failed {e : EngineError} (h : w.engine.steps = .error e :: left) :
    ∃ history, w.finishAttempt .asking =
      (.error (attemptError e), { w with engine := { w.engine with steps := left }, history }) := by
  have hasked : w.attemptStep .asking =
      ({ w with engine := { w.engine with steps := left } } : Worker Script).failAttempt e := by
    simp only [attemptStep, Engine.establishStep, Script.establishStep, h]
  rw [finishAttempt, hasked, failAttempt]
  split
  · next n hn =>
    rw [finishAttempt, hn]
    exact ⟨_, rfl⟩
  · rw [finishAttempt]
    exact ⟨w.history, rfl⟩

theorem attemptStep_established (h : w.engine.steps = []) :
    w.attemptStep .asking = w.completeAttempt := by
  simp only [attemptStep, Engine.establishStep, Script.establishStep, h]

theorem finishAttempt_notNegotiated (h : w.engine.steps = []) (hn : w.engine.negotiated = none) :
    w.finishAttempt .asking = (.error notNegotiated, w) := by
  rw [finishAttempt, attemptStep_established h, completeAttempt]
  simp only [Engine.negotiated, hn]
  rw [finishAttempt]
  rfl

theorem negotiateFamilies_eq {σ : Type} (w : Worker σ) (fs : List Family) :
    ∃ history, w.negotiateFamilies fs = { w.agree fs with history } := by
  obtain ⟨history, hwarn⟩ : ∃ history, (w.config.offered.filter fun f => !fs.contains f).foldl
      (fun w f => w.log .warn ("Peer does not support family " ++ f.text)) w =
        { w with history } :=
    List.foldlRecOn _ _ (motive := fun u : Worker σ => ∃ history, u = { w with history })
      ⟨w.history, rfl⟩ (by rintro _ ⟨_, rfl⟩ f -; exact ⟨_, rfl⟩)
  unfold negotiateFamilies
  simp only [hwarn]
  split
  · exact ⟨_, rfl⟩
  · exact ⟨_, rfl⟩

theorem finishAttempt_negotiated {n : Negotiated} (h : w.engine.steps = [])
    (hn : w.engine.negotiated = some n) :
    ∃ history, w.finishAttempt .asking =
      (.ok (), { w.agree n.peerFamilies with holdTime := n.holdTime, history }) := by
  obtain ⟨history, hfamilies⟩ :=
    negotiateFamilies_eq ({ w with holdTime := n.holdTime } : Worker Script) n.peerFamilies
  rw [finishAttempt, attemptStep_established h, completeAttempt]
  simp only [Engine.negotiated, hn, hfamilies]
  rw [finishAttempt]
  exact ⟨history, rfl⟩

end

/-! ## Whole attempts -/

/-- The worker after an attempt that took these steps of the script and agreed on nothing.
    The attempt opened one connection, which is held; one that was held before is closed. -/
def attempted (w : Worker Script) (steps : List EstablishStep)
    (left : List (Except EngineError EstablishStep)) : Worker Script :=
  { w with
    state := (steps.getLast?.map EstablishStep.state).getD w.state
    now := w.now + backedOff steps
    activeFamilies := []
    rtcActive := false
    connection := some w.connections
    connections := w.connections + 1
    engine := { w.engine with
      steps := left
      neighbors := w.engine.neighbors ++ [w.neighbor]
      connected := true
      closes := w.engine.closes + if w.connection.isSome then 1 else 0 } }

theorem beginAttempt_eq (w : Worker Script) :
    ∃ history, w.beginAttempt = { w.attempted [] w.engine.steps with history } := by
  refine ⟨w.beginAttempt.history, ?_⟩
  unfold beginAttempt closeConnection attempted
  cases hc : w.connection with
  | none => rfl
  | some n => rfl

/-- **What comes of an attempt.** A script holds some steps and an ending.  If at some step
    the engine closes the connection or a stop is asked for at the end of the back-off, the
    attempt takes the steps up to the first such one and fails: because of the stop if one is
    asked for then, else because of the connection.  Otherwise it takes all steps, and fails
    as the script does; or, where that is established, fails for good without anything agreed
    and else succeeds.  Besides agreeing on the hold time and the families where it succeeds,
    it does to the worker just what `attempted` says. -/
theorem connect_exact (w : Worker Script) (steps : List EstablishStep) (ending : Ending)
    (h : w.engine.steps = steps.map .ok ++ ending.entries) :
    (∀ i, CutOff w.stop w.now steps i → (∀ j < i, ¬ CutOff w.stop w.now steps j) →
      ∃ history, w.connect =
        (.error (if w.stop.raised (w.now + backedOff (steps.take (i + 1))) then .stopped
          else .connecting "socket closed"),
        { w.attempted (steps.take (i + 1)) ((steps.drop (i + 1)).map .ok ++ ending.entries) with
          history })) ∧
    ((∀ i, ¬ CutOff w.stop w.now steps i) →
      (∀ e rest, ending = .failed e rest → ∃ history, w.connect =
        (.error (attemptError e), { w.attempted steps rest with history })) ∧
      (ending = .established → w.engine.negotiated = none →
        notNegotiated.isFatal = true ∧ ∃ history, w.connect =
          (.error notNegotiated, { w.attempted steps [] with history })) ∧
      (ending = .established → ∀ n, w.engine.negotiated = some n → ∃ history, w.connect =
        (.ok (), { (w.attempted steps []).agree n.peerFamilies with
          holdTime := n.holdTime, history }))) := by
  obtain ⟨history, hbegun⟩ := w.beginAttempt_eq
  unfold connect
  rw [hbegun]
  constructor
  · intro i hcut hfirst
    obtain ⟨history', hend⟩ := finishAttempt_of_first
      (w := { w.attempted [] w.engine.steps with history }) h hcut hfirst
    exact ⟨history', hend⟩
  · intro hnone
    obtain ⟨history', hend⟩ := finishAttempt_of_none
      (w := { w.attempted [] w.engine.steps with history }) h hnone
    rw [hend]
    refine ⟨?_, ?_, ?_⟩
    · rintro e rest rfl
      obtain ⟨history'', hfailed⟩ := finishAttempt_failed
        (w := { w.attempted steps (.error e :: rest) with history := history' }) rfl
      exact ⟨history'', hfailed⟩
    · rintro rfl hn
      refine ⟨rfl, history', ?_⟩
      exact finishAttempt_notNegotiated
        (w := { w.attempted steps [] with history := history' }) rfl hn
    · rintro rfl n hn
      obtain ⟨history'', hagreed⟩ := finishAttempt_negotiated
        (w := { w.attempted steps [] with history := history' }) rfl hn
      exact ⟨history'', hagreed⟩

/-- Two steps to back off after, one of them for long. -/
def Sample.approach : List EstablishStep :=
  [⟨.connect, .now⟩, ⟨.openSent, .later⟩, ⟨.openConfirm, .now⟩]

/-- A worker that goes through these steps, with a stop asked for at some moments. -/
def Sample.approaching (moments : List Time) : Worker Script :=
  let script : Script := ({ steps := Sample.approach.map .ok } : Script).negotiate [.ipv4MplsVpn] 90
  { Worker.sample (.sample false) script with stop := ⟨moments⟩ }

/-- A stop within the long back-off is seen at its end; without one the attempt succeeds. -/
theorem sample_connect_exact :
    (Sample.approaching [1000]).connect.1 = .error .stopped ∧
    (Sample.approaching [1000]).connect.2.now = 2100 ∧
    (Sample.approaching [1000]).connect.2.state = .openSent ∧
    (Sample.approaching [1000]).connect.2.engine.steps = [.ok ⟨.openConfirm, .now⟩] ∧
    (Sample.approaching []).connect.1 = .ok () ∧
    (Sample.approaching []).connect.2.now = 2200 ∧
    (Sample.approaching []).connect.2.activeFamilies = [.ipv4MplsVpn] := by
  obtain ⟨hcut, -⟩ := connect_exact (Sample.approaching [1000]) Sample.approach .established rfl
  obtain ⟨history, hstopped⟩ := hcut 1 (by decide) (by decide)
  obtain ⟨-, hthrough⟩ := connect_exact (Sample.approaching []) Sample.approach .established rfl
  have hnone : ∀ i, ¬ CutOff ⟨[]⟩ 0 Sample.approach i := by
    intro i hi
    have hall : ∀ i < Sample.approach.length, ¬ CutOff ⟨[]⟩ 0 Sample.approach i := by decide
    exact hall i (lt_length_of_cutOff hi) hi
  obtain ⟨-, -, hagreed⟩ := hthrough hnone
  obtain ⟨history', hdone⟩ := hagreed rfl _ rfl
  rw [hstopped, hdone]
  exact ⟨rfl, rfl, rfl, rfl, rfl, rfl, rfl⟩

end Worker

end RouteExchange
