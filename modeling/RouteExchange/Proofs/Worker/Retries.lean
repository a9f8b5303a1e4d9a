/-
  What a running worker gives up on, and what it tries again.

  `Runner.trouble?` is what goes wrong in the next move, read off the answers of the
  engine, and `Trouble.verdict` the error with which the worker then gives up, if it
  does.  `Runner.Fate` is what can become of a move; there is nothing else, since a
  worker that is in a session is established (`Runner.Live`).  `run_gives_up_or_retries`
  draws the conclusion for all runs.
-/
import RouteExchange.Proofs.Worker.Live

namespace RouteExchange

/-! ## What can go wrong -/

/-- An UPDATE with an NLRI that is neither announced nor withdrawn. -/
def Message.invalid : Message → Bool
  | update u => u.nlris.any fun n => n.action = .unset
  | _ => false

/-- What can go wrong in an attempt or in a session. -/
inductive Trouble where
  /-- The engine fails on the way to a session. -/
  | refused (e : EngineError)
  /-- The session is established, but nothing was agreed. -/
  | unagreed
  /-- The connection is closed on the way to a session. -/
  | closed
  /-- The connection of a session is gone. -/
  | disconnected
  /-- A message of a session cannot be read. -/
  | unreadable (e : EngineError)
  /-- An UPDATE of a session is invalid. -/
  | invalid
  /-- The peer was not heard for the hold time. -/
  | silent
deriving DecidableEq, Repr

namespace Trouble

/-- The error with which a worker gives up; where there is none it tries again. -/
def verdict : Trouble → Option WorkerError
  | refused (.notification n) => if (n.code, n.subcode) = (1, 1) then none else some (.notified n)
  | refused .interrupted | refused (.lostConnection _) => none
  | refused e => some (.engine e)
  | unagreed => some (.engine (.protocol "established without a negotiated context"))
  | unreadable (.notification _) | unreadable (.lostConnection _) | unreadable (.decode _) => none
  | unreadable e => some (.engine e)
  | invalid => some (.invalidAction .unset)
  | closed | disconnected | silent => none

/-- How an attempt or a session ends. -/
def ending : Trouble → Except WorkerError SessionEnd
  | refused e => .error (Worker.attemptError e)
  | unagreed => .error (.engine (.protocol "established without a negotiated context"))
  | closed => .error (.connecting "socket closed")
  | disconnected => .error (.lostConnection "connection closed")
  | unreadable (.notification _) | unreadable (.lostConnection _) | unreadable (.decode _) =>
    .ok .reconnect
  | unreadable e => .error (.engine e)
  | invalid => .error (.invalidAction .unset)
  | silent => .ok .reconnect

end Trouble

/-- The end of an attempt or a session that another attempt follows. -/
def Retried (x : Except WorkerError SessionEnd) : Prop :=
  x = .ok .reconnect ∨ ∃ e, x = .error e ∧ e.isFatal = false ∧ e ≠ .stopped

/-- A worker gives up just where it meets a fatal error. -/
theorem Trouble.verdict_cases (t : Trouble) :
    (∃ e, t.verdict = some e ∧ t.ending = .error e ∧ e.isFatal = true ∧
      ∀ s, e ≠ .earlyUpdate s) ∨
    (t.verdict = none ∧ Retried t.ending) := by
  have hretried (e : WorkerError) (hf : e.isFatal = false) (hs : e ≠ .stopped) :
      Retried (.error e) := .inr ⟨e, rfl, hf, hs⟩
  cases t with
  | refused e =>
    cases e with
    | notification n =>
      by_cases hn : (n.code, n.subcode) = (1, 1)
      · have hend : (refused (.notification n)).ending = .error (.openTimeout n) := by
          rw [ending, Worker.attemptError, Worker.openTimeoutCodes, if_pos hn]
        exact .inr ⟨if_pos hn, hend ▸ hretried _ rfl (by simp)⟩
      · refine .inl ⟨.notified n, if_neg hn, ?_, rfl, by simp⟩
        rw [ending, Worker.attemptError, Worker.openTimeoutCodes, if_neg hn]
    | interrupted => exact .inr ⟨rfl, hretried (.connecting _) rfl (by simp)⟩
    | lostConnection text => exact .inr ⟨rfl, hretried (.lostConnection text) rfl (by simp)⟩
    | decode text => exact .inl ⟨_, rfl, rfl, rfl, by simp⟩
    | encode text => exact .inl ⟨_, rfl, rfl, rfl, by simp⟩
    | protocol text => exact .inl ⟨_, rfl, rfl, rfl, by simp⟩
    | system f => exact .inl ⟨_, rfl, rfl, rfl, by simp⟩
  | unagreed => exact .inl ⟨_, rfl, rfl, rfl, by simp⟩
  | closed => exact .inr ⟨rfl, hretried _ rfl (by simp)⟩
  | disconnected => exact .inr ⟨rfl, hretried _ rfl (by simp)⟩
  | unreadable e =>
    cases e with
    | notification n => exact .inr ⟨rfl, .inl rfl⟩
    | lostConnection text => exact .inr ⟨rfl, .inl rfl⟩
    | decode text => exact .inr ⟨rfl, .inl rfl⟩
    | interrupted => exact .inl ⟨_, rfl, rfl, rfl, by simp⟩
    | encode text => exact .inl ⟨_, rfl, rfl, rfl, by simp⟩
    | protocol text => exact .inl ⟨_, rfl, rfl, rfl, by simp⟩
    | system f => exact .inl ⟨_, rfl, rfl, rfl, by simp⟩
  | invalid => exact .inl ⟨_, rfl, rfl, rfl, by simp⟩
  | silent => exact .inr ⟨rfl, .inl rfl⟩

/-! ## What a message does to an established session -/

namespace Worker

variable {σ : Type}

theorem kinds?_eq_none_iff (ns : List Nlri) :
    kinds? ns = none ↔ ∃ n ∈ ns, n.action = .unset := by
  constructor
  · intro h
    by_contra hvalid
    rw [kinds?_eq_some fun n hn ha => hvalid ⟨n, hn, ha⟩] at h
    cases h
  · rintro ⟨n, hn, ha⟩
    induction ns with
    | nil => cases hn
    | cons m ns ih =>
      rw [kinds?]
      rcases List.mem_cons.1 hn with rfl | hn
      · rw [ha]
        rfl
      · rw [ih hn]
        cases Route.Kind.ofAction? m.action <;> rfl

/-- In an established session only an invalid UPDATE is an error. -/
theorem handle_fst {w : Worker σ} (hw : w.state = .established) (m : Message) :
    (w.handle m).1 = if m.invalid then .error (.invalidAction .unset) else .ok .again := by
  have hcount : (if m = .nop then w else w.count (.received w.id m.name)).state = .established := by
    split
    · exact hw
    · exact hw
  unfold handle
  simp only
  generalize (if m = .nop then w else w.count (.received w.id m.name)) = v at hcount ⊢
  cases m with
  | update u =>
    simp only [if_pos hcount, publishUpdate, Message.invalid, List.any_eq_true, decide_eq_true_eq]
    cases hk : kinds? u.nlris with
    | none => rw [if_pos ((kinds?_eq_none_iff _).1 hk)]
    | some ks =>
      rw [if_neg]
      intro hu
      rw [(kinds?_eq_none_iff _).2 hu] at hk
      cases hk
  | nop => rfl
  | keepalive => rfl
  | opening o => rfl
  | notification n => rfl
  | routeRefresh f => rfl

variable [Engine σ]

/-- Where there is a connection, a message is read first, and then handled. -/
theorem exists_readMessage {w : Worker σ} (hw : Engine.isConnected w.engine = true) :
    ∃ v, Passes w [.read (Engine.read w.engine).1] v ∧ Gives w [] v ∧ v.state = w.state ∧
      (∀ m, (Engine.read w.engine).1 = .ok m → w.readMessage = v.handle m) ∧
      ∀ e, (Engine.read w.engine).1 = .error e → w.readMessage = v.handleFailure e := by
  unfold readMessage
  rw [if_pos hw]
  rcases Engine.read w.engine with ⟨r, s⟩
  refine ⟨({ w with engine := s } : Worker σ).emit (.read r),
    (w.passes_engine s).after (passes_emit _ rfl ⟨rfl, rfl⟩),
    (w.gives_surroundings _ _ s _ _).quiet (gives_emit _ rfl rfl), rfl, ?_, ?_⟩
  · rintro m rfl
    rfl
  · rintro e rfl
    rfl

end Worker

namespace Runner

open Worker (Gives Passes)

variable {σ : Type} [Engine σ]

/-! ## What becomes of a move -/

/-- What goes wrong in the next move. -/
def trouble? (r : Runner σ) : Option Trouble :=
  match r.phase with
  | .connecting .asking =>
    match Engine.establishStep r.worker.engine with
    | (.error e, _) => some (.refused e)
    | (.ok none, s) => if (Engine.negotiated s).isNone then some .unagreed else none
    | (.ok (some _), _) => none
  | .connecting (.backingOff _ closed) =>
    if closed && !r.worker.stopping then some .closed else none
  | .waiting _ _ =>
    if Engine.isConnected r.worker.engine then
      match (Engine.read r.worker.engine).1 with
      | .error e => some (.unreadable e)
      | .ok m => if m.invalid then some .invalid else none
    else some .disconnected
  | .checking t => if t.expired r.worker.now then some .silent else none
  | _ => none

/-- The worker looks at its stop signal in the next move, and is to stop. -/
def seesStop (r : Runner σ) : Bool :=
  match r.phase with
  | .between | .connecting (.backingOff _ _) | .polling _ => r.worker.stopping
  | _ => false

/-- The move after a pause, where both moves are made in surroundings of their own. -/
def afterPause (r : Runner σ) (x y : Surroundings σ × List WorkerEvent) : Runner σ :=
  ((r.amid x.1 x.2).step.amid y.1 y.2).step

/-- The worker has cleaned up and pauses.  Then it opens another connection, unless it
    is to stop. -/
structure Restarts (w : Worker σ) (r : Runner σ) : Prop where
  clean : r.worker.Clean
  calls : r.worker.calls = w.calls ++ [.cleanup w.id]
  pauses : ∃ d, r.phase = .pausing d
  connections : r.worker.connections = w.connections
  stops : ∀ x y : Surroundings σ × List WorkerEvent, y.1.stop.raised y.1.now = true →
    (r.afterPause x y).result? = some (.ok ())
  again : ∀ x y : Surroundings σ × List WorkerEvent, y.1.stop.raised y.1.now = false →
    (r.afterPause x y).phase = .connecting .asking ∧
    (r.afterPause x y).worker.connections = w.connections + 1

/-- What can become of the next move of a worker that runs. -/
inductive Fate (r r' : Runner σ) : Prop
  | goesOn (ht : r.trouble? = none) (hs : r.seesStop = false) (hr : r'.result? = none)
  | stops (ht : r.trouble? = none) (hs : r.seesStop = true) (hr : r'.result? = some (.ok ()))
  | givesUp {t : Trouble} {e : WorkerError} (ht : r.trouble? = some t) (hs : r.seesStop = false)
    (hv : t.verdict = some e) (hf : e.isFatal = true) (he : ∀ s, e ≠ .earlyUpdate s)
    (hr : r'.result? = some (.error e)) (hc : r'.worker.connections = r.worker.connections)
  | retries {t : Trouble} (ht : r.trouble? = some t) (hs : r.seesStop = false)
    (hv : t.verdict = none) (hr : Restarts r.worker r')

theorem conclude_fatal (w : Worker σ) {e : WorkerError} (he : e.isFatal = true) :
    (conclude w (.error e)).result? = some (.error e) := by
  cases e with
  | stopped => cases he
  | _ => simp only [conclude, if_pos he, result?]

theorem conclude_retried (w : Worker σ) {x : Except WorkerError SessionEnd} (hx : Retried x) :
    ∃ u, conclude w x = retry u := by
  rcases hx with rfl | ⟨e, rfl, he, hne⟩
  · exact ⟨_, rfl⟩
  · cases e with
    | stopped => exact absurd rfl hne
    | _ => exact ⟨_, by simp only [conclude, he, Bool.false_eq_true, if_false]; rfl⟩

/-- After its pause the worker looks at its stop signal. -/
theorem afterPause_of_pausing {r : Runner σ} {d : Time} (hr : r.phase = .pausing d)
    (x y : Surroundings σ × List WorkerEvent) :
    r.afterPause x y = ((⟨(r.amid x.1 x.2).worker, .between⟩ : Runner σ).amid y.1 y.2).step := by
  rcases r with ⟨w, phase⟩
  cases hr
  rfl

theorem CleansUp.restarts {w u : Worker σ} {es : List Effect} {r : Runner σ} (hp : Passes w es u)
    (hg : Gives w [] u) (h : CleansUp u r) {d : Time} (hr : r.phase = .pausing d) :
    Restarts w r := by
  have hcount := h.connections.trans hp.connections
  refine ⟨h.clean, ?_, ⟨d, hr⟩, hcount, fun x y hstop => ?_, fun x y hstop => ?_⟩
  · rw [h.cleaned.calls, hg.calls_eq, hg.id]
  · rw [afterPause_of_pausing hr]
    exact congrArg result? (if_pos hstop)
  · rw [afterPause_of_pausing hr]
    have hbegin : ((⟨(r.amid x.1 x.2).worker, .between⟩ : Runner σ).amid y.1 y.2).step =
        ⟨((⟨(r.amid x.1 x.2).worker, .between⟩ : Runner σ).amid y.1 y.2).worker.beginAttempt,
          .connecting .asking⟩ := if_neg (ne_true_of_eq_false hstop)
    rw [hbegin]
    refine ⟨rfl, ?_⟩
    rw [Worker.beginAttempt_spec _ |>.2.2]
    exact congrArg (· + 1) hcount

/-- Trouble ends an attempt or a session, and its kind says what follows. -/
theorem Fate.of_conclude {r : Runner σ} {u : Worker σ} {es : List Effect} {t : Trouble}
    (ht : r.trouble? = some t) (hs : r.seesStop = false) (hp : Passes r.worker es u)
    (hg : Gives r.worker [] u) : Fate r (conclude u t.ending) := by
  have hc := cleansUp_conclude u t.ending
  rcases t.verdict_cases with ⟨e, hv, hend, hf, he⟩ | ⟨hv, hretried⟩
  · refine .givesUp ht hs hv hf he ?_ (hc.connections.trans hp.connections)
    rw [hend]
    exact conclude_fatal u hf
  · refine .retries ht hs hv ?_
    obtain ⟨v, hretry⟩ := conclude_retried u hretried
    exact hc.restarts hp hg (congrArg Runner.phase hretry)

/-- Where nothing goes wrong, the worker ends only when it sees that it is to stop. -/
theorem Fate.of_finish {w u : Worker σ} {p : Phase} (ht : trouble? ⟨w, p⟩ = none)
    (hs : seesStop ⟨w, p⟩ = true) : Fate ⟨w, p⟩ (finish u) := .stops ht hs rfl

theorem fate_asking (w : Worker σ) : Fate ⟨w, .connecting .asking⟩
    (afterAttempt (w.attemptStep .asking).1 (w.attemptStep .asking).2) := by
  rcases hstep : Engine.establishStep w.engine with ⟨r, s⟩
  have hs : Passes w [] { w with engine := s } := w.passes_engine s
  have hg : Gives w [] { w with engine := s } := w.gives_surroundings _ _ s _ _
  cases r with
  | error e =>
    have ht : trouble? ⟨w, .connecting .asking⟩ = some (.refused e) := by
      simp only [trouble?, hstep]
    have hend : afterAttempt (w.attemptStep .asking).1 (w.attemptStep .asking).2 =
        conclude (Worker.failAttempt { w with engine := s } e).1 (Trouble.refused e).ending := by
      simp only [Worker.attemptStep, hstep, Worker.failAttempt, Trouble.ending]
      split
      · next n hn => rw [hn]; rfl
      · rfl
    rw [hend]
    exact .of_conclude ht rfl (hs.quiet (Worker.passes_failAttempt _ e))
      (hg.quiet (Worker.gives_failAttempt _ e))
  | ok step =>
    cases step with
    | some step =>
      refine .goesOn ?_ rfl ?_
      · simp only [trouble?, hstep]
      · simp only [Worker.attemptStep, hstep]
        rfl
    | none =>
      cases hn : Engine.negotiated s with
      | none =>
        have ht : trouble? ⟨w, .connecting .asking⟩ = some .unagreed := by
          simp [trouble?, hstep, hn]
        have hend : afterAttempt (w.attemptStep .asking).1 (w.attemptStep .asking).2 =
            conclude { w with engine := s } Trouble.unagreed.ending := by
          simp only [Worker.attemptStep, hstep, Worker.completeAttempt, hn]
          rfl
        rw [hend]
        exact .of_conclude ht rfl hs hg
      | some n =>
        refine .goesOn ?_ rfl ?_
        · simp [trouble?, hstep, hn]
        · simp only [Worker.attemptStep, hstep, Worker.completeAttempt, hn]
          rfl

theorem fate_backingOff (w : Worker σ) (t : Time) (closed : Bool) :
    Fate ⟨w, .connecting (.backingOff t closed)⟩ (afterAttempt
      (w.attemptStep (.backingOff t closed)).1 (w.attemptStep (.backingOff t closed)).2) := by
  simp only [Worker.attemptStep]
  cases hstop : w.stopping with
  | true => exact .of_finish (by simp [trouble?, hstop]) hstop
  | false =>
    cases closed with
    | true =>
      have ht : trouble? ⟨w, .connecting (.backingOff t true)⟩ = some .closed := by
        simp [trouble?, hstop]
      exact .of_conclude ht hstop (.refl w) (.refl w)
    | false => exact .goesOn rfl hstop rfl

theorem fate_waiting {w : Worker σ} (hw : w.state = .established) (u : Time) (t : Timers) :
    Fate ⟨w, .waiting u t⟩ (afterRead t w.readMessage.2 w.readMessage.1) := by
  cases hc : Engine.isConnected w.engine with
  | false =>
    have ht : trouble? ⟨w, .waiting u t⟩ = some .disconnected := by simp [trouble?, hc]
    have hend : afterRead t w.readMessage.2 w.readMessage.1 =
        conclude w Trouble.disconnected.ending := by
      simp only [Worker.readMessage, hc, Bool.false_eq_true, if_false]
      rfl
    rw [hend]
    exact .of_conclude ht rfl (.refl w) (.refl w)
  | true =>
    obtain ⟨v, hp, hg, hstate, hok, herror⟩ := Worker.exists_readMessage hc
    rcases hr : (Engine.read w.engine).1 with e | m
    · have ht : trouble? ⟨w, .waiting u t⟩ = some (.unreadable e) := by simp [trouble?, hc, hr]
      have hend : afterRead t (v.handleFailure e).2 (v.handleFailure e).1 =
          conclude (v.handleFailure e).2 (Trouble.unreadable e).ending := by
        cases e <;> rfl
      rw [herror e hr, hend]
      exact .of_conclude ht rfl (hp.quiet (v.passes_handleFailure e))
        (hg.quiet (v.gives_handleFailure e))
    · have hfst := Worker.handle_fst (hstate.trans hw) m
      rw [hok m hr, hfst]
      cases hm : m.invalid with
      | false => exact .goesOn (by simp [trouble?, hc, hr, hm]) rfl rfl
      | true =>
        have ht : trouble? ⟨w, .waiting u t⟩ = some .invalid := by simp [trouble?, hc, hr, hm]
        rw [hm, if_pos rfl] at hfst
        rcases v.handle_cases m with hgives | ⟨_, -, hagain, -⟩
        · exact .of_conclude ht rfl (hp.quiet (v.passes_handle m)) (hg.quiet hgives)
        · rw [hfst] at hagain
          cases hagain

theorem fate_drain (w : Worker σ) (t : Timers) : Fate ⟨w, .draining t⟩ (drain t w) := by
  refine .goesOn rfl rfl ?_
  unfold drain
  split <;> rfl

theorem fate_check (w : Worker σ) (t : Timers) : Fate ⟨w, .checking t⟩ (check t w) := by
  unfold check
  cases hexpired : t.expired w.now with
  | true =>
    have ht : trouble? ⟨w, .checking t⟩ = some .silent := by simp [trouble?, hexpired]
    exact .of_conclude ht rfl (w.passes_log _ _) (w.gives_log _ _)
  | false =>
    refine .goesOn (by simp [trouble?, hexpired]) rfl ?_
    simp only [Bool.false_eq_true, if_false]
    split <;> rfl

/-- Every move of a worker that runs has one of these fates. -/
theorem step_fate {r : Runner σ} (hl : r.Live) (hrun : r.result? = none) : Fate r r.step := by
  rcases r with ⟨w, phase⟩
  cases phase with
  | between =>
    simp only [step]
    cases hstop : w.stopping with
    | true => exact .of_finish rfl hstop
    | false => exact .goesOn rfl hstop rfl
  | connecting a =>
    cases a with
    | asking => exact fate_asking w
    | backingOff t closed => exact fate_backingOff w t closed
    | ended result => exact absurd rfl (hl.2 result)
  | polling t =>
    simp only [step]
    cases hstop : w.stopping with
    | true => exact .of_finish rfl hstop
    | false =>
      obtain ⟨n, hn⟩ := Option.isSome_iff_exists.1 hl.1
      have hwait : w.waitEnd? = some (w.now + Engine.waitReadable Worker.pollTimeout w.engine) := by
        rw [Worker.waitEnd?, show w.connection = some n from hn]
        rfl
      exact .goesOn rfl hstop (by simp [hwait, result?])
  | waiting u t => exact fate_waiting hl.2 u t
  | draining t => exact fate_drain w t
  | checking t => exact fate_check w t
  | pausing u => exact .goesOn rfl rfl rfl
  | finished result => cases hrun

/-- A run that has a result got it by its last move. -/
theorem exists_last_move {w : Worker σ} {r : Runner σ} (h : Leads Running (start w) r)
    (hr : r.result? ≠ none) :
    ∃ q s events, Leads Running (start w) q ∧ q.result? = none ∧ r = (q.amid s events).step := by
  cases h with
  | refl => exact absurd rfl hr
  | tail hq hmove =>
    obtain ⟨s, events, hrun⟩ := hmove
    exact ⟨_, s, events, hq, hrun, rfl⟩

/-- **What a run gives up on, and what it tries again.** Whatever the engine of a worker
    does and whenever it is stopped: a run ends without an error only by a move in which
    it saw that it is to stop.  It ends with an error only by a move in which it met
    trouble with that verdict; the error is a fatal one, and never that of an UPDATE
    before the session.  And while it goes on, trouble with a verdict ends it at once,
    without another connection, and after any other it cleans up and pauses; then it opens
    another connection, or ends because it is stopped. -/
theorem run_gives_up_or_retries (w : Worker σ) (r : Runner σ) (hr : Leads Running (start w) r) :
    (r.result? = some (.ok ()) → ∃ q s events, Leads Running (start w) q ∧
      q.result? = none ∧ r = (q.amid s events).step ∧ (q.amid s events).seesStop = true) ∧
    (∀ e, r.result? = some (.error e) → e.isFatal = true ∧ (∀ state, e ≠ .earlyUpdate state) ∧
      ∃ q s events t, Leads Running (start w) q ∧ q.result? = none ∧
        r = (q.amid s events).step ∧ (q.amid s events).trouble? = some t ∧
        t.verdict = some e) ∧
    (r.result? = none → ∀ s events t, (r.amid s events).trouble? = some t →
      (∀ e, t.verdict = some e → (r.amid s events).step.result? = some (.error e) ∧
        (r.amid s events).step.worker.connections = r.worker.connections) ∧
      (t.verdict = none → Restarts r.worker (r.amid s events).step)) := by
  have hfate {q : Runner σ} (hq : Leads Running (start w) q) (hrun : q.result? = none)
      (s : Surroundings σ) (events : List WorkerEvent) :
      Fate (q.amid s events) (q.amid s events).step :=
    step_fate ((live_of_leads hq).amid s events) hrun
  refine ⟨fun hok => ?_, fun e he => ?_, fun hrun s events t ht => ?_⟩
  · obtain ⟨q, s, events, hq, hrun, rfl⟩ := exists_last_move hr (by simp [hok])
    cases hfate hq hrun s events with
    | goesOn _ _ h => simp [h] at hok
    | stops _ hs _ => exact ⟨q, s, events, hq, hrun, rfl, hs⟩
    | givesUp _ _ _ _ _ h => simp [h] at hok
    | retries _ _ _ h =>
      obtain ⟨d, hd⟩ := h.pauses
      simp [result?, hd] at hok
  · obtain ⟨q, s, events, hq, hrun, rfl⟩ := exists_last_move hr (by simp [he])
    cases hfate hq hrun s events with
    | goesOn _ _ h => simp [h] at he
    | stops _ _ h => simp [h] at he
    | givesUp ht _ hv hf hearly h =>
      cases h.symm.trans he
      exact ⟨hf, hearly, q, s, events, _, hq, hrun, rfl, ht, hv⟩
    | retries _ _ _ h =>
      obtain ⟨d, hd⟩ := h.pauses
      simp [result?, hd] at he
  · cases hfate hr hrun s events with
    | goesOn hnone => simp [hnone] at ht
    | stops hnone => simp [hnone] at ht
    | givesUp ht' _ hv _ _ h hc =>
      cases ht'.symm.trans ht
      refine ⟨fun e he => ?_, fun hnone => ?_⟩
      · cases hv.symm.trans he
        exact ⟨h, hc⟩
      · rw [hv] at hnone
        cases hnone
    | retries ht' _ hv h =>
      cases ht'.symm.trans ht
      refine ⟨fun e he => ?_, fun _ => ⟨h.clean, h.calls, h.pauses, h.connections, h.stops, h.again⟩⟩
      rw [hv] at he
      cases he

/-! ## A run that gives up in its third attempt -/

/-- The peer's OPEN does not arrive in time; in the next session a message cannot be
    decoded, and in the one after that an UPDATE is invalid. -/
def Sample.troubled : Worker Script :=
  .sample (.sample false)
    (({ steps := [.error (.notification ⟨1, 1, []⟩)]
        incoming := [.error (.decode "short"), .ok (.update ⟨[.sample .unset [8]], ∅⟩)] } :
      Script).negotiate [.ipv4MplsVpn] 90)

theorem sample_gives_up : Sample.troubled.run.1 = some (.error (.invalidAction .unset)) ∧
    Sample.troubled.run.2.connections = 3 ∧
    ∃ q s events t, Leads Running (start Sample.troubled) q ∧
      (q.amid s events).trouble? = some t ∧ t.verdict = some (.invalidAction .unset) := by
  have hend : Sample.troubled.run.1 = some (.error (.invalidAction .unset)) := by decide +kernel
  have hcount : Sample.troubled.run.2.connections = 3 := by decide +kernel
  obtain ⟨r, hlead, hrun⟩ := leads_run Sample.troubled
  refine ⟨hend, hcount, ?_⟩
  rw [hrun] at hend
  obtain ⟨-, hfatal, -⟩ := run_gives_up_or_retries Sample.troubled r hlead
  obtain ⟨-, -, q, s, events, t, hq, -, -, ht, hv⟩ := hfatal _ hend
  exact ⟨q, s, events, t, hq, ht, hv⟩

end Runner

end RouteExchange
