/-
  The KEEPALIVEs of a session.

  In a session time passes only while the worker waits for a message, and a wait takes
  at most `Worker.pollTimeout`.  After each wait the worker looks at its timers, so that
  a KEEPALIVE is late by one wait at most: `Runner.Steady` is the invariant of a session
  that says so for the present moment and for all KEEPALIVEs before.  A third of the
  hold time and one wait make less than the hold time, if this is 3 s or more.
-/
import Mathlib.Data.List.Chain
import RouteExchange.Proofs.Engine.Encoding
import RouteExchange.Proofs.Worker.Notes
import RouteExchange.Proofs.Worker.Turns

namespace RouteExchange

/-- When KEEPALIVEs were to be written, among some effects. -/
def keepalives (es : List (Time × Effect)) : List Time :=
  (es.filter fun x => x.2.sent? = some Header.keepalive).map Prod.fst

/-- When the last KEEPALIVE of a session that began at `start` was to be written; its
    beginning counts as one. -/
def lastKeepalive (start : Time) (es : List (Time × Effect)) : Time :=
  (keepalives es).getLast?.getD start

/-- The time `b` is not before `a`, and less than `hold` seconds after it. -/
def Follows (hold : Nat) (a b : Time) : Prop := a ≤ b ∧ b < a + 1000 * hold

theorem keepalives_append (es fs : List (Time × Effect)) :
    keepalives (es ++ fs) = keepalives es ++ keepalives fs := by
  simp [keepalives]

theorem keepalives_at (t : Time) (es : List Effect) : keepalives (es.map fun e => (t, e)) =
    List.replicate ((es.map Effect.sent?).count (some Header.keepalive)) t := by
  induction es with
  | nil => rfl
  | cons e es ih =>
    rw [List.map_cons, List.map_cons, List.count_cons, ← List.singleton_append, keepalives_append,
      ih]
    by_cases he : e.sent? = some Header.keepalive
    · simp [keepalives, he, List.replicate_succ]
    · simp [keepalives, he]

theorem keepalives_read (t : Time) (rs : List (Except EngineError Message)) :
    keepalives ((rs.map Effect.read).map fun e => (t, e)) = [] := by
  rw [keepalives_at]
  simp [Effect.sent?, List.count_eq_zero]

theorem keepalives_forward (t : Time) (e : Route.Event) {data : Octets} {es : List Effect}
    (hes : es.map Effect.sent? = if data = [] then [] else [some data]) :
    keepalives ((.encoded e data :: es).map fun e => (t, e)) =
      if data = Header.keepalive then [t] else [] := by
  rw [keepalives_at, List.map_cons, hes]
  by_cases hk : data = Header.keepalive
  · rw [if_pos hk, hk]
    rfl
  · rw [if_neg hk]
    split
    · rfl
    · simp [Effect.sent?, hk]

theorem keepalives_closing {σ : Type} (w : Worker σ) : keepalives w.closing = [] := by
  unfold Worker.closing
  cases w.connection with
  | none => rfl
  | some n => rfl

theorem lastKeepalive_append (start : Time) (es fs : List (Time × Effect)) :
    lastKeepalive start (es ++ fs) = lastKeepalive (lastKeepalive start es) fs := by
  rw [lastKeepalive, keepalives_append, List.getLast?_append]
  cases h : (keepalives fs).getLast? <;> simp [lastKeepalive, h]

theorem lastKeepalive_of_nil {start : Time} {es : List (Time × Effect)} (h : keepalives es = []) :
    lastKeepalive start es = start := by
  rw [lastKeepalive, h]
  rfl

theorem lastKeepalive_of_singleton {start v : Time} {es : List (Time × Effect)}
    (h : keepalives es = [v]) : lastKeepalive start es = v := by
  rw [lastKeepalive, h]
  rfl

theorem lastKeepalive_mono {start start' : Time} (h : start ≤ start')
    (es : List (Time × Effect)) : lastKeepalive start es ≤ lastKeepalive start' es := by
  unfold lastKeepalive
  cases (keepalives es).getLast? with
  | none => exact h
  | some v => exact Nat.le_refl v

/-- One more KEEPALIVE that follows the last one. -/
theorem isChain_append {hold : Nat} {start v : Time} {es fs : List (Time × Effect)}
    (h : (start :: keepalives es).IsChain (Follows hold)) (hfs : keepalives fs = [v])
    (hv : Follows hold (lastKeepalive start es) v) :
    (start :: keepalives (es ++ fs)).IsChain (Follows hold) := by
  rw [keepalives_append, hfs, ← List.cons_append]
  refine List.isChain_append.2 ⟨h, List.isChain_singleton v, fun a ha b hb => ?_⟩
  rw [List.getLast?_cons, Option.mem_some_iff] at ha
  rw [List.head?_cons, Option.mem_some_iff] at hb
  exact ha ▸ hb ▸ hv

namespace Timers

theorem pos_of_due {t : Timers} {now : Time} (h : t.keepaliveDue now = true) : 0 < t.hold := by
  rw [keepaliveDue, decide_eq_true_eq] at h
  exact h.1

/-- Since the last KEEPALIVE, less than a third of the hold time has passed, not
    counting `late`. -/
def InTime (t : Timers) (late now : Time) : Prop := 3 * now < 3 * (t.kept + late) + 1000 * t.hold

theorem InTime.of_not_due {t : Timers} {now : Time} (h : t.keepaliveDue now = false)
    (hold : 3 ≤ t.hold) : t.InTime 0 now := by
  simp only [keepaliveDue, decide_eq_false_iff_not, Time] at h
  simp only [InTime, Time]
  omega

theorem InTime.of_kept {hold : Nat} {heard now : Time} (h : 0 < hold) :
    (Timers.mk hold heard now).InTime 0 now := by
  simp only [InTime, Time]
  omega

theorem InTime.mono {t : Timers} {late late' now : Time} (h : t.InTime late now)
    (hle : late ≤ late') : t.InTime late' now := by
  simp only [InTime, Time] at h hle ⊢
  omega

theorem InTime.after_wait {t : Timers} {now v : Time} (h : t.InTime 0 now)
    (hv : v ≤ now + Worker.pollTimeout) : t.InTime Worker.pollTimeout v := by
  simp only [InTime, Time] at h hv ⊢
  omega

/-- One wait does no harm. -/
theorem InTime.lt {t : Timers} {now : Time} (h : t.InTime Worker.pollTimeout now)
    (hold : 3 ≤ t.hold) : now < t.kept + 1000 * t.hold := by
  simp only [InTime, Worker.pollTimeout, Time] at h
  simp only [Time]
  omega

end Timers

/-- How late a KEEPALIVE can be: it is sent before a wait, if it is due then. -/
def Phase.late : Phase → Time
  | .polling _ => 0
  | _ => Worker.pollTimeout

theorem Phase.late_le (p : Phase) : p.late ≤ Worker.pollTimeout := by
  unfold late
  split
  · exact Nat.zero_le _
  · exact Nat.le_refl _

theorem Phase.isSome_timers? (p : Phase) : p.timers?.isSome = p.inSession := by
  cases p <;> rfl

theorem Worker.holdTime_toEstablished {σ : Type} (w : Worker σ) :
    w.toEstablished.holdTime = w.holdTime := by
  obtain ⟨_, _, h⟩ := w.toEstablished_eq
  rw [h]

theorem Worker.waitEnd?_le {σ : Type} [Engine σ] {w : Worker σ}
    (hwait : ∀ s : σ, Engine.waitReadable pollTimeout s ≤ pollTimeout) {u : Time}
    (h : w.waitEnd? = some u) : u ≤ w.now + pollTimeout := by
  obtain ⟨n, -, rfl⟩ := Option.map_eq_some_iff.1 h
  exact Nat.add_le_add_left (hwait _) _

namespace Script

theorem waitReadable_le (timeout : Time) (s : Script) :
    Engine.waitReadable timeout s ≤ timeout := by
  change s.waitReadable timeout ≤ timeout
  unfold waitReadable
  split
  · exact Nat.le_refl _
  · exact Nat.zero_le _

end Script

namespace Runner

variable {σ : Type}

theorem now_le_wake {r : Runner σ} {t : Timers} {v : Time}
    (ht : r.phase.timers? = some t) (hv : r.wake? = some v) : r.worker.now ≤ v := by
  rcases r with ⟨w, p⟩
  cases p with
  | polling t => cases hv; exact Nat.le_refl _
  | waiting u t => cases hv; exact Nat.le_max_left _ _
  | draining t => cases hv; exact Nat.le_refl _
  | checking t => cases hv; exact Nat.le_refl _
  | between => cases ht
  | connecting a => cases ht
  | pausing u => cases ht
  | finished result => cases ht

/-- The timers of a session with this hold time and this last KEEPALIVE. -/
structure Timely (hold : Nat) (last : Time) (r : Runner σ) (t : Timers) : Prop where
  same : t.hold = hold
  kept : t.kept ≤ last
  next : 3 ≤ t.hold → ∀ v, r.wake? = some v → t.InTime r.phase.late v

theorem Timely.of_wake {r : Runner σ} {t : Timers} {v : Time} (hv : r.wake? = some v)
    (h : 3 ≤ t.hold → t.InTime r.phase.late v) : Timely t.hold t.kept r t := by
  refine ⟨rfl, Nat.le_refl _, fun hold v' hv' => ?_⟩
  cases hv.symm.trans hv'
  exact h hold

variable [Engine σ]

/-- The session goes on, and each move is made when it is due. -/
def Punctual (r : Runner σ) (s : Surroundings σ) : Prop :=
  r.phase.inSession = true ∧ r.wake? = some s.now

/-- A session that began with `w`, and in which `es` passed on the wire. -/
structure Steady (w : Worker σ) (es : List (Time × Effect)) (r : Runner σ) : Prop where
  wire : r.worker.wire = w.wire ++ es
  now : lastKeepalive w.now es ≤ r.worker.now
  spaced : 3 ≤ w.holdTime.toNat → (w.now :: keepalives es).IsChain (Follows w.holdTime.toNat)
  silent : w.holdTime = 0 → (∀ u (s : σ), Engine.encode u s ≠ .ok Header.keepalive) →
    keepalives es = []
  timers : ∀ t, r.phase.timers? = some t →
    Timely w.holdTime.toNat (lastKeepalive w.now es) r t

theorem steady_start (w : Worker σ) : Steady w [] (afterAttempt w (.ended (.ok ()))) := by
  have h := (w.passes_toEstablished).quiet (Worker.passes_log _ .info "Session established")
  refine ⟨h.wire, h.now.ge, fun _ => .singleton _, fun _ _ => rfl, fun t ht => ?_⟩
  cases ht
  refine ⟨congrArg UInt16.toNat w.holdTime_toEstablished, h.now.le, fun hold v hv => ?_⟩
  cases hv
  exact .of_kept (Nat.lt_of_lt_of_le (by decide) hold)

variable {w : Worker σ} {es : List (Time × Effect)} {r : Runner σ}

/-- Before its next move the session is less than the hold time after the last KEEPALIVE. -/
theorem Steady.follows (h : Steady w es r) {t : Timers} {v : Time}
    (ht : r.phase.timers? = some t) (hv : r.wake? = some v) (hold : 3 ≤ w.holdTime.toNat) :
    Follows w.holdTime.toNat (lastKeepalive w.now es) v := by
  obtain ⟨hsame, hkept, hnext⟩ := h.timers t ht
  rw [← hsame] at hold
  have hlt := ((hnext hold v hv).mono (Phase.late_le _)).lt hold
  refine ⟨h.now.trans (now_le_wake ht hv), hlt.trans_le ?_⟩
  rw [← hsame]
  exact Nat.add_le_add_right hkept _

/-- More passes on the wire, with at most one KEEPALIVE, and the timers stay right. -/
theorem Steady.extend (h : Steady w es r) {t : Timers} {v : Time}
    (ht : r.phase.timers? = some t) (hv : r.wake? = some v) {r' : Runner σ}
    {fs : List (Time × Effect)} (hnow : r'.worker.now = v)
    (hwire : r'.worker.wire = r.worker.wire ++ fs)
    (hfs : keepalives fs = [] ∨ keepalives fs = [v])
    (hsilent : t.hold = 0 → (∀ u (s : σ), Engine.encode u s ≠ .ok Header.keepalive) →
      keepalives fs = [])
    (hnext : ∀ t', r'.phase.timers? = some t' →
      Timely t.hold (lastKeepalive t.kept fs) r' t') :
    Steady w (es ++ fs) r' := by
  obtain ⟨hsame, hkept, -⟩ := h.timers t ht
  refine ⟨?_, ?_, fun hold => ?_, fun hzero hencode => ?_, fun t' ht' => ?_⟩
  · rw [hwire, h.wire, List.append_assoc]
  · have hle := h.now.trans (now_le_wake ht hv)
    rw [lastKeepalive_append, hnow]
    rcases hfs with hfs | hfs
    · rwa [lastKeepalive_of_nil hfs]
    · rw [lastKeepalive_of_singleton hfs]
  · rcases hfs with hfs | hfs
    · rw [keepalives_append, hfs, List.append_nil]
      exact h.spaced hold
    · exact isChain_append (h.spaced hold) hfs (h.follows ht hv hold)
  · have hnone : t.hold = 0 := by rw [hsame, hzero]; rfl
    rw [keepalives_append, h.silent hzero hencode, hsilent hnone hencode, List.append_nil]
  · obtain ⟨hsame', hkept', hnext'⟩ := hnext t' ht'
    refine ⟨hsame'.trans hsame, ?_, hnext'⟩
    rw [lastKeepalive_append]
    exact hkept'.trans (lastKeepalive_mono hkept fs)

/-- The session goes on, and no KEEPALIVE passes. -/
theorem Steady.rests (h : Steady w es r) {t t' : Timers} {v : Time}
    (ht : r.phase.timers? = some t) (hv : r.wake? = some v) {r' : Runner σ}
    {fs : List (Time × Effect)} (hnow : r'.worker.now = v)
    (hwire : r'.worker.wire = r.worker.wire ++ fs) (hfs : keepalives fs = [])
    (ht' : r'.phase.timers? = some t') (hnext : Timely t.hold t.kept r' t') :
    Steady w (es ++ fs) r' := by
  refine h.extend ht hv hnow hwire (.inl hfs) (fun _ _ => hfs) fun t'' ht'' => ?_
  cases ht'.symm.trans ht''
  rwa [lastKeepalive_of_nil hfs]

/-- The session goes on, and one KEEPALIVE passes. -/
theorem Steady.sends (h : Steady w es r) {t t' : Timers} {v : Time}
    (ht : r.phase.timers? = some t) (hv : r.wake? = some v) {r' : Runner σ}
    {fs : List (Time × Effect)} (hnow : r'.worker.now = v)
    (hwire : r'.worker.wire = r.worker.wire ++ fs) (hfs : keepalives fs = [v])
    (hsound : t.hold = 0 → ¬ ∀ u (s : σ), Engine.encode u s ≠ .ok Header.keepalive)
    (ht' : r'.phase.timers? = some t') (hnext : Timely t.hold v r' t') :
    Steady w (es ++ fs) r' := by
  refine h.extend ht hv hnow hwire (.inr hfs) (fun hzero hencode => ?_) fun t'' ht'' => ?_
  · exact absurd hencode (hsound hzero)
  · cases ht'.symm.trans ht''
    rwa [lastKeepalive_of_singleton hfs]

/-- A move that is made when it is due keeps the session steady. -/
theorem Steady.beat (hwait : ∀ s : σ, Engine.waitReadable Worker.pollTimeout s ≤ Worker.pollTimeout)
    {p : Phase} {v u : Worker σ} (h : Steady w es ⟨v, p⟩) (hin : p.inSession = true)
    (hwake : wake? ⟨v, p⟩ = some u.now) (hu : u.wire = v.wire) {r' : Runner σ} (hr : Beat u p r') :
    ∃ fs, Steady w (es ++ fs) r' := by
  obtain ⟨t, ht⟩ := Option.isSome_iff_exists.1 (p.isSome_timers?.trans hin)
  have hnext (hold : 3 ≤ t.hold) : t.InTime p.late u.now :=
    (h.timers t ht).next hold u.now hwake
  have hkept : t.kept ≤ u.now := ((h.timers t ht).kept.trans h.now).trans (now_le_wake ht hwake)
  have hquiet : u.wire = v.wire ++ [] := hu.trans (List.append_nil _).symm
  cases hr with
  | @waits t u' hend =>
    cases ht
    have hmax : max u.now u' ≤ u.now + Worker.pollTimeout :=
      Nat.max_le.2 ⟨Nat.le_add_right _ _, Worker.waitEnd?_le hwait hend⟩
    exact ⟨_, h.rests rfl hwake rfl hquiet rfl rfl
      (.of_wake rfl fun hold => (hnext hold).after_wait hmax)⟩
  | @reads t u' w' rs hread =>
    cases ht
    have hnow : wake? ⟨w', .draining t⟩ = some u.now := congrArg some hread.now
    exact ⟨_, h.rests rfl hwake hread.now (hu ▸ hread.wire) (keepalives_read _ rs) rfl
      (.of_wake hnow hnext)⟩
  | @hears t e rest hin he =>
    cases ht
    exact ⟨_, h.rests rfl hwake rfl hquiet rfl rfl
      (.of_wake (t := { t with heard := u.now }) rfl fun hold => hnext hold)⟩
  | @forwards t e rest w' data fs hin hpass hfs hdata =>
    cases ht
    have hnow : wake? ⟨w', .draining t⟩ = some u.now := congrArg some hpass.now
    have htimely : Timely t.hold t.kept ⟨w', .draining t⟩ t := .of_wake hnow hnext
    have hkeep := keepalives_forward u.now e hfs
    by_cases hk : data = Header.keepalive
    · -- an engine that encodes routes as KEEPALIVEs does not make them rarer
      rw [if_pos hk] at hkeep
      refine ⟨_, h.sends rfl hwake hpass.now (hu ▸ hpass.wire) hkeep ?_ rfl
        ⟨rfl, hkept, htimely.next⟩⟩
      intro _ hencode
      rcases hdata with hdata | hdata
      · rw [hdata] at hk
        cases hk
      · exact hencode _ _ (hk ▸ hdata)
    · rw [if_neg hk] at hkeep
      exact ⟨_, h.rests rfl hwake hpass.now (hu ▸ hpass.wire) hkeep rfl htimely⟩
  | drains hin =>
    cases ht
    exact ⟨_, h.rests rfl hwake rfl hquiet rfl rfl (.of_wake rfl hnext)⟩
  | @keeps t w' e hdue he hpass =>
    cases ht
    have hone : keepalives ([e].map fun e => (u.now, e)) = [u.now] := by
      rw [keepalives_at, List.map_singleton, he]
      rfl
    have hpos : 0 < t.hold := Timers.pos_of_due hdue
    have hnow : wake? ⟨w', .polling { t with kept := u.now }⟩ = some u.now :=
      congrArg some hpass.now
    exact ⟨_, h.sends rfl hwake hpass.now (hu ▸ hpass.wire) hone
      (fun hzero => absurd hzero hpos.ne') rfl
      (.of_wake (t := { t with kept := u.now }) hnow fun _ => .of_kept hpos)⟩
  | passes hdue =>
    cases ht
    exact ⟨_, h.rests rfl hwake rfl hquiet rfl rfl (.of_wake rfl (.of_not_due hdue))⟩
  | @ends p u' rs r' hread hg hc =>
    have hnone : r'.phase.timers?.isSome = false := r'.phase.isSome_timers?.trans hc.phase
    have hfs : keepalives (((rs.map Effect.read).map fun e => (u.now, e)) ++ u'.closing) = [] := by
      rw [keepalives_append, keepalives_read, keepalives_closing, List.append_nil]
    refine ⟨_, h.extend ht hwake (hc.now.trans hread.now) ?_ (.inl hfs) (fun _ _ => hfs) ?_⟩
    · rw [hc.wire, hread.wire, hu, List.append_assoc]
    · intro t' ht'
      rw [ht'] at hnone
      cases hnone

/-- All the moves of a session keep it steady. -/
theorem exists_steady
    (hwait : ∀ s : σ, Engine.waitReadable Worker.pollTimeout s ≤ Worker.pollTimeout)
    (h : Leads Punctual (afterAttempt w (.ended (.ok ()))) r) : ∃ es, Steady w es r := by
  induction h with
  | refl => exact ⟨[], steady_start w⟩
  | @tail r r' _ hmove ih =>
    obtain ⟨es, hsteady⟩ := ih
    obtain ⟨s, events, hin, hwake⟩ := hmove
    obtain ⟨fs, hnext⟩ := hsteady.beat (u := (r.amid s events).worker) hwait hin hwake rfl
      (step_beat _ hin)
    exact ⟨es ++ fs, hnext⟩

/-- **The peer hears from us in time.** Take a session in which time passes only in
    waits for a message, each of `Worker.pollTimeout` at most, whatever its engine does
    and whatever comes to its inbox.  With a hold time of 3 s or more, the first
    KEEPALIVE follows the beginning of the session, each KEEPALIVE the one before, and
    every moment of the session the last one in less than the hold time.  With a hold
    time of 0 there is no KEEPALIVE, unless the engine encodes an UPDATE as one. -/
theorem keepalives_in_time
    (hwait : ∀ s : σ, Engine.waitReadable Worker.pollTimeout s ≤ Worker.pollTimeout)
    (w : Worker σ) (r : Runner σ) (hr : Leads Punctual (afterAttempt w (.ended (.ok ()))) r) :
    ∃ es, r.worker.wire = w.wire ++ es ∧
      (3 ≤ w.holdTime.toNat →
        (w.now :: keepalives es).IsChain (Follows w.holdTime.toNat) ∧
        (r.phase.inSession = true →
          Follows w.holdTime.toNat (lastKeepalive w.now es) r.worker.now)) ∧
      (w.holdTime = 0 → (∀ u (s : σ), Engine.encode u s ≠ .ok Header.keepalive) →
        keepalives es = []) := by
  obtain ⟨es, h⟩ := exists_steady hwait hr
  refine ⟨es, h.wire, fun hold => ⟨h.spaced hold, fun hin => ⟨h.now, ?_⟩⟩, h.silent⟩
  obtain ⟨t, ht⟩ := Option.isSome_iff_exists.1 (r.phase.isSome_timers?.trans hin)
  obtain ⟨v, hv⟩ := exists_wake (result?_of_inSession hin)
  exact (now_le_wake ht hv).trans_lt (h.follows ht hv hold).2

/-- The moves of a script lead through a session. -/
theorem leads_punctual (r : Runner σ) (moves : Nat)
    (h : ∀ k < moves, (r.advances k).phase.inSession = true) :
    Leads Punctual r (r.advances moves) :=
  leads_of_advances r moves fun k hk => ⟨result?_of_inSession (h k hk), fun _ ht => ⟨h k hk, ht⟩⟩

/-! ## A session that hears nothing -/

/-- The worker that begins a session over a script with no messages. -/
def Sample.silent (hold : UInt16) : Worker Script :=
  (Worker.sample (.sample false)
    (Script.negotiate {} [.ipv4MplsVpn] hold)).beginAttempt.completeAttempt.1

/-- Its session, up to the fourth look at the timers. -/
def Sample.session (hold : UInt16) : Runner Script :=
  (afterAttempt (Sample.silent hold) (.ended (.ok ()))).advances 16

theorem sample_keepalives_in_time :
    keepalives (Sample.session 9).worker.wire = [4000, 8000] ∧
    [0, 4000, 8000].IsChain (Follows 9) ∧ Follows 9 8000 (Sample.session 9).worker.now ∧
    keepalives (Sample.session 0).worker.wire = [] := by
  have hwait : ∀ s : Script, Engine.waitReadable Worker.pollTimeout s ≤ Worker.pollTimeout :=
    Script.waitReadable_le _
  obtain ⟨es, hwire, hspaced, -⟩ := keepalives_in_time hwait (Sample.silent 9) (Sample.session 9)
    (leads_punctual _ 16 (by decide +kernel))
  obtain ⟨fs, hwire', -, hsilent⟩ := keepalives_in_time hwait (Sample.silent 0) (Sample.session 0)
    (leads_punctual _ 16 (by decide +kernel))
  have hbefore (hold : UInt16) : keepalives (Sample.silent hold).wire = [] := rfl
  have hsent : keepalives (Sample.session 9).worker.wire = [4000, 8000] := by decide +kernel
  have hkept : keepalives es = [4000, 8000] := by
    rwa [hwire, keepalives_append, hbefore] at hsent
  obtain ⟨hchain, hlast⟩ := hspaced (by decide +kernel)
  have hend := hlast (by decide +kernel)
  rw [hkept] at hchain
  rw [lastKeepalive, hkept] at hend
  refine ⟨hsent, hchain, hend, ?_⟩
  rw [hwire', keepalives_append, hbefore, hsilent rfl Script.encode_ne_keepalive]
  rfl

end Runner

end RouteExchange
