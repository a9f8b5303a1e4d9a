/-
  How soon a stop is honoured.

  A worker looks at its stop signal before it opens a connection, after each back-off of
  an attempt and before each wait for a message, and a stop cuts its pauses short.  None
  of what lies between takes more than two seconds.  `Runner.Prompt` is the invariant of a
  run that says so, with a bound for each phase in which time passes.
-/
import RouteExchange.Proofs.Worker.Course
import RouteExchange.Proofs.Worker.Keepalives

namespace RouteExchange

theorem notMem_of_openings_nil {es : List (Time × Effect)} (h : openings es = []) (t : Time)
    (n : Nat) : (t, .opened n) ∉ es := by
  intro hmem
  have hn : n ∈ openings es := List.mem_filterMap.2 ⟨_, hmem, rfl⟩
  rw [h] at hn
  cases hn

namespace Runner

variable {σ : Type}

/-- The next move is made when it is due, and from the time `stop` on a stop is asked for. -/
def StoppedFrom (stop : Time) (r : Runner σ) (s : Surroundings σ) : Prop :=
  Due r s ∧ (stop < s.now → s.stop.raised stop = true)

/-- How long a phase can last, where a stop is asked for from the time `stop` on. -/
def Ending (stop : Time) (r : Runner σ) : Prop :=
  match r.phase with
  | .connecting .asking => r.worker.now ≤ stop
  | .connecting (.backingOff t _) => t ≤ stop + 2000
  | .waiting t _ => t ≤ stop + 2000
  | _ => True

/-- A run that began with `w`, and in which the worker did `es`. -/
structure Prompt (stop : Time) (w : Worker σ) (es : List (Time × Effect)) (r : Runner σ) :
    Prop where
  now : r.worker.now ≤ max (stop + 2000) w.now
  ending : Ending stop r
  record : r.worker.record = w.record ++ es
  opened : ∀ t n, (t, .opened n) ∈ es → t ≤ stop

variable {stop : Time} {w : Worker σ} {es : List (Time × Effect)} {r : Runner σ}
  {s : Surroundings σ}

/-- A worker that sees no stop is in time for it. -/
theorem StoppedFrom.now_le (h : StoppedFrom stop r s) (hs : s.stop.raised s.now = false) :
    s.now ≤ stop := by
  by_contra hlate
  have hraised := StopSignal.raised_mono (h.2 (Nat.lt_of_not_le hlate))
    (Nat.le_of_lt (Nat.lt_of_not_le hlate))
  rw [hs] at hraised
  cases hraised

theorem prompt_start (stop : Time) (w : Worker σ) :
    Prompt stop w [(w.now, .logged .info "Starting peer worker")] (start w) := by
  refine ⟨Nat.le_max_right _ _, trivial, List.reverse_cons, ?_⟩
  intro t n hmem
  rw [List.mem_singleton] at hmem
  cases hmem

/-- The next move is due in time. -/
theorem Prompt.wake_le (h : Prompt stop w es r) (hs : StoppedFrom stop r s) :
    s.now ≤ max (stop + 2000) w.now := by
  obtain ⟨hdue, hstop⟩ := hs
  have hnow := h.now
  have hending := h.ending
  rcases r with ⟨v, p⟩
  cases p with
  | connecting a =>
    cases a with
    | asking => exact Option.some.inj hdue ▸ hnow
    | backingOff t closed =>
      have hwake : max v.now t = s.now := Option.some.inj hdue
      simp only [Ending, Time] at *
      omega
    | ended result => exact Option.some.inj hdue ▸ hnow
  | waiting t timers =>
    have hwake : max v.now t = s.now := Option.some.inj hdue
    simp only [Ending, Time] at *
    omega
  | pausing u =>
    have hwake : s.stop.cutShort v.now (max v.now u) = s.now := Option.some.inj hdue
    by_cases hlate : stop < s.now
    · have hcut : s.stop.cutShort v.now (max v.now u) ≤ max v.now stop :=
        StopSignal.cutShort_le (hstop hlate)
      simp only [Time] at *
      omega
    · simp only [Time] at *
      omega
  | between => exact Option.some.inj hdue ▸ hnow
  | polling timers => exact Option.some.inj hdue ▸ hnow
  | draining timers => exact Option.some.inj hdue ▸ hnow
  | checking timers => exact Option.some.inj hdue ▸ hnow
  | finished result => cases hdue

/-- Waiting for the next move does no harm. -/
theorem Prompt.amid (h : Prompt stop w es r) (hs : StoppedFrom stop r s)
    (events : List WorkerEvent) : Prompt stop w es (r.amid s events) := by
  refine ⟨h.wake_le hs, ?_, h.record, h.opened⟩
  have hending := h.ending
  have hdue := hs.1
  rcases r with ⟨v, p⟩
  cases p with
  | connecting a =>
    cases a with
    | asking =>
      have hnow : v.now = s.now := Option.some.inj hdue
      exact Nat.le_trans (Nat.le_of_eq hnow.symm) hending
    | _ => exact hending
  | _ => exact hending

/-- The worker goes on without opening a connection. -/
theorem Prompt.extend {r' : Runner σ} (h : Prompt stop w es r)
    (hnow : r'.worker.now ≤ max (stop + 2000) w.now) (hw : ∃ fs, r'.worker.record =
      r.worker.record ++ fs ∧ openings fs = []) (hending : Ending stop r') :
    ∃ es', Prompt stop w es' r' := by
  obtain ⟨fs, hfs, hnone⟩ := hw
  refine ⟨es ++ fs, hnow, hending, ?_, fun t n hmem => ?_⟩
  · rw [hfs, h.record, List.append_assoc]
  · rcases List.mem_append.1 hmem with hmem | hmem
    · exact h.opened t n hmem
    · exact absurd hmem (notMem_of_openings_nil hnone t n)

variable [Engine σ]

/-- An attempt or a session that goes on ends in time. -/
theorem ending_of_proceeds
    (hwait : ∀ s : σ, Engine.waitReadable Worker.pollTimeout s ≤ Worker.pollTimeout)
    {v u : Worker σ} {p q : Phase} (hp : Phase.Proceeds v p q) (hu : u.now = v.now)
    (hlast : p = .connecting .asking → v.now ≤ stop)
    (hseen : v.stopping = false → v.now ≤ stop) : Ending stop ⟨u, q⟩ := by
  cases hp with
  | backsOff ht => exact Nat.le_trans ht (Nat.add_le_add_right (hlast rfl) 2000)
  | asks hs => exact Nat.le_trans (Nat.le_of_eq hu) (hseen hs)
  | waits hs hend =>
    exact Nat.le_trans (Worker.waitEnd?_le hwait hend) (Nat.add_le_add_right (hseen hs) 2000)
  | begins => trivial
  | reads => trivial
  | handles => trivial
  | drains => trivial
  | checks => trivial

/-- Whatever the next move is, it is prompt. -/
theorem Prompt.step
    (hwait : ∀ s : σ, Engine.waitReadable Worker.pollTimeout s ≤ Worker.pollTimeout)
    (h : Prompt stop w es r) (hrun : r.result? = none)
    (hseen : r.worker.stopping = false → r.worker.now ≤ stop) :
    ∃ es', Prompt stop w es' r.step := by
  have hcourse := step_course hrun
  generalize r.step = r' at hcourse ⊢
  rcases r with ⟨v, p⟩
  cases hcourse with
  | begins hp hs =>
    obtain ⟨u, hu, hbegun⟩ := v.beginAttempt_cases
    obtain ⟨hnone, -⟩ := openings_closing v
    have hnow : v.beginAttempt.now = v.now := v.now_beginAttempt
    refine ⟨es ++ v.closing ++ [(v.now, .opened v.connections)], ?_, ?_, ?_, ?_⟩
    · exact Nat.le_trans (Nat.le_of_eq hnow) h.now
    · exact Nat.le_trans (Nat.le_of_eq hnow) (hseen hs)
    · rw [v.record_beginAttempt, show v.record = w.record ++ es from h.record]
      simp only [List.append_assoc]
    · intro t n hmem
      rcases List.mem_append.1 hmem with hmem | hmem
      · rcases List.mem_append.1 hmem with hmem | hmem
        · exact h.opened t n hmem
        · exact absurd hmem (notMem_of_openings_nil hnone t n)
      · rw [List.mem_singleton] at hmem
        cases hmem
        exact hseen hs
  | @goesOn u q hw hp =>
    refine h.extend (Nat.le_trans (Nat.le_of_eq hw.now) h.now) hw.record
      (ending_of_proceeds hwait hp hw.now (fun hasking => ?_) hseen)
    cases hasking
    exact h.ending
  | @retries u hp hw =>
    have hacts : v.Acts u.stopAndClean := hw.toActs.trans u.acts_stopAndClean
    exact h.extend (Nat.le_trans (Nat.le_of_eq hacts.now) h.now) hacts.record trivial
  | resumes hp => exact h.extend h.now ⟨[], (List.append_nil _).symm, rfl⟩ trivial
  | finishes hw => exact h.extend (Nat.le_trans (Nat.le_of_eq hw.now) h.now) hw.record trivial

/-- Every run is prompt. -/
theorem exists_prompt
    (hwait : ∀ s : σ, Engine.waitReadable Worker.pollTimeout s ≤ Worker.pollTimeout)
    (h : Leads (StoppedFrom stop) (start w) r) : ∃ es, Prompt stop w es r := by
  induction h with
  | refl => exact ⟨_, prompt_start stop w⟩
  | tail _ hmove ih =>
    obtain ⟨es, hprompt⟩ := ih
    obtain ⟨s, events, hstopped⟩ := hmove
    exact (hprompt.amid hstopped events).step hwait (Due.ripe hstopped.1).result? hstopped.now_le

/-- **A stop is honoured within one poll.** Take a run in which each move is made when it is
    due and no wait for a message takes longer than it may, and in which a stop is asked for
    from the time `stop` on, whatever the delay between two sessions, the engine and the
    inbox are.  As long as the worker runs, the clock shows at most two seconds more than
    `stop`, or the time at which the run began; so it does when the next move is due; and
    after `stop` no connection is opened. -/
theorem stop_honoured_within_poll
    (hwait : ∀ s : σ, Engine.waitReadable Worker.pollTimeout s ≤ Worker.pollTimeout)
    (w : Worker σ) (stop : Time) (r : Runner σ) (hr : Leads (StoppedFrom stop) (start w) r) :
    r.worker.now ≤ max (stop + 2000) w.now ∧
    (∀ s, StoppedFrom stop r s → s.now ≤ max (stop + 2000) w.now) ∧
    ∃ es, r.worker.record = w.record ++ es ∧ ∀ t n, (t, .opened n) ∈ es → t ≤ stop := by
  obtain ⟨es, h⟩ := exists_prompt hwait hr
  exact ⟨h.now, fun s hs => h.wake_le hs, es, h.record, h.opened⟩

/-! ## Stopped in a wait, and in a pause -/

/-- The moves of a script with a signal that is raised at that time. -/
theorem leads_stoppedFrom (r : Runner σ) (moves : Nat)
    (h : ∀ k < moves, (r.advances k).result?.isNone = true ∧
      (r.advances k).worker.stop.raised stop = true) :
    Leads (StoppedFrom stop) r (r.advances moves) := by
  refine leads_of_advances r moves fun k hk => ⟨Option.isNone_iff_eq_none.1 (h k hk).1, ?_⟩
  intro t ht
  exact ⟨ht, fun _ => (h k hk).2⟩

/-- The peer ends the first session at once, and then is silent. -/
def Sample.lost (retry : UInt64) (stop : Time) : Worker Script :=
  { Worker.sample { Config.sample false with connectRetry := retry }
      (({ incoming := [.error (.lostConnection "reset")] } : Script).negotiate
        [.ipv4MplsVpn] 90) with
    stop := ⟨[stop]⟩ }

/-- A stop at 13 s ends the second session after the wait in which it comes; a stop at 5 s
    ends a pause that would never end. -/
theorem sample_stop_honoured_within_poll :
    ((start (Sample.lost 10 13000)).advances 16).result? = some (.ok ()) ∧
    ((start (Sample.lost 10 13000)).advances 16).worker.now = 14000 ∧
    ((start (Sample.lost 10 13000)).advances 16).worker.now ≤ 15000 ∧
    openings ((start (Sample.lost 10 13000)).advances 16).worker.wire = [0, 1] ∧
    ((start (Sample.lost 18446744073709551615 5000)).advances 6).result? = some (.ok ()) ∧
    ((start (Sample.lost 18446744073709551615 5000)).advances 6).worker.now ≤ 7000 ∧
    ∀ t n, (t, .opened n) ∈
      ((start (Sample.lost 18446744073709551615 5000)).advances 6).worker.record → t ≤ 5000 := by
  have hwait : ∀ s : Script, Engine.waitReadable Worker.pollTimeout s ≤ Worker.pollTimeout :=
    Script.waitReadable_le _
  obtain ⟨hnow, -⟩ := stop_honoured_within_poll hwait (Sample.lost 10 13000) 13000 _
    (leads_stoppedFrom _ 16 (by decide +kernel))
  obtain ⟨hnow', -, es, hes, hopened⟩ := stop_honoured_within_poll hwait
    (Sample.lost 18446744073709551615 5000) 5000 _ (leads_stoppedFrom _ 6 (by decide +kernel))
  refine ⟨by decide +kernel, by decide +kernel, hnow, by decide +kernel, by decide +kernel, hnow', ?_⟩
  intro t n hmem
  rw [hes] at hmem
  exact hopened t n hmem

end Runner

end RouteExchange
