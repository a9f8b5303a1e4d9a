/-
  The connections of a worker, one at a time.

  Each connection is closed before the next one is opened, and closed just once
  (`Worker.Single`), whatever is asked of the worker.  So a run that has ended leaves no
  connection behind, nor anything else (`run_leaves_no_trace`).  In a run the worker rests
  between two connections: after the first is closed and the bus told of the clean-up, the delay
  of its configuration passes before the second is opened (`Paced`).  `Runner.Pace` is
  the invariant of a run that says so for each of its phases.
-/
import Mathlib.Data.List.Nodup
import RouteExchange.Proofs.Bus.Absence
import RouteExchange.Proofs.Sample
import RouteExchange.Proofs.Worker.Course
import RouteExchange.Proofs.Worker.Negotiation

namespace RouteExchange

/-! ## What comes before a connection is opened -/

section
variable {es fs pre post : List (Time × Effect)} {t : Time} {n : Nat} {name : String} {delay u : Time}

theorem openings_opened (es : List (Time × Effect)) (t : Time) (n : Nat) :
    openings (es ++ [(t, .opened n)]) = openings es ++ [n] := openings_append _ _

theorem closings_opened (es : List (Time × Effect)) (t : Time) (n : Nat) :
    closings (es ++ [(t, .opened n)]) = closings es := by
  rw [closings_append]
  exact List.append_nil _

/-- Where more is done without opening a connection, those that are opened are opened before. -/
theorem split_of_openings_nil (hfs : openings fs = []) (h : es ++ fs = pre ++ (t, .opened n) :: post) :
    ∃ mid, es = pre ++ (t, .opened n) :: mid ∧ post = mid ++ fs := by
  have hnone (p : List (Time × Effect)) : fs ≠ p ++ (t, .opened n) :: post := by
    rintro rfl
    rw [openings_append, List.append_eq_nil_iff] at hfs
    cases hfs.2
  rcases List.append_eq_append_iff.1 h with ⟨p, -, hp⟩ | ⟨p, hes, hp⟩
  · exact absurd hp (hnone p)
  · cases p with
    | nil => exact absurd hp.symm (hnone [])
    | cons x mid =>
      obtain ⟨rfl, hpost⟩ := List.cons.inj hp
      exact ⟨mid, hes, hpost⟩

/-- Where one more connection is opened, any that is opened is this one or opened before. -/
theorem split_of_opened {t' : Time} {n' : Nat}
    (h : es ++ [(t', .opened n')] = pre ++ (t, .opened n) :: post) :
    (pre = es ∧ t = t' ∧ n = n' ∧ post = []) ∨
      ∃ mid, es = pre ++ (t, .opened n) :: mid ∧ post = mid ++ [(t', .opened n')] := by
  rcases List.eq_nil_or_concat post with rfl | ⟨mid, x, rfl⟩
  · obtain ⟨hes, hx⟩ := List.append_inj' h rfl
    cases hx
    exact .inl ⟨hes.symm, rfl, rfl, rfl⟩
  · rw [List.concat_eq_append, ← List.cons_append, ← List.append_assoc] at h
    obtain ⟨hes, hx⟩ := List.append_inj' h rfl
    exact .inr ⟨mid, hes, by rw [List.concat_eq_append, hx]⟩

/-- When a connection is opened, all that were opened before are closed. -/
def OneByOne (es : List (Time × Effect)) : Prop :=
  ∀ pre t n post, es = pre ++ (t, .opened n) :: post → closings pre = openings pre

theorem OneByOne.append (h : OneByOne es) (hfs : openings fs = []) : OneByOne (es ++ fs) := by
  intro pre t n post hsplit
  obtain ⟨mid, hes, -⟩ := split_of_openings_nil hfs hsplit
  exact h pre t n mid hes

theorem OneByOne.opened (h : OneByOne es) (hes : closings es = openings es) (t : Time) (n : Nat) :
    OneByOne (es ++ [(t, .opened n)]) := by
  intro pre t' n' post hsplit
  rcases split_of_opened hsplit with ⟨rfl, -⟩ | ⟨mid, hmid, -⟩
  · exact hes
  · exact h pre t' n' mid hmid

/-- At time `u` the last connection was closed, the bus was told of the clean-up, and
    since then the delay passed. -/
def Rested (name : String) (delay : Time) (es : List (Time × Effect)) (u : Time) : Prop :=
  ∀ pre t n mid, es = pre ++ (t, .opened n) :: mid → openings mid = [] →
    ∃ x y v, mid = x ++ (v, .called (.cleanup name)) :: y ∧ n ∈ closings x ∧ v + delay ≤ u

/-- Each connection is opened after a rest. -/
def Paced (name : String) (delay : Time) (es : List (Time × Effect)) : Prop :=
  ∀ pre t n post, es = pre ++ (t, .opened n) :: post → Rested name delay pre t

/-- The connection `c` is the last that was opened, if any was. -/
def Held (es : List (Time × Effect)) (c : Option Nat) : Prop :=
  ∀ pre t n mid, es = pre ++ (t, .opened n) :: mid → openings mid = [] → c = some n

theorem rested_of_openings_nil (h : openings es = []) : Rested name delay es u := by
  intro pre t n mid hes
  rw [hes, openings_append, List.append_eq_nil_iff] at h
  cases h.2

theorem Rested.mono {v : Time} (h : Rested name delay es u) (huv : u ≤ v) :
    Rested name delay es v := by
  intro pre t n mid hes hmid
  obtain ⟨x, y, w, hw, hn, hle⟩ := h pre t n mid hes hmid
  exact ⟨x, y, w, hw, hn, Nat.le_trans hle huv⟩

theorem Rested.append (h : Rested name delay es u) (hfs : openings fs = []) :
    Rested name delay (es ++ fs) u := by
  intro pre t n mid hsplit hnone
  obtain ⟨mid', hes, rfl⟩ := split_of_openings_nil hfs hsplit
  rw [openings_append, List.append_eq_nil_iff] at hnone
  obtain ⟨x, y, v, rfl, hn, hle⟩ := h pre t n mid' hes hnone.1
  exact ⟨x, y ++ fs, v, by rw [List.append_assoc, List.cons_append], hn, hle⟩

theorem Paced.append (h : Paced name delay es) (hfs : openings fs = []) :
    Paced name delay (es ++ fs) := by
  intro pre t n post hsplit
  obtain ⟨mid, hes, -⟩ := split_of_openings_nil hfs hsplit
  exact h pre t n mid hes

theorem Paced.opened (h : Paced name delay es) (hrest : Rested name delay es t) (n : Nat) :
    Paced name delay (es ++ [(t, .opened n)]) := by
  intro pre t' n' post hsplit
  rcases split_of_opened hsplit with ⟨rfl, rfl, -⟩ | ⟨mid, hmid, -⟩
  · exact hrest
  · exact h pre t' n' mid hmid

theorem Held.append {c : Option Nat} (h : Held es c) (hfs : openings fs = []) :
    Held (es ++ fs) c := by
  intro pre t n mid hsplit hnone
  obtain ⟨mid', hes, rfl⟩ := split_of_openings_nil hfs hsplit
  rw [openings_append, List.append_eq_nil_iff] at hnone
  exact h pre t n mid' hes hnone.1

theorem held_opened (es : List (Time × Effect)) (t : Time) (n : Nat) :
    Held (es ++ [(t, .opened n)]) (some n) := by
  intro pre t' n' mid hsplit hnone
  rcases split_of_opened hsplit with ⟨-, -, rfl, -⟩ | ⟨mid', -, rfl⟩
  · rfl
  · rw [openings_opened] at hnone
    exact absurd hnone (by simp)

/-- The clean-up of a connection begins a rest. -/
theorem Held.rested {c : Option Nat} (h : Held es c) (hfs : openings fs = [])
    (hclosed : closings fs = c.toList) (name : String) (delay v : Time) :
    Rested name delay (es ++ (fs ++ [(v, .called (.cleanup name))])) (v + delay) := by
  intro pre t n mid hsplit hnone
  have hquiet : openings (fs ++ [(v, .called (.cleanup name))]) = [] := by
    rw [openings_append, hfs]
    rfl
  obtain ⟨mid', hes, rfl⟩ := split_of_openings_nil hquiet hsplit
  rw [openings_append, List.append_eq_nil_iff] at hnone
  have hc := h pre t n mid' hes hnone.1
  refine ⟨mid' ++ fs, [], v, (List.append_assoc _ _ _).symm, ?_, Nat.le_refl _⟩
  rw [closings_append, hclosed, hc]
  exact List.mem_append_right _ List.mem_cons_self

end

/-! ## One connection at a time -/

namespace Worker

variable {σ : Type}

/-- The worker opened its connections one by one, and holds the last if any. -/
structure Single (w : Worker σ) : Prop where
  opened : openings w.wire = List.range w.connections
  closed : closings w.wire ++ w.connection.toList = openings w.wire
  oneByOne : OneByOne w.wire

theorem single_new (config : Config) (peer : Ip) (engine : σ) (index : Nat) :
    Single (.new config peer engine index) := by
  refine ⟨rfl, rfl, ?_⟩
  intro pre t n post h
  cases pre <;> cases h

variable {w w' : Worker σ}

/-- Nothing else of the worker matters. -/
theorem Single.congr (h : Single w) (hw : w'.wire = w.wire) (hc : w'.connection = w.connection)
    (hk : w'.connections = w.connections) : Single w' := by
  constructor
  · rw [hw, hk, h.opened]
  · rw [hw, hc, h.closed]
  · rw [hw]
    exact h.oneByOne

theorem Single.passes (h : Single w) {es : List Effect} (hp : Passes w es w') : Single w' := by
  obtain ⟨hnone, hnone'⟩ := openings_within hp.within w.now
  constructor
  · rw [hp.wire, openings_append, hnone, List.append_nil, h.opened, hp.connections]
  · rw [hp.wire, closings_append, openings_append, hnone, hnone', List.append_nil, List.append_nil,
      hp.connection, h.closed]
  · rw [hp.wire]
    exact h.oneByOne.append hnone

/-- The connection that is held is closed. -/
theorem Single.closes (h : Single w) (hw : w'.wire = w.wire ++ w.closing)
    (hc : w'.connection = none) (hk : w'.connections = w.connections) : Single w' := by
  obtain ⟨hnone, hclosed⟩ := openings_closing w
  constructor
  · rw [hw, openings_append, hnone, List.append_nil, h.opened, hk]
  · rw [hw, closings_append, openings_append, hnone, hclosed, h.closed, hc, Option.toList_none]
  · rw [hw]
    exact h.oneByOne.append hnone

variable [Engine σ]

theorem Single.stopAndClean (h : Single w) : Single w.stopAndClean := by
  obtain ⟨hclean, hwire, hcount, -⟩ := w.stopAndClean_spec
  exact h.closes hwire hclean.connection hcount

/-- The connection that is held is closed before another one is opened. -/
theorem Single.beginAttempt (h : Single w) : Single w.beginAttempt := by
  obtain ⟨hnone, hclosed⟩ := openings_closing w
  obtain ⟨hwire, hc, hk⟩ := w.beginAttempt_spec
  have hopened : openings (w.wire ++ w.closing) = List.range w.connections := by
    rw [openings_append, hnone, List.append_nil, h.opened]
  have hall : closings (w.wire ++ w.closing) = openings (w.wire ++ w.closing) := by
    rw [closings_append, hclosed, h.closed, openings_append, hnone, List.append_nil]
  constructor
  · rw [hwire, openings_opened, hopened, hk, List.range_succ]
  · rw [hwire, closings_opened, openings_opened, hall, hc, Option.toList_some]
  · rw [hwire]
    exact (h.oneByOne.append hnone).opened hall _ _

theorem Single.step {r : Runner σ} (h : r.worker.Single) : r.step.worker.Single := by
  cases r.step_turn with
  | goesOn hp _ => exact h.passes hp
  | begins hw _ => exact hw ▸ h.beginAttempt
  | cleansUp hp _ hc => exact (h.passes hp).closes hc.wire hc.clean.connection hc.connections

theorem kept_single : Kept (@Single σ) where
  new := single_new
  within h _ _ _ := h.congr rfl rfl rfl
  begins h := h.beginAttempt
  moves {w} h a := h.passes (w.passes_attemptStep a)
  establishes {w} h := h.passes w.passes_toEstablished
  reads {w} h := by
    obtain ⟨rs, hp⟩ := w.passes_readMessage
    exact h.passes hp
  publishes {w} h kind route := h.passes (w.passes_publish kind route)
  encodes {w} h e := h.passes (w.passes_encodeEvent e)
  sends {w} h data := by
    obtain ⟨e, -, -, hp⟩ := w.passes_send data
    exact h.passes hp
  cleans h := h.stopAndClean
  starts {w} h := h.passes (w.passes_log _ _)
  steps h := h.step

omit [Engine σ] in
/-- The connection that is held was numbered before the next one. -/
theorem Single.connection_lt (h : Single w) {n : Nat} (hn : n ∈ w.connection) :
    n < w.connections := by
  rw [← List.mem_range, ← h.opened, ← h.closed]
  exact List.mem_append_right _ (Option.mem_toList.2 hn)

end Worker

/-! ## What a run leaves behind -/

namespace Runner

variable {σ : Type} [Engine σ]

/-- **A run leaves no trace.** Whenever a worker that began to run has a result,
    whatever its engine did, whatever came to its inbox and whenever it was stopped,
    nothing is left of a session; the connections that it opened, and the one that it held
    before, were closed one after another; and the last thing it asked of the bus was the
    clean-up of its name.  Where operations led to the worker, each connection was closed
    just once.  Once a bus has carried out what it asked for, among what others asked for in
    other names, the bus has no route and no record of it. -/
theorem run_leaves_no_trace (w : Worker σ) (r : Runner σ) (hr : Leads Running (start w) r)
    (result : Except WorkerError Unit) (hresult : r.result? = some result) :
    r.worker.Clean ∧
    (∃ es k, r.worker.wire = w.wire ++ es ∧ openings es = List.range' w.connections k ∧
      closings es = w.connection.toList ++ openings es ∧
      ∀ config os, Worker.Reached config os w → ∀ n ∈ openings es, (closings es).count n = 1) ∧
    ∃ own, r.worker.calls = w.calls ++ own ∧ own.getLast? = some (.cleanup w.id) ∧
      ∀ (b : Bus) (others cs : List Bus.Command), (∀ c ∈ others, c.name ≠ w.id) →
        Bus.Interleaves own others cs → (b.run cs).1.Absent w.id := by
  obtain ⟨es, own, htidy⟩ := exists_tidy hr
  obtain ⟨hclean, hlast⟩ := htidy.ended result hresult
  obtain ⟨k, hopened, -⟩ := htidy.opened
  have hclosed := htidy.closed
  rw [hclean.connection, Option.toList_none, List.append_nil] at hclosed
  refine ⟨hclean, ⟨es, k, htidy.wire, hopened, hclosed, fun config os hreached n hn => ?_⟩, own,
    htidy.calls, hlast, fun b _ _ hothers h => Bus.absent_of_interleaves b hlast hothers h⟩
  have hheld : n ∉ w.connection.toList := by
    intro hmem
    have hlt := (Worker.kept_single.reached hreached).connection_lt (Option.mem_toList.1 hmem)
    rw [hopened, List.mem_range'_1] at hn
    exact absurd hlt (Nat.not_lt.2 hn.1)
  rw [hclosed, List.count_append, List.count_eq_zero_of_not_mem hheld, Nat.zero_add]
  refine List.count_eq_one_of_mem ?_ hn
  rw [hopened]
  exact List.nodup_range'

/-- The peer sends a route and ends the session; in the next one it sends an NLRI that
    is neither announced nor withdrawn. -/
def Sample.worker : Worker Script :=
  .sample (.sample false) (({ incoming :=
    [.ok (.update ⟨[.sample .announced [8]], ∅⟩), .error (.lostConnection "reset"),
      .ok (.update ⟨[.sample .unset [8]], ∅⟩)] } : Script).negotiate [.ipv4MplsVpn] 90)

theorem sample_run_leaves_no_trace :
    Sample.worker.run.1 = some (.error (.invalidAction .unset)) ∧ Sample.worker.run.2.Clean ∧
    openings Sample.worker.run.2.wire = [0, 1] ∧
    (∀ n ∈ openings Sample.worker.run.2.wire, (closings Sample.worker.run.2.wire).count n = 1) ∧
    Sample.worker.run.2.calls.getLast? = some (.cleanup Sample.worker.id) ∧
    (Bus.run {} (Sample.worker.run.2.calls ++
      [.advertise "p" ⟨.sample .announced [8], ∅⟩])).1.Absent Sample.worker.id := by
  have hend : Sample.worker.run.1 = some (.error (.invalidAction .unset)) := by decide +kernel
  obtain ⟨r, hlead, hrun⟩ := leads_run Sample.worker
  rw [hrun] at hend ⊢
  obtain ⟨hclean, ⟨es, k, hes, -, -, honce⟩, own, hown, hlast, habsent⟩ :=
    run_leaves_no_trace Sample.worker r hlead _ hend
  rw [show Sample.worker.wire = [] from rfl, List.nil_append] at hes
  rw [show Sample.worker.calls = [] from rfl, List.nil_append] at hown
  have hopened : openings r.worker.wire = [0, 1] := by
    rw [show r.worker = Sample.worker.run.2 by rw [hrun]]
    decide +kernel
  refine ⟨hend, hclean, hopened, hes ▸ honce _ _ (.new _ _ _), hown ▸ hlast,
    hown ▸ habsent _ _ _ ?_ (Bus.interleaves_append _ _)⟩
  intro c hc
  rw [List.mem_singleton.1 hc]
  decide +kernel

end Runner

/-! ## A rest between two connections -/

namespace Worker

variable {σ : Type} [Engine σ]

/-- A clean-up closes the last connection, and a rest begins. -/
theorem rested_stopAndClean {es : List (Time × Effect)} (w : Worker σ) (h : Held es w.connection)
    (delay : Time) : ∃ fs, w.stopAndClean.record = w.record ++ fs ∧ openings fs = [] ∧
      Rested w.id delay (es ++ fs) (w.stopAndClean.now + delay) := by
  obtain ⟨hnone, hclosed⟩ := openings_closing w
  have hquiet : openings ((w.now, .counted (.state w.id .idle)) :: w.closing) = [] := hnone
  refine ⟨_, w.record_stopAndClean.trans (List.append_assoc _ _ _), ?_, ?_⟩
  · rw [openings_append, hquiet]
    rfl
  · rw [w.stopAndClean_spec.2.2.2]
    exact h.rested hquiet hclosed _ _ _

end Worker

namespace Runner

variable {σ : Type}

/-- No move is made before it is due, and a stop is not taken back. -/
def Firm (r : Runner σ) (s : Surroundings σ) : Prop :=
  Ripe r s ∧ (r.worker.stopping = true → s.stop.raised s.now = true)

/-- How far the worker is, in a run that began with `w` and in which it did `es`, with
    the rest before the next connection. -/
def Rhythm (w : Worker σ) (es : List (Time × Effect)) (r : Runner σ) : Prop :=
  match r.phase with
  | .between => Rested w.id w.config.retryDelay es r.worker.now ∨ r.worker.stopping = true
  | .pausing u => Rested w.id w.config.retryDelay es u
  | .finished _ => True
  | _ => Held es r.worker.connection

/-- A run that began with `w`, and in which the worker did `es`. -/
structure Pace (w : Worker σ) (es : List (Time × Effect)) (r : Runner σ) : Prop where
  config : r.worker.config = w.config
  id : r.worker.id = w.id
  record : r.worker.record = w.record ++ es
  paced : Paced w.id w.config.retryDelay es
  rhythm : Rhythm w es r

variable {w : Worker σ} {es : List (Time × Effect)} {r : Runner σ}

theorem rhythm_of_busy (h : r.phase.busy = true) :
    Rhythm w es r ↔ Held es r.worker.connection := by
  rcases r with ⟨v, p⟩
  cases p with
  | between => cases h
  | pausing u => cases h
  | finished result => cases h
  | _ => rfl

theorem pace_start (w : Worker σ) : Pace w [(w.now, .logged .info "Starting peer worker")] (start w) := by
  refine ⟨rfl, rfl, List.reverse_cons, ?_, .inl (rested_of_openings_nil rfl)⟩
  intro pre t n post h
  have hnone : openings [(w.now, Effect.logged .info "Starting peer worker")] = [] := rfl
  rw [h, openings_append, List.append_eq_nil_iff] at hnone
  cases hnone.2

/-- The worker goes on without opening a connection. -/
theorem Pace.extend {v u : Worker σ} {p q : Phase} (h : Pace w es ⟨v, p⟩) (hw : v.Acts u)
    {fs : List (Time × Effect)} (hfs : u.record = v.record ++ fs) (hnone : openings fs = [])
    (hrhythm : Rhythm w (es ++ fs) ⟨u, q⟩) : Pace w (es ++ fs) ⟨u, q⟩ := by
  refine ⟨hw.config.trans h.config, hw.id.trans h.id, ?_, h.paced.append hnone, hrhythm⟩
  rw [hfs, show v.record = w.record ++ es from h.record, List.append_assoc]

/-- A pause ends when it is over, or because of a stop. -/
theorem Ripe.of_pausing {s : Surroundings σ} {u : Time} (h : Ripe r s) (hp : r.phase = .pausing u) :
    u ≤ s.now ∨ s.stop.raised s.now = true := by
  rcases r with ⟨v, p⟩
  cases hp
  obtain ⟨t, hle, ht⟩ := h
  have hcut : s.stop.cutShort v.now (max v.now u) = t := Option.some.inj ht
  rcases s.stop.cutShort_cases v.now (max v.now u) with hc | hc
  · left
    rw [hcut] at hc
    exact Nat.le_trans (hc ▸ Nat.le_max_right _ _) hle
  · right
    rw [hcut] at hc
    exact StopSignal.raised_mono hc hle

/-- Waiting for the next move does no harm to the rhythm. -/
theorem Pace.amid (h : Pace w es r) {s : Surroundings σ} (hs : Firm r s)
    (events : List WorkerEvent) : Pace w es (r.amid s events) := by
  refine ⟨h.config, h.id, h.record, h.paced, ?_⟩
  have hrhythm := h.rhythm
  obtain ⟨⟨t, hle, hdue⟩, hstop⟩ := hs
  rcases r with ⟨v, p⟩
  cases p with
  | between =>
    have hnow : v.now = t := Option.some.inj hdue
    rcases hrhythm with hrest | hstopping
    · exact .inl (hrest.mono (hnow ▸ hle))
    · exact .inr (hstop hstopping)
  | _ => exact hrhythm

variable [Engine σ]

/-- Whatever the next move is, it keeps the pace. -/
theorem Pace.step (h : Pace w es r) (hrun : r.result? = none)
    (hpause : ∀ u, r.phase = .pausing u → u ≤ r.worker.now ∨ r.worker.stopping = true) :
    ∃ es', Pace w es' r.step := by
  have hcourse := step_course hrun
  generalize r.step = r' at hcourse ⊢
  rcases r with ⟨v, p⟩
  cases hcourse with
  | begins hp hs =>
    cases hp
    obtain ⟨u, hu, hbegun⟩ := v.beginAttempt_cases
    obtain ⟨-, hc, -⟩ := v.beginAttempt_spec
    obtain ⟨hnone, -⟩ := openings_closing v
    have hrest : Rested w.id w.config.retryDelay es v.now :=
      h.rhythm.resolve_right (by rw [show v.stopping = false from hs]; simp)
    refine ⟨es ++ v.closing ++ [(v.now, .opened v.connections)], ?_, ?_, ?_, ?_, ?_⟩
    · rw [hbegun]
      exact hu.config.trans h.config
    · rw [hbegun]
      exact hu.id.trans h.id
    · rw [v.record_beginAttempt, show v.record = w.record ++ es from h.record]
      simp only [List.append_assoc]
    · exact (h.paced.append hnone).opened (hrest.append hnone) _
    · have hheld : Held (es ++ v.closing ++ [(v.now, .opened v.connections)])
          v.beginAttempt.connection := hc ▸ held_opened _ _ _
      exact hheld
  | @goesOn u q hw hp =>
    obtain ⟨fs, hfs, hnone⟩ := hw.record
    have hheld : Held es v.connection := (rhythm_of_busy hp.busy.1).1 h.rhythm
    refine ⟨es ++ fs, h.extend hw.toActs hfs hnone ((rhythm_of_busy hp.busy.2).2 ?_)⟩
    rw [show u.connection = v.connection from hw.connection]
    exact hheld.append hnone
  | @retries u hp hw =>
    obtain ⟨fs, hfs, hnone⟩ := hw.record
    have hheld : Held es v.connection := (rhythm_of_busy hp).1 h.rhythm
    have hacts : v.Acts u.stopAndClean := hw.toActs.trans u.acts_stopAndClean
    obtain ⟨gs, hgs, hnone', hrest⟩ :=
      u.rested_stopAndClean (hw.connection ▸ hheld.append hnone) w.config.retryDelay
    have hrecord : u.stopAndClean.record = v.record ++ (fs ++ gs) := by
      rw [hgs, hfs, List.append_assoc]
    have hquiet : openings (fs ++ gs) = [] := by
      rw [openings_append, hnone, hnone', List.append_nil]
    refine ⟨es ++ (fs ++ gs), h.extend hacts hrecord hquiet ?_⟩
    have hid : u.id = w.id := hw.id.trans h.id
    have hconfig : u.stopAndClean.config = w.config := hacts.config.trans h.config
    rw [← List.append_assoc, Rhythm, ← hid, hconfig]
    exact hrest
  | @resumes u hp =>
    cases hp
    refine ⟨es ++ [], h.extend (.refl v) (List.append_nil _).symm rfl ?_⟩
    rw [List.append_nil]
    exact (hpause u rfl).imp h.rhythm.mono fun hstopping => hstopping
  | finishes hw =>
    obtain ⟨fs, hfs, hnone⟩ := hw.record
    exact ⟨es ++ fs, h.extend hw hfs hnone trivial⟩

/-- Every run keeps the pace. -/
theorem exists_pace (h : Leads Firm (start w) r) : ∃ es, Pace w es r := by
  induction h with
  | refl => exact ⟨_, pace_start w⟩
  | @tail r _ _ hmove ih =>
    obtain ⟨es, hpace⟩ := ih
    obtain ⟨s, events, hfirm⟩ := hmove
    have hrun : (r.amid s events).result? = none := hfirm.1.result?
    exact (hpace.amid hfirm events).step hrun fun u hu => hfirm.1.of_pausing hu

end Runner

namespace Worker

variable {σ : Type} [Engine σ]

/-- **One connection at a time, and a rest between two.** Whatever was asked of a worker,
    the connections that it opened are those that it closed and the one that it holds, if
    it holds one; each was closed before the next was opened, and none was closed twice.
    In a run, in which no move is made before it is due and a stop is not taken back, the
    worker closes a connection and tells the bus of the clean-up, and then the seconds of
    its configuration pass before it opens another; if the clock can count so many. -/
theorem one_connection_at_a_time (config : Config) (os : List Operation) (w : Worker σ)
    (h : Reached config os w) :
    (openings w.wire).length = (closings w.wire).length + w.connection.toList.length ∧
    closings w.wire ++ w.connection.toList = openings w.wire ∧
    (closings w.wire).Nodup ∧ OneByOne w.wire ∧
    (config.connectRetry.toNat < UInt64.size / 2 →
      ∀ r, Runner.Leads Runner.Firm (Runner.start w) r →
        ∃ es, r.worker.record = w.record ++ es ∧
          Paced w.id (1000 * config.connectRetry.toNat) es) := by
  have hsingle : Single w := kept_single.reached h
  have hnodup : (openings w.wire).Nodup := hsingle.opened ▸ List.nodup_range
  refine ⟨?_, hsingle.closed, ?_, hsingle.oneByOne, fun hclock r hr => ?_⟩
  · rw [← hsingle.closed, List.length_append]
  · rw [← hsingle.closed] at hnodup
    exact (List.nodup_append.1 hnodup).1
  · obtain ⟨es, hpace⟩ := Runner.exists_pace hr
    refine ⟨es, hpace.record, ?_⟩
    have hdelay : w.config.retryDelay = 1000 * config.connectRetry.toNat := by
      rw [(settled_of_reached h).config, Config.retryDelay, if_pos hclock, Nat.mul_comm]
    exact hdelay ▸ hpace.paced

/-! ## A run with two connections -/

/-- The moves of a script that is not stopped before the last of them. -/
theorem leads_firm (r : Runner σ) (moves : Nat)
    (h : ∀ k < moves, (r.advances k).result?.isNone = true ∧ (r.advances k).worker.stopping = false) :
    Runner.Leads Runner.Firm r (r.advances moves) := by
  refine Runner.leads_of_advances r moves fun k hk => ⟨Option.isNone_iff_eq_none.1 (h k hk).1, ?_⟩
  intro t ht
  refine ⟨Runner.Due.ripe ht, fun hstop => ?_⟩
  rw [(h k hk).2] at hstop
  cases hstop

/-- The run of a peer that ends the first session, and in the second sends an invalid UPDATE. -/
def Sample.ended : Runner Script := (Runner.start Runner.Sample.worker).advances 14

theorem sample_one_connection_at_a_time :
    openings Sample.ended.worker.wire = [0, 1] ∧ closings Sample.ended.worker.wire = [0, 1] ∧
    OneByOne Sample.ended.worker.wire ∧
    Paced Runner.Sample.worker.id 10000 Sample.ended.worker.record ∧
    (Sample.ended.worker.record.filterMap fun x => x.2.opened?.map fun n => (x.1, n)) =
      [(0, 0), (10000, 1)] := by
  have hleads : Runner.Leads Runner.Firm (Runner.start Runner.Sample.worker) Sample.ended :=
    leads_firm _ 14 (by decide +kernel)
  have hfresh : Reached Runner.Sample.worker.config [] Runner.Sample.worker := .new _ _ _
  obtain ⟨-, -, -, -, hpaced⟩ := one_connection_at_a_time _ _ _ hfresh
  obtain ⟨es, hes, hpace⟩ := hpaced (by decide +kernel) _ hleads
  have hrun : Performs Runner.Sample.worker (.run (.error (.invalidAction .unset)))
      Sample.ended.worker :=
    .runs (Runner.leads_advances _ 14) (by decide +kernel)
  obtain ⟨-, hclosed, -, hone, -⟩ := one_connection_at_a_time _ _ _ (hfresh.performs hrun)
  have hopened : openings Sample.ended.worker.wire = [0, 1] := by decide +kernel
  have hheld : Sample.ended.worker.connection = none := by decide +kernel
  rw [hheld, Option.toList_none, List.append_nil] at hclosed
  refine ⟨hopened, hclosed.trans hopened, hone, ?_, by decide +kernel⟩
  rw [hes]
  exact hpace

end Worker

end RouteExchange
