/-
  How a run tidies up.

  `Runner.Tidy` is the invariant of a run: the connections that were opened are
  numbered in order, all but the one that is held were closed in that order, and the
  last thing asked of the bus before a result was a clean-up.  Every run keeps it
  (`Runner.exists_tidy`).
-/
import RouteExchange.Proofs.Worker.Turns

namespace RouteExchange

/-- The connections that some effects open, in order. -/
def openings (es : List (Time × Effect)) : List Nat := es.filterMap fun x => x.2.opened?

/-- The connections that some effects close, in order. -/
def closings (es : List (Time × Effect)) : List Nat := es.filterMap fun x => x.2.closed?

theorem openings_append (es fs : List (Time × Effect)) :
    openings (es ++ fs) = openings es ++ openings fs := List.filterMap_append

theorem closings_append (es fs : List (Time × Effect)) :
    closings (es ++ fs) = closings es ++ closings fs := List.filterMap_append

/-- What passes over one connection neither opens nor closes one. -/
theorem openings_within {es : List Effect} (h : ∀ e ∈ es, e.Within) (t : Time) :
    openings (es.map fun e => (t, e)) = [] ∧ closings (es.map fun e => (t, e)) = [] := by
  simp only [openings, closings, List.filterMap_map, List.filterMap_eq_nil_iff]
  exact ⟨fun e he => (h e he).1, fun e he => (h e he).2⟩

theorem openings_closing {σ : Type} (w : Worker σ) :
    openings w.closing = [] ∧ closings w.closing = w.connection.toList := by
  unfold Worker.closing
  cases w.connection with
  | none => exact ⟨rfl, rfl⟩
  | some n => exact ⟨rfl, rfl⟩

namespace Runner

variable {σ : Type}

/-- A run that began with `w`, in which `es` passed on the wire and `cs` were asked of
    the bus. -/
structure Tidy (w : Worker σ) (es : List (Time × Effect)) (cs : List Bus.Command)
    (r : Runner σ) : Prop where
  id : r.worker.id = w.id
  wire : r.worker.wire = w.wire ++ es
  calls : r.worker.calls = w.calls ++ cs
  opened : ∃ k, openings es = List.range' w.connections k ∧
    r.worker.connections = w.connections + k
  closed : closings es ++ r.worker.connection.toList = w.connection.toList ++ openings es
  ended : ∀ result, r.result? = some result →
    r.worker.Clean ∧ cs.getLast? = some (.cleanup w.id)

theorem tidy_start (w : Worker σ) : Tidy w [] [] (start w) := by
  refine ⟨rfl, ?_, ?_, ⟨0, rfl, rfl⟩, (List.append_nil _).symm, ?_⟩
  · exact (w.passes_log _ _).wire
  · exact (w.gives_log _ _).calls
  · intro result h
    cases h

variable {w : Worker σ} {es : List (Time × Effect)} {cs : List Bus.Command} {r : Runner σ}

/-- What more passes opens the next connections, and closes all but the one that is
    held after it. -/
theorem Tidy.extend (h : Tidy w es cs r) {r' : Runner σ} {fs : List (Time × Effect)}
    {ds : List Bus.Command} {j : Nat} (hid : r'.worker.id = r.worker.id)
    (hcalls : r'.worker.calls = r.worker.calls ++ ds) (hwire : r'.worker.wire = r.worker.wire ++ fs)
    (hopened : openings fs = List.range' r.worker.connections j)
    (hcount : r'.worker.connections = r.worker.connections + j)
    (hclosed : closings fs ++ r'.worker.connection.toList =
      r.worker.connection.toList ++ openings fs)
    (hended : ∀ result, r'.result? = some result →
      r'.worker.Clean ∧ ds.getLast? = some (.cleanup w.id)) :
    Tidy w (es ++ fs) (cs ++ ds) r' := by
  obtain ⟨k, hk, hkcount⟩ := h.opened
  refine ⟨hid.trans h.id, ?_, ?_, ⟨k + j, ?_, ?_⟩, ?_, fun result hresult => ?_⟩
  · rw [hwire, h.wire, List.append_assoc]
  · rw [hcalls, h.calls, List.append_assoc]
  · rw [openings_append, hk, hopened, hkcount, List.range'_append_1]
  · rw [hcount, hkcount, Nat.add_assoc]
  · rw [openings_append, closings_append, List.append_assoc, hclosed, ← List.append_assoc, h.closed,
      List.append_assoc]
  · obtain ⟨hclean, hlast⟩ := hended result hresult
    exact ⟨hclean, by rw [List.getLast?_append, hlast, Option.some_or]⟩

/-- Surroundings and the inbox do not matter. -/
theorem Tidy.amid (h : Tidy w es cs r) (s : Surroundings σ) (events : List WorkerEvent)
    (hrun : r.result? = none) : Tidy w es cs (r.amid s events) := by
  refine ⟨h.id, h.wire, h.calls, h.opened, h.closed, fun result hresult => ?_⟩
  rw [show (r.amid s events).result? = r.result? from rfl, hrun] at hresult
  cases hresult

variable [Engine σ]

/-- A move of a run that has not ended keeps it tidy. -/
theorem Tidy.step (h : Tidy w es cs r) (hrun : r.result? = none) :
    ∃ es' cs', Tidy w es' cs' r.step := by
  obtain ⟨hid, ds, hds⟩ := r.step_calls
  cases r.step_turn with
  | @goesOn fs hp hr =>
    obtain ⟨hnone, hnone'⟩ := openings_within hp.within r.worker.now
    refine ⟨_, _, h.extend (j := 0) hid hds hp.wire hnone hp.connections ?_ ?_⟩
    · rw [hnone, hnone', hp.connection, List.append_nil, List.nil_append]
    · intro result hresult
      rw [hr, hrun] at hresult
      cases hresult
  | begins hw hr =>
    obtain ⟨hwire, hconnection, hcount⟩ := r.worker.beginAttempt_spec
    obtain ⟨hnone, hclosed⟩ := openings_closing r.worker
    rw [← hw] at hwire hconnection hcount
    rw [List.append_assoc] at hwire
    have hone : openings [(r.worker.now, Effect.opened r.worker.connections)] =
      [r.worker.connections] := rfl
    refine ⟨_, _, h.extend (j := 1) hid hds hwire ?_ hcount ?_ ?_⟩
    · rw [openings_append, hnone, hone]
      rfl
    · rw [openings_append, closings_append, hnone, hclosed, hone, hconnection]
      simp [closings, Effect.closed?]
    · intro result hresult
      rw [hr] at hresult
      cases hresult
  | @cleansUp fs u hp hg hc =>
    obtain ⟨hnone, hnone'⟩ := openings_within hp.within r.worker.now
    obtain ⟨hcnone, hcclosed⟩ := openings_closing u
    have hwire : r.step.worker.wire =
        r.worker.wire ++ (fs.map (fun e => (r.worker.now, e)) ++ u.closing) := by
      rw [hc.wire, hp.wire, List.append_assoc]
    have hcalls : r.step.worker.calls = r.worker.calls ++ [.cleanup w.id] := by
      rw [hc.cleaned.calls, hg.calls_eq, hg.id, h.id]
    refine ⟨_, _, h.extend (j := 0) hid hcalls hwire ?_ (hc.connections.trans hp.connections) ?_ ?_⟩
    · rw [openings_append, hnone, hcnone]
      rfl
    · rw [openings_append, closings_append, hnone, hcnone, hnone', hcclosed, hc.clean.connection,
        hp.connection]
      simp
    · exact fun _ _ => ⟨hc.clean, rfl⟩

/-- Every run is tidy. -/
theorem exists_tidy (h : Leads Running (start w) r) : ∃ es cs, Tidy w es cs r := by
  induction h with
  | refl => exact ⟨[], [], tidy_start w⟩
  | tail _ hmove ih =>
    obtain ⟨es, cs, htidy⟩ := ih
    obtain ⟨s, events, hrun⟩ := hmove
    exact (htidy.amid s events hrun).step hrun

end Runner

end RouteExchange
