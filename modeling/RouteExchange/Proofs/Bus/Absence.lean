/-
  Names that a bus does not know.

  A name is absent from a bus that has no route and no record of it.  A clean-up
  makes its name absent, and only commands in a name bring it back (`Absent.run`),
  so that a name whose commands end with a clean-up is absent once the bus has
  carried them out, whatever others ask for in between (`absent_of_interleaves`).
-/
import RouteExchange.Proofs.Bus.Records

namespace RouteExchange.Bus

/-- The bus has no route and no record of a name. -/
structure Absent (b : Bus) (id : String) : Prop where
  noRoute : ∀ s ∈ b.table, s.source ≠ id
  noRecord : b.subscriber? id = none

/-- A command adds no route but to its name. -/
theorem mem_table_of_step {b : Bus} {c : Command} {s : Stored} (h : s ∈ (b.step c).1.table) :
    s ∈ b.table ∨ s.source = c.name := by
  cases c with
  | advertise source route =>
    rcases List.mem_cons.1 h with rfl | h
    · exact Or.inr rfl
    · exact Or.inl (List.mem_filter.1 h).1
  | withdraw source route =>
    left
    simp only [Bus.step, withdraw] at h
    split at h
    · exact h
    · split at h
      · exact (List.mem_filter.1 h).1
      · exact h
  | subscribe id inbox i =>
    left
    simp only [Bus.step, subscribe] at h
    split at h <;> exact h
  | unsubscribe id i =>
    left
    simp only [Bus.step, unsubscribe] at h
    split at h
    · exact h
    · split at h <;> exact h
  | cleanup id => exact Or.inl (List.mem_filter.1 h).1

theorem absent_cleanup (b : Bus) (id : String) : (b.step (.cleanup id)).1.Absent id := by
  refine ⟨fun s hs => ?_, (subscriber?_cleanup b id id).trans (if_pos rfl)⟩
  exact bne_iff_ne.1 (List.mem_filter.1 hs).2

theorem Absent.step {b : Bus} {id : String} (h : b.Absent id) {c : Command} (hc : c.name ≠ id) :
    (b.step c).1.Absent id := by
  refine ⟨fun s hs => ?_, (subscriber?_step_of_ne b hc).trans h.noRecord⟩
  rcases mem_table_of_step hs with hs | hs
  · exact h.noRoute s hs
  · exact hs ▸ hc

/-- A name stays absent while no command is given in it. -/
theorem Absent.run {b : Bus} {id : String} (h : b.Absent id) {cs : List Command}
    (hcs : ∀ c ∈ cs, c.name ≠ id) : (b.run cs).1.Absent id := by
  induction cs generalizing b with
  | nil => exact h
  | cons c cs ih =>
    exact ih (h.step (hcs c List.mem_cons_self)) fun d hd => hcs d (List.mem_cons_of_mem c hd)

/-! ## Commands of one among those of others -/

/-- The third list is made up of the first two, each in its order. -/
inductive Interleaves {α : Type} : List α → List α → List α → Prop
  | nil : Interleaves [] [] []
  | left {x : α} {xs ys zs : List α} (h : Interleaves xs ys zs) : Interleaves (x :: xs) ys (x :: zs)
  | right {y : α} {xs ys zs : List α} (h : Interleaves xs ys zs) :
    Interleaves xs (y :: ys) (y :: zs)

theorem interleaves_append {α : Type} (xs ys : List α) : Interleaves xs ys (xs ++ ys) := by
  induction xs with
  | nil =>
    induction ys with
    | nil => exact .nil
    | cons y ys ih => exact .right ih
  | cons x xs ih => exact .left ih

theorem Interleaves.append_right {α : Type} {xs ys zs : List α} (h : Interleaves xs ys zs)
    (us : List α) : Interleaves xs (us ++ ys) (us ++ zs) := by
  induction us with
  | nil => exact h
  | cons u us ih => exact .right ih

theorem Interleaves.mem_or_mem {α : Type} {xs ys zs : List α} (h : Interleaves xs ys zs) {z : α}
    (hz : z ∈ zs) : z ∈ xs ∨ z ∈ ys := by
  induction h with
  | nil => exact Or.inl hz
  | @left x _ _ _ _ ih =>
    rcases List.mem_cons.1 hz with rfl | hz
    · exact Or.inl List.mem_cons_self
    · exact (ih hz).imp_left (List.mem_cons_of_mem x)
  | @right y _ _ _ _ ih =>
    rcases List.mem_cons.1 hz with rfl | hz
    · exact Or.inr List.mem_cons_self
    · exact (ih hz).imp_right (List.mem_cons_of_mem y)

/-- After the last of the one, all are of the others. -/
theorem Interleaves.after_last {α : Type} {xs ys zs : List α} (h : Interleaves xs ys zs) {x : α}
    (hx : xs.getLast? = some x) :
    ∃ before after, zs = before ++ x :: after ∧ ∀ z ∈ after, z ∈ ys := by
  induction h with
  | nil => cases hx
  | @left a xs ys zs h ih =>
    rcases List.eq_nil_or_concat' xs with rfl | ⟨l, b, rfl⟩
    · rw [List.getLast?_singleton, Option.some.injEq] at hx
      subst hx
      exact ⟨[], zs, rfl, fun z hz => (h.mem_or_mem hz).resolve_left List.not_mem_nil⟩
    · rw [← List.cons_append, List.getLast?_concat] at hx
      obtain ⟨before, after, rfl, hafter⟩ := ih (List.getLast?_concat.trans hx)
      exact ⟨a :: before, after, rfl, hafter⟩
  | @right y xs ys zs _ ih =>
    obtain ⟨before, after, rfl, hafter⟩ := ih hx
    exact ⟨y :: before, after, rfl, fun z hz => List.mem_cons_of_mem y (hafter z hz)⟩

/-- A name is absent once the bus has carried out its commands, of which the last is a
    clean-up, among commands in other names. -/
theorem absent_of_interleaves (b : Bus) {id : String} {own others cs : List Command}
    (hlast : own.getLast? = some (.cleanup id)) (hothers : ∀ c ∈ others, c.name ≠ id)
    (h : Interleaves own others cs) : (b.run cs).1.Absent id := by
  obtain ⟨before, after, rfl, hafter⟩ := h.after_last hlast
  rw [run_append]
  exact (absent_cleanup _ id).run fun c hc => hothers c (hafter c hc)

end RouteExchange.Bus
