/-
  Texts without what stands around them.

  What is dropped in front of a text is the characters of a kind, and no more
  (`dropWhile_eq_iff`).  Trimming does so with blanks at both ends (`trim_eq_iff`).
-/
import Mathlib.Data.List.TakeWhile
import RouteExchange.Text.Blank

namespace RouteExchange.Text

theorem dropWhile_eq_iff {p : Char → Bool} {cs ts : List Char} : cs.dropWhile p = ts ↔
    (∃ l, cs = l ++ ts ∧ ∀ c ∈ l, p c = true) ∧ ∀ c, ts.head? = some c → p c = false := by
  constructor
  · rintro rfl
    refine ⟨⟨_, List.takeWhile_append_dropWhile.symm, ?_⟩, fun c hc => ?_⟩
    · exact List.all_eq_true.1 List.all_takeWhile
    · have hnot := List.head?_dropWhile_not p cs
      rw [hc] at hnot
      exact hnot
  · rintro ⟨⟨l, rfl, hl⟩, hfirst⟩
    rw [List.dropWhile_append_of_pos hl]
    cases ts with
    | nil => rfl
    | cons c ts => rw [List.dropWhile_cons_of_neg (by simp [hfirst c rfl])]

/-- `ts` is the text `cs` without the blanks around it. -/
structure Trimmed (cs ts : List Char) : Prop where
  around : ∃ l r, cs = l ++ (ts ++ r) ∧ (∀ c ∈ l, isBlank c = true) ∧ ∀ c ∈ r, isBlank c = true
  first : ∀ c, ts.head? = some c → isBlank c = false
  last : ∀ c, ts.getLast? = some c → isBlank c = false

theorem trim_eq_iff {cs ts : List Char} : trim cs = ts ↔ Trimmed cs ts := by
  have hback {m : List Char} : (m.reverse.dropWhile isBlank).reverse = ts ↔
      (∃ r, m = ts ++ r ∧ ∀ c ∈ r, isBlank c = true) ∧
        ∀ c, ts.getLast? = some c → isBlank c = false := by
    rw [List.reverse_eq_iff, dropWhile_eq_iff, List.head?_reverse]
    refine and_congr_left' ⟨?_, ?_⟩
    · rintro ⟨r, hm, hr⟩
      exact ⟨r.reverse, by simpa using congrArg List.reverse hm, by simpa using hr⟩
    · rintro ⟨r, rfl, hr⟩
      exact ⟨r.reverse, by simp, by simpa using hr⟩
  rw [trim, hback]
  constructor
  · rintro ⟨⟨r, hm, hr⟩, hlast⟩
    obtain ⟨⟨l, hcs, hl⟩, hfirst⟩ := dropWhile_eq_iff.1 hm
    refine ⟨⟨l, r, hcs, hl, hr⟩, fun c hc => hfirst c ?_, hlast⟩
    rw [List.head?_append, hc, Option.some_or]
  · rintro ⟨⟨l, r, hcs, hl, hr⟩, hfirst, hlast⟩
    refine ⟨?_, hlast⟩
    cases ts with
    | nil =>
      -- all is blank, and what could stand behind the text is dropped with what stands in front
      refine ⟨[], ?_, by simp⟩
      rw [List.nil_append, List.dropWhile_eq_nil_iff, hcs]
      simpa [or_imp, forall_and] using ⟨hl, hr⟩
    | cons d ts =>
      refine ⟨r, dropWhile_eq_iff.2 ⟨⟨l, hcs, hl⟩, ?_⟩, hr⟩
      simpa using hfirst

theorem trimmed_self {ts : List Char} (h : ∀ c ∈ ts, isBlank c = false) : Trimmed ts ts where
  around := ⟨[], [], by simp⟩
  first c hc := h c (List.mem_of_head? hc)
  last c hc := h c (List.mem_of_getLast? hc)

end RouteExchange.Text
