/-
  Splitting a text at a separator.

  * `splitFirst? c` splits at the first `c`, `splitLast? c` at the last one;
  * both fail exactly on the texts without `c` (`splitFirst?_eq_none`,
    `splitLast?_eq_none`), and joining the two parts gives the text back
    (`splitFirst?_eq_some`, `splitLast?_eq_some`).
-/

namespace RouteExchange.Text

/-- The texts before and after the first `c`. -/
def splitFirst? (c : Char) : List Char → Option (List Char × List Char)
  | [] => none
  | d :: ds =>
    if d = c then some ([], ds) else
      match splitFirst? c ds with
      | some (l, r) => some (d :: l, r)
      | none => none

/-- The texts before and after the last `c`. -/
def splitLast? (c : Char) : List Char → Option (List Char × List Char)
  | [] => none
  | d :: ds =>
    match splitLast? c ds with
    | some (l, r) => some (d :: l, r)
    | none => if d = c then some ([], ds) else none

theorem splitFirst?_eq_none {c : Char} {s : List Char} : splitFirst? c s = none ↔ c ∉ s := by
  induction s with
  | nil => simp [splitFirst?]
  | cons d ds ih =>
    rw [splitFirst?]
    split
    · simp_all
    · split <;> grind

theorem splitFirst?_eq_some {c : Char} {s l r : List Char} :
    splitFirst? c s = some (l, r) ↔ s = l ++ c :: r ∧ c ∉ l := by
  induction s generalizing l with
  | nil => simp [splitFirst?]
  | cons d ds ih =>
    have hn := @splitFirst?_eq_none c ds
    rw [splitFirst?]
    by_cases hd : d = c
    · cases l <;> grind
    · cases h : splitFirst? c ds with
      | none => cases l <;> grind
      | some p => cases l <;> grind

theorem splitLast?_eq_none {c : Char} {s : List Char} : splitLast? c s = none ↔ c ∉ s := by
  induction s with
  | nil => simp [splitLast?]
  | cons d ds ih =>
    rw [splitLast?]
    split <;> grind

theorem splitLast?_eq_some {c : Char} {s l r : List Char} :
    splitLast? c s = some (l, r) ↔ s = l ++ c :: r ∧ c ∉ r := by
  induction s generalizing l with
  | nil => simp [splitLast?]
  | cons d ds ih =>
    have hn := @splitLast?_eq_none c ds
    rw [splitLast?]
    cases h : splitLast? c ds with
    | none => cases l <;> grind
    | some p => cases l <;> grind

end RouteExchange.Text
