/-
  Numbers and families can be told by their texts.

  `Decimal.Numeral` says which texts are numbers, and which; `Decimal.read?` reads these up
  to its bound (`Decimal.read?_eq_some_iff`), and `Decimal.write` writes one of them.  So
  `Family.ofNumeric?` reads back the numeric text of a family.  A well-known name does not
  begin with a digit, so no two families have the same text (`Family.text_injective`).
-/
import Mathlib.Data.Nat.Digits.Defs
import Mathlib.Tactic.Ring
import RouteExchange.Family

namespace RouteExchange

namespace Decimal

theorem digit_spec {n : Nat} (h : n < 10) :
    (digit n).isDigit = true ∧ (digit n).toNat - '0'.toNat = n := by
  have hall : ∀ n < 10, (digit n).isDigit = true ∧ (digit n).toNat - '0'.toNat = n := by decide
  exact hall n h

theorem write_ne_nil (n : Nat) : write n ≠ [] := by
  rw [write]
  split <;> simp

theorem isDigit_of_mem_write {n : Nat} {c : Char} (h : c ∈ write n) : c.isDigit = true := by
  fun_induction write n with
  | case1 n hn =>
    rw [List.mem_singleton.1 h]
    exact (digit_spec hn).1
  | case2 n hn ih =>
    rcases List.mem_append.1 h with h | h
    · exact ih h
    · rw [List.mem_singleton.1 h]
      exact (digit_spec (Nat.mod_lt n (by decide))).1

theorem notMem_write {c : Char} (hc : c.isDigit = false) (n : Nat) : c ∉ write n :=
  fun h => by simp [isDigit_of_mem_write h] at hc

/-! ## The value of a string of digits -/

/-- The number that a string of digits denotes. -/
def value (cs : List Char) : Nat :=
  Nat.ofDigits 10 (cs.map fun c => c.toNat - '0'.toNat).reverse

theorem value_cons (c : Char) (cs : List Char) :
    value (c :: cs) = (c.toNat - '0'.toNat) * 10 ^ cs.length + value cs := by
  rw [value, List.map_cons, List.reverse_cons, Nat.ofDigits_append, Nat.ofDigits_singleton,
    List.length_reverse, List.length_map, ← value, Nat.mul_comm, Nat.add_comm]

/-- A digit more makes a number ten times as large, and more by the digit. -/
theorem value_append_digit (cs : List Char) {d : Nat} (hd : d < 10) :
    value (cs ++ [digit d]) = 10 * value cs + d := by
  rw [value, List.map_append, List.map_singleton, List.reverse_append, List.reverse_singleton,
    List.singleton_append, Nat.ofDigits_cons, (digit_spec hd).2, ← value, Nat.add_comm]

/-- `cs` is one digit or more, and denotes `n`. -/
structure Digits (cs : List Char) (n : Nat) : Prop where
  nonempty : cs ≠ []
  digits : ∀ c ∈ cs, c.isDigit = true
  value_eq : value cs = n

/-- `cs` is a numeral of `n`: digits, with a plus sign in front or not. -/
def Numeral (cs : List Char) (n : Nat) : Prop :=
  Digits cs n ∨ ∃ ds, cs = '+' :: ds ∧ Digits ds n

theorem readFrom_eq_some_iff {cs : List Char} {n m : Nat} : readFrom n cs = some m ↔
    (∀ c ∈ cs, c.isDigit = true) ∧ n * 10 ^ cs.length + value cs = m := by
  induction cs generalizing n with
  | nil => simp [readFrom, value]
  | cons c cs ih =>
    have hvalue : (10 * n + (c.toNat - '0'.toNat)) * 10 ^ cs.length + value cs =
        n * 10 ^ (c :: cs).length + value (c :: cs) := by
      rw [value_cons, List.length_cons]
      ring
    rw [readFrom]
    split
    · next hc => rw [ih, hvalue, List.forall_mem_cons, and_iff_right hc]
    · next hc => simp [hc]

theorem readDigits?_eq_some_iff {cs : List Char} {n : Nat} :
    readDigits? cs = some n ↔ Digits cs n := by
  cases cs with
  | nil => exact iff_of_false (by simp [readDigits?]) fun h => h.nonempty rfl
  | cons c cs =>
    rw [readDigits?, readFrom_eq_some_iff, Nat.zero_mul, Nat.zero_add]
    exact ⟨fun h => ⟨List.cons_ne_nil c cs, h.1, h.2⟩, fun h => ⟨h.digits, h.value_eq⟩⟩

theorem not_digits_plus {cs : List Char} {n : Nat} : ¬ Digits ('+' :: cs) n :=
  fun h => absurd (h.digits _ List.mem_cons_self) (by decide)

theorem readUnsigned?_eq_some_iff {cs : List Char} {n : Nat} :
    readUnsigned? cs = some n ↔ Numeral cs n := by
  unfold readUnsigned? Numeral
  split
  · next cs =>
    rw [readDigits?_eq_some_iff]
    simp [not_digits_plus]
  · next hplus =>
    rw [readDigits?_eq_some_iff, or_iff_left]
    rintro ⟨ds, hds, -⟩
    exact hplus ds hds

/-- A text is read as the number that it is a numeral of, where that is below the bound. -/
theorem read?_eq_some_iff {bound : Nat} {cs : List Char} {n : Nat} :
    read? bound cs = some n ↔ Numeral cs n ∧ n < bound := by
  rw [read?, Option.filter_eq_some_iff, readUnsigned?_eq_some_iff, decide_eq_true_iff]

/-! ## What is written -/

theorem digits_write (n : Nat) : Digits (write n) n := by
  refine ⟨write_ne_nil n, fun c hc => isDigit_of_mem_write hc, ?_⟩
  fun_induction write n with
  | case1 n hn => simpa [value] using (digit_spec hn).2
  | case2 n hn ih =>
    rw [value_append_digit _ (Nat.mod_lt n (by decide)), ih, Nat.div_add_mod]

theorem numeral_write (n : Nat) : Numeral (write n) n := .inl (digits_write n)

/-- What is written is read back. -/
theorem read?_write {n bound : Nat} (h : n < bound) : read? bound (write n) = some n :=
  read?_eq_some_iff.2 ⟨numeral_write n, h⟩

theorem length_write_le {k n : Nat} (h : n < 10 ^ (k + 1)) : (write n).length ≤ k + 1 := by
  induction k generalizing n with
  | zero =>
    rw [write, if_pos (by simpa using h), List.length_singleton]
  | succ k ih =>
    rw [write]
    split
    · simp
    · have hdiv : n / 10 < 10 ^ (k + 1) := by
        rw [Nat.div_lt_iff_lt_mul (by decide)]
        exact h
      simpa using ih hdiv

/-- No zero is written in front of a number. -/
theorem head?_write_ne_zero {n : Nat} (h : 0 < n) : (write n).head? ≠ some '0' := by
  fun_induction write n with
  | case1 n hn =>
    have hall : ∀ n < 10, 0 < n → digit n ≠ '0' := by decide
    simpa using hall n hn h
  | case2 n hn ih =>
    obtain ⟨c, cs, hw⟩ := List.exists_cons_of_ne_nil (write_ne_nil (n / 10))
    have hhead := ih (by omega)
    rw [hw] at hhead ⊢
    exact hhead

end Decimal

namespace Family

theorem ofNumeric?_numeric (f : Family) : ofNumeric? f.numeric = some f := by
  have hsplit : Text.splitFirst? '/' f.numeric =
      some (Decimal.write f.afi.toNat, Decimal.write f.safi.toNat) := by
    exact Text.splitFirst?_eq_some.2 ⟨rfl, Decimal.notMem_write (by decide) _⟩
  simp [ofNumeric?, hsplit, Decimal.read?_write f.afi.toNat_lt, Decimal.read?_write f.safi.toNat_lt]

theorem numeric_injective {f g : Family} (h : f.numeric = g.numeric) : f = g := by
  have hread := ofNumeric?_numeric f
  rw [h, ofNumeric?_numeric g] at hread
  exact (Option.some.inj hread).symm

/-- A family has a well-known name or a text that begins with a digit. -/
theorem text_cases (f : Family) : (f, f.text) ∈ names ∨
    f.text = String.ofList f.numeric ∧ ∃ c cs, f.numeric = c :: cs ∧ c.isDigit = true := by
  unfold text name?
  cases hfind : names.find? fun p => p.1 == f with
  | some p =>
    left
    have hp : p.1 = f := by simpa using List.find?_some hfind
    have hmem := List.mem_of_find?_eq_some hfind
    simpa [← hp] using hmem
  | none =>
    right
    refine ⟨rfl, ?_⟩
    cases hw : Decimal.write f.afi.toNat with
    | nil => exact absurd hw (Decimal.write_ne_nil _)
    | cons c cs =>
      refine ⟨c, cs ++ '/' :: Decimal.write f.safi.toNat, by rw [numeric, hw, List.cons_append], ?_⟩
      exact Decimal.isDigit_of_mem_write (n := f.afi.toNat) (by simp [hw])

/-- No two families have the same text. -/
theorem text_injective {f g : Family} (h : f.text = g.text) : f = g := by
  have hnames : ∀ p ∈ names, ∀ q ∈ names, p.2 = q.2 → p.1 = q.1 := by decide
  have hletter : ∀ p ∈ names, p.2.toList.head?.any Char.isDigit = false := by decide
  have hmixed {f g : Family} (hf : (f, f.text) ∈ names) {c : Char} {cs : List Char}
      (hg : f.text = String.ofList (c :: cs)) (hc : c.isDigit = true) : False := by
    have hno := hletter _ hf
    rw [hg, String.toList_ofList, List.head?_cons, Option.any_some, hc] at hno
    cases hno
  rcases f.text_cases with hf | ⟨hf, c, cs, hcs, hc⟩
  · rcases g.text_cases with hg | ⟨hg, c, cs, hcs, hc⟩
    · exact hnames _ hf _ hg h
    · exact (hmixed (g := g) hf (by rw [h, hg, hcs]) hc).elim
  · rcases g.text_cases with hg | ⟨hg, -⟩
    · exact (hmixed (g := f) hg (by rw [← h, hf, hcs]) hc).elim
    · rw [hf, hg] at h
      exact numeric_injective (String.ofList_injective h)

end Family

end RouteExchange
