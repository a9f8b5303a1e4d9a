/-
  The texts of address families.

  `Family.Denotes` says which strings are families, and which: without the blanks around it
  (`Text.Trimmed`) such a string is a well-known name in any case, or two decimal numbers with
  a slash between.  Parsing takes exactly these (`Family.parse_eq_ok_iff`), and the text of a
  family denotes it (`Family.denotes_text`).
-/
import RouteExchange.Proofs.Text.Blanks
import RouteExchange.Proofs.Text.Numerals

namespace RouteExchange

/-! ## Numerals -/

namespace Decimal

theorem toLower_of_isDigit {c : Char} (h : c.isDigit = true) : c.toLower = c := by
  have hle : c.val ≤ '9'.val := by simpa using (Bool.and_eq_true_iff.1 h).2
  refine dif_neg fun hupper => ?_
  exact absurd (UInt32.le_trans hupper.1 hle) (by decide)

theorem isBlank_of_isDigit {c : Char} (h : c.isDigit = true) : Text.isBlank c = false := by
  have hbounds : 48 ≤ c.toNat ∧ c.toNat ≤ 57 := by
    simpa [Char.isDigit, UInt32.le_iff_toNat_le] using h
  simp only [Text.isBlank]
  grind

theorem Numeral.mem {cs : List Char} {n : Nat} (h : Numeral cs n) {c : Char} (hc : c ∈ cs) :
    c = '+' ∨ c.isDigit = true := by
  rcases h with h | ⟨ds, rfl, h⟩
  · exact .inr (h.digits c hc)
  · exact (List.mem_cons.1 hc).imp_right (h.digits c)

theorem Numeral.ne_nil {cs : List Char} {n : Nat} (h : Numeral cs n) : cs ≠ [] := by
  rcases h with h | ⟨ds, rfl, h⟩
  · exact h.nonempty
  · exact List.cons_ne_nil _ _

end Decimal

namespace Family

open Decimal (Numeral)
open Text (Trimmed)

/-- The texts of families, without blanks around them. -/
inductive Spells : List Char → Family → Prop
  /-- A well-known name, in any case. -/
  | known {cs : List Char} {f : Family} {name : String} (listed : (f, name) ∈ names)
      (same : cs.map Char.toLower = name.toList.map Char.toLower) : Spells cs f
  /-- An AFI and a SAFI, with the first slash between. -/
  | numbers {left right : List Char} {afi safi : Nat} (first : '/' ∉ left)
      (hleft : Numeral left afi) (afi_le : afi ≤ 65535)
      (hright : Numeral right safi) (safi_le : safi ≤ 255) :
      Spells (left ++ '/' :: right) ⟨.ofNat afi, .ofNat safi⟩

/-- The string is a text of the family, with blanks around it or not. -/
def Denotes (s : String) (f : Family) : Prop := ∃ cs, Trimmed s.toList cs ∧ Spells cs f

/-! ## Reading -/

variable {cs : List Char} {s : String} {f g : Family}

theorem ofName?_eq_some_iff : ofName? cs = some f ↔
    ∃ name, (f, name) ∈ names ∧ cs.map Char.toLower = name.toList.map Char.toLower := by
  have hdistinct : ∀ p ∈ names, ∀ q ∈ names,
      p.2.toList.map Char.toLower = q.2.toList.map Char.toLower → p.1 = q.1 := by decide
  simp only [ofName?, Option.map_eq_some_iff]
  constructor
  · rintro ⟨p, hfind, rfl⟩
    refine ⟨p.2, List.mem_of_find?_eq_some hfind, ?_⟩
    have hsame := List.find?_some hfind
    exact (by simpa [Text.sameIgnoringCase] using hsame : _ = _).symm
  · rintro ⟨name, hmem, hsame⟩
    have hsome : (names.find? fun p => Text.sameIgnoringCase p.2.toList cs).isSome := by
      rw [List.find?_isSome]
      exact ⟨_, hmem, by simp [Text.sameIgnoringCase, hsame]⟩
    obtain ⟨p, hp⟩ := Option.isSome_iff_exists.1 hsome
    refine ⟨p, hp, hdistinct p (List.mem_of_find?_eq_some hp) _ hmem ?_⟩
    have hsame' := List.find?_some hp
    rw [← hsame]
    simpa [Text.sameIgnoringCase] using hsame'

theorem ofNumeric?_eq_some_iff : ofNumeric? cs = some f ↔ ∃ left right afi safi,
    cs = left ++ '/' :: right ∧ '/' ∉ left ∧ Numeral left afi ∧ afi ≤ 65535 ∧
      Numeral right safi ∧ safi ≤ 255 ∧ f = ⟨.ofNat afi, .ofNat safi⟩ := by
  simp only [ofNumeric?, Option.bind_eq_bind, Option.bind_eq_some_iff, Prod.exists, pure,
    Text.splitFirst?_eq_some, Decimal.read?_eq_some_iff, Option.some.injEq]
  constructor
  · rintro ⟨left, right, ⟨hcs, first⟩, afi, ⟨hleft, afi_le⟩, safi, ⟨hright, safi_le⟩, hf⟩
    exact ⟨left, right, afi, safi, hcs, first, hleft, Nat.le_of_lt_succ afi_le, hright,
      Nat.le_of_lt_succ safi_le, hf.symm⟩
  · rintro ⟨left, right, afi, safi, hcs, first, hleft, afi_le, hright, safi_le, hf⟩
    exact ⟨left, right, ⟨hcs, first⟩, afi, ⟨hleft, Nat.lt_succ_of_le afi_le⟩, safi,
      ⟨hright, Nat.lt_succ_of_le safi_le⟩, hf.symm⟩

theorem spells_iff : Spells cs f ↔ ofName? cs = some f ∨ ofNumeric? cs = some f := by
  rw [ofName?_eq_some_iff, ofNumeric?_eq_some_iff]
  constructor
  · rintro (⟨listed, same⟩ | ⟨first, hleft, afi_le, hright, safi_le⟩)
    · exact .inl ⟨_, listed, same⟩
    · exact .inr ⟨_, _, _, _, rfl, first, hleft, afi_le, hright, safi_le, rfl⟩
  · rintro (⟨name, listed, same⟩ | ⟨_, _, _, _, rfl, first, hleft, afi_le, hright, safi_le, rfl⟩)
    · exact .known listed same
    · exact .numbers first hleft afi_le hright safi_le

/-- No numeral begins like a well-known name, so it does not matter which is tried first. -/
theorem ofName?_of_ofNumeric? (h : ofNumeric? cs = some f) : ofName? cs = none := by
  have hletter : ∀ p ∈ names, (p.2.toList.map Char.toLower).head?.any
      (fun c => c == '+' || c.isDigit) = false := by decide
  obtain ⟨left, right, afi, -, rfl, -, hleft, -⟩ := ofNumeric?_eq_some_iff.1 h
  obtain ⟨c, rest, rfl⟩ := List.exists_cons_of_ne_nil hleft.ne_nil
  by_contra hname
  obtain ⟨g, hg⟩ := Option.ne_none_iff_exists'.1 hname
  obtain ⟨name, listed, same⟩ := ofName?_eq_some_iff.1 hg
  have hfirst := hletter _ listed
  rw [← same, List.cons_append, List.map_cons, List.head?_cons, Option.any_some] at hfirst
  rcases hleft.mem List.mem_cons_self with rfl | hc
  · cases hfirst
  · simp [Decimal.toLower_of_isDigit hc, hc] at hfirst

theorem parse_eq_ok_iff : parse s = .ok f ↔ Denotes s f := by
  have hdenotes : Denotes s f ↔ Spells (Text.trim s.toList) f := by
    simp [Denotes, ← Text.trim_eq_iff]
  rw [hdenotes, spells_iff, parse]
  cases hname : ofName? (Text.trim s.toList) with
  | none => cases hnumeric : ofNumeric? (Text.trim s.toList) <;> simp
  | some g =>
    have hnumeric : ofNumeric? (Text.trim s.toList) ≠ some f := by
      intro h
      rw [ofName?_of_ofNumeric? h] at hname
      cases hname
    simp [hnumeric]

/-- Any other string is an error, which shows it without the blanks around it. -/
theorem parse_eq_error_iff {e : Unknown} : parse s = .error e ↔
    (∀ f, ¬ Denotes s f) ∧ Trimmed s.toList e.trimmed.toList := by
  have hshown {e : Unknown} (h : parse s = .error e) : Trimmed s.toList e.trimmed.toList := by
    simp only [parse] at h
    split at h <;> cases h
    rw [String.toList_ofList]
    exact Text.trim_eq_iff.1 rfl
  constructor
  · intro h
    refine ⟨fun f hf => ?_, hshown h⟩
    rw [parse_eq_ok_iff.2 hf] at h
    cases h
  · rintro ⟨hnone, htrimmed⟩
    cases h : parse s with
    | ok f => exact absurd (parse_eq_ok_iff.1 h) (hnone f)
    | error e' =>
      have hsame := (Text.trim_eq_iff.2 (hshown h)).symm.trans (Text.trim_eq_iff.2 htrimmed)
      exact congrArg Except.error (congrArg Unknown.mk (String.toList_inj.1 hsame))

/-! ## Writing -/

theorem denotes_text (f : Family) : Denotes f.text f := by
  have hnames : ∀ p ∈ names, p.2.toList.all (fun c => !Text.isBlank c) = true := by decide
  rcases f.text_cases with hlisted | ⟨htext, -⟩
  · refine ⟨_, Text.trimmed_self ?_, .known hlisted rfl⟩
    simpa using hnames _ hlisted
  · have hblank : ∀ c ∈ f.numeric, Text.isBlank c = false := by
      intro c hc
      rcases List.mem_append.1 hc with hc | hc
      · exact Decimal.isBlank_of_isDigit (Decimal.isDigit_of_mem_write hc)
      rcases List.mem_cons.1 hc with rfl | hc
      · rfl
      · exact Decimal.isBlank_of_isDigit (Decimal.isDigit_of_mem_write hc)
    have hspells := Spells.numbers (Decimal.notMem_write (by decide) _)
      (Decimal.numeral_write f.afi.toNat) (Nat.le_of_lt_succ f.afi.toNat_lt)
      (Decimal.numeral_write f.safi.toNat) (Nat.le_of_lt_succ f.safi.toNat_lt)
    rw [UInt16.ofNat_toNat, UInt8.ofNat_toNat] at hspells
    refine ⟨f.numeric, ?_, hspells⟩
    rw [htext, String.toList_ofList]
    exact Text.trimmed_self hblank

theorem parse_text (f : Family) : parse f.text = .ok f := parse_eq_ok_iff.2 f.denotes_text

/-! ## The text form -/

/-- A string is parsed as the family that it denotes, and is an error which shows it without
    blanks around if it denotes none.  The text of a family is parsed as that family, so that no
    two have the same; all strings that denote a family are printed as its text, and no
    others are. -/
theorem denoted_and_printed (s : String) (f g : Family) :
    (parse s = .ok f ↔ Denotes s f) ∧
      (∀ e, parse s = .error e ↔ (∀ h, ¬ Denotes s h) ∧ Trimmed s.toList e.trimmed.toList) ∧
      parse f.text = .ok f ∧
      (f.text = g.text ↔ f = g) ∧
      ((parse s).map text = .ok f.text ↔ Denotes s f) := by
  refine ⟨parse_eq_ok_iff, fun e => parse_eq_error_iff, parse_text f, ?_, ?_⟩
  · exact ⟨text_injective, congrArg text⟩
  · rw [← parse_eq_ok_iff]
    cases parse s with
    | ok h => simpa [Except.map] using ⟨text_injective, congrArg text⟩
    | error e => simp [Except.map]

-- a name in any case and numbers with a sign and zeros, but no blanks inside
example : parse " IPv4/RTC\t" = .ok ipv4Rtc ∧ parse "+1/0132" = .ok ipv4Rtc ∧
    ipv4Rtc.text = "ipv4/rtc" ∧ parse " 1 /132" = .error ⟨"1 /132"⟩ := by decide

end Family

end RouteExchange
