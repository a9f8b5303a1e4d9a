/-
  The texts of IPv4 addresses.

  `V4.Dotted` says which texts are addresses and which: four octets with dots between, each
  of one to three digits and without a zero in front.  `V4.parse?` reads exactly these
  (`V4.parse?_eq_some_iff`), and `V4.chars` writes one of them (`V4.dotted_chars`).
-/
import RouteExchange.Address.V4
import RouteExchange.Proofs.Text.Blanks
import RouteExchange.Proofs.Text.Numerals

namespace RouteExchange.V4

open Decimal (Digits)

/-- `cs` denotes the octet `b`: at most three digits, no zero in front of others. -/
structure OctetText (cs : List Char) (b : UInt8) : Prop where
  digits : Digits cs b.toNat
  short : cs.length ≤ 3
  plain : cs.length ≤ 1 ∨ cs.head? ≠ some '0'

/-- `cs` denotes the address `v`: its octets with dots between. -/
def Dotted (cs : List Char) (v : V4) : Prop :=
  ∃ a b c d, cs = a ++ '.' :: (b ++ '.' :: (c ++ '.' :: d)) ∧
    OctetText a v.a ∧ OctetText b v.b ∧ OctetText c v.c ∧ OctetText d v.d

/-- No digit stands at the front of the text, so that a number before it ends there. -/
def Ends (rest : List Char) : Prop := ∀ c, rest.head? = some c → c.isDigit = false

theorem ends_dot {rest : List Char} : Ends ('.' :: rest) := by
  rintro c ⟨⟩
  rfl

theorem ends_nil : Ends [] := by
  rintro c ⟨⟩

/-! ## Reading -/

theorem takeWhile_append_ends {ds rest : List Char} (hds : ∀ c ∈ ds, c.isDigit = true)
    (hrest : Ends rest) : (ds ++ rest).takeWhile Char.isDigit = ds ∧
      (ds ++ rest).dropWhile Char.isDigit = rest := by
  refine ⟨?_, Text.dropWhile_eq_iff.2 ⟨⟨ds, rfl, hds⟩, hrest⟩⟩
  rw [List.takeWhile_append_of_pos hds]
  cases rest with
  | nil => simp
  | cons c rest => simp [hrest c rfl]

theorem ends_dropWhile (cs : List Char) : Ends (cs.dropWhile Char.isDigit) :=
  (Text.dropWhile_eq_iff.1 rfl).2

theorem readByte_eq_some_iff {cs rest : List Char} {b : UInt8} : readByte cs = some (b, rest) ↔
    ∃ ds, cs = ds ++ rest ∧ OctetText ds b ∧ Ends rest := by
  constructor
  · intro h
    simp only [readByte] at h
    split at h
    · next hshape =>
      obtain ⟨n, hn, h⟩ := Option.bind_eq_some_iff.1 h
      split at h
      · next hlt =>
        cases h
        have hb : (UInt8.ofNat n).toNat = n := UInt8.toNat_ofNat_of_lt' hlt
        refine ⟨_, List.takeWhile_append_dropWhile.symm, ⟨?_, hshape.1, hshape.2⟩,
          ends_dropWhile cs⟩
        rw [hb]
        exact Decimal.readDigits?_eq_some_iff.1 hn
      · cases h
    · cases h
  · rintro ⟨ds, rfl, hds, hrest⟩
    obtain ⟨htake, hdrop⟩ := takeWhile_append_ends hds.digits.digits hrest
    have hread := Decimal.readDigits?_eq_some_iff.2 hds.digits
    simp only [readByte, htake, hdrop, hread, Option.bind_some]
    rw [if_pos ⟨hds.short, hds.plain⟩, if_pos b.toNat_lt, UInt8.ofNat_toNat]

theorem afterDot_eq_some_iff {cs rest : List Char} :
    afterDot cs = some rest ↔ cs = '.' :: rest := by
  unfold afterDot
  split
  · simp
  · next hdot => exact iff_of_false (by simp) (hdot rest)

/-- An address is read up to a character that is no digit. -/
theorem read_eq_some_iff {cs rest : List Char} {v : V4} : read cs = some (v, rest) ↔
    ∃ ds, cs = ds ++ rest ∧ Dotted ds v ∧ Ends rest := by
  simp only [read, Option.bind_eq_bind, Option.bind_eq_some_iff, Prod.exists,
    readByte_eq_some_iff, afterDot_eq_some_iff, Option.some.injEq, Prod.mk.injEq, pure]
  constructor
  · rintro ⟨a, _, ⟨as, rfl, ha, -⟩, _, rfl, b, _, ⟨bs, rfl, hb, -⟩, _, rfl,
      c, _, ⟨cs, rfl, hc, -⟩, _, rfl, d, _, ⟨ds, rfl, hd, hrest⟩, rfl, rfl⟩
    exact ⟨_, by simp, ⟨as, bs, cs, ds, rfl, ha, hb, hc, hd⟩, hrest⟩
  · rintro ⟨_, rfl, ⟨as, bs, cs, ds, rfl, ha, hb, hc, hd⟩, hrest⟩
    exact ⟨v.a, _, ⟨as, by simp, ha, ends_dot⟩, _, rfl, v.b, _, ⟨bs, rfl, hb, ends_dot⟩, _, rfl,
      v.c, _, ⟨cs, rfl, hc, ends_dot⟩, _, rfl, v.d, _, ⟨ds, rfl, hd, hrest⟩, rfl, rfl⟩

/-- A text is parsed as the address that it denotes. -/
theorem parse?_eq_some_iff {cs : List Char} {v : V4} : parse? cs = some v ↔ Dotted cs v := by
  have hread : parse? cs = some v ↔ read cs = some (v, []) := by
    unfold parse?
    split
    · next h => simp [h]
    · next h => exact iff_of_false (by simp) fun hnil => h v hnil
  rw [hread, read_eq_some_iff]
  simp [ends_nil]

/-! ## Writing -/

theorem octetText_write (b : UInt8) : OctetText (Decimal.write b.toNat) b := by
  have hlt := b.toNat_lt
  refine ⟨Decimal.digits_write _, Decimal.length_write_le (by omega), ?_⟩
  rcases Nat.eq_zero_or_pos b.toNat with hz | hpos
  · left
    rw [hz, Decimal.write]
    decide
  · exact .inr (Decimal.head?_write_ne_zero hpos)

theorem dotted_chars (v : V4) : Dotted v.chars v :=
  ⟨_, _, _, _, rfl, octetText_write _, octetText_write _, octetText_write _, octetText_write _⟩

end RouteExchange.V4
