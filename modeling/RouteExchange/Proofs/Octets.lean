/-
  Words in octets: what is written of a word is what it is read from.
-/
import RouteExchange.Octets

namespace RouteExchange.Octets

theorem toNat_ofBe16 (a b : UInt8) : (ofBe16 a b).toNat = a.toNat * 256 + b.toNat := by
  have ha := a.toNat_lt
  have hb := b.toNat_lt
  rw [ofBe16, UInt16.toNat_ofNat']
  omega

theorem toNat_ofBe32 (a b c d : UInt8) : (ofBe32 a b c d).toNat =
    ((a.toNat * 256 + b.toNat) * 256 + c.toNat) * 256 + d.toNat := by
  have ha := a.toNat_lt
  have hb := b.toNat_lt
  have hc := c.toNat_lt
  have hd := d.toNat_lt
  rw [ofBe32, UInt32.toNat_ofNat']
  omega

theorem be16_eq_iff {n : UInt16} {a b : UInt8} : be16 n = [a, b] ↔ ofBe16 a b = n := by
  have hn := n.toNat_lt
  have ha := a.toNat_lt
  have hb := b.toNat_lt
  simp only [be16, List.cons.injEq, and_true, ← UInt8.toNat_inj, UInt8.toNat_ofNat',
    ← UInt16.toNat_inj, toNat_ofBe16]
  omega

theorem be32_eq_iff {n : UInt32} {a b c d : UInt8} :
    be32 n = [a, b, c, d] ↔ ofBe32 a b c d = n := by
  have hn := n.toNat_lt
  have ha := a.toNat_lt
  have hb := b.toNat_lt
  have hc := c.toNat_lt
  have hd := d.toNat_lt
  simp only [be32, List.cons.injEq, and_true, ← UInt8.toNat_inj, UInt8.toNat_ofNat',
    ← UInt32.toNat_inj, toNat_ofBe32]
  omega

theorem be16_eq (n : UInt16) : ∃ hi lo, be16 n = [hi, lo] ∧ ofBe16 hi lo = n :=
  ⟨_, _, rfl, be16_eq_iff.1 rfl⟩

theorem length_be16 (n : UInt16) : (be16 n).length = 2 := rfl

end RouteExchange.Octets
