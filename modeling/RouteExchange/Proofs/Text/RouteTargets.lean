/-
  The texts of route targets.

  `RouteTarget.Spells` says which texts are route targets, and which: the last colon ends the
  administrator, a dot in it makes it an address, and its size otherwise the form.  Parsing
  takes exactly these (`RouteTarget.parse_eq_ok_iff`).  The forms with an AS number share
  their texts where two octets hold the number, and there the text is read as the first form
  (`RouteTarget.normal`).
-/
import RouteExchange.Proofs.Text.Addresses
import RouteExchange.RouteTarget

namespace RouteExchange.RouteTarget

open Decimal (Numeral notMem_write numeral_write)

/-- The administrator and the number that the route targets are written with. -/
inductive Parts (admin number : List Char) : RouteTarget → Prop
  /-- An address, known by its dots, and a number of two octets. -/
  | ipv4 {addr : V4} {n : Nat} (dot : '.' ∈ admin) (left : V4.Dotted admin addr)
      (right : Numeral number n) (bound : n ≤ 65535) :
      Parts admin number (.ipv4 addr (.ofNat n))
  /-- An AS number that two octets hold, and a number of four. -/
  | as2 {asn n : Nat} (dot : '.' ∉ admin) (left : Numeral admin asn) (small : asn ≤ 65535)
      (right : Numeral number n) (bound : n ≤ 4294967295) :
      Parts admin number (.as2 (.ofNat asn) (.ofNat n))
  /-- An AS number that takes four octets, and a number of two. -/
  | as4 {asn n : Nat} (dot : '.' ∉ admin) (left : Numeral admin asn) (large : 65535 < asn)
      (fits : asn ≤ 4294967295) (right : Numeral number n) (bound : n ≤ 65535) :
      Parts admin number (.as4 (.ofNat asn) (.ofNat n))

/-- The text denotes the route target: its parts stand before and after the last colon. -/
def Spells (cs : List Char) (t : RouteTarget) : Prop :=
  ∃ admin number, cs = admin ++ ':' :: number ∧ ':' ∉ number ∧ Parts admin number t

/-- The route target that the text of `t` is read as: an AS number that two octets hold
    takes the first form. -/
def normal : RouteTarget → RouteTarget
  | as4 asn number =>
    if asn.toNat ≤ 65535 then as2 (.ofNat asn.toNat) (.ofNat number.toNat) else as4 asn number
  | t => t

/-! ## Reading -/

variable {admin number : List Char} {s : String} {t u : RouteTarget}

theorem parts_of_ofParts? (h : ofParts? admin number = some t) : Parts admin number t := by
  simp only [ofParts?, Option.bind_eq_bind, pure] at h
  split at h
  · next hdot =>
    obtain ⟨addr, haddr, h⟩ := Option.bind_eq_some_iff.1 h
    obtain ⟨n, hn, h⟩ := Option.bind_eq_some_iff.1 h
    obtain ⟨hright, hlt⟩ := Decimal.read?_eq_some_iff.1 hn
    cases h
    exact .ipv4 hdot (V4.parse?_eq_some_iff.1 haddr) hright (Nat.le_of_lt_succ hlt)
  · next hdot =>
    obtain ⟨asn, hasn, h⟩ := Option.bind_eq_some_iff.1 h
    obtain ⟨hleft, hfits⟩ := Decimal.read?_eq_some_iff.1 hasn
    split at h
    · next hsmall =>
      obtain ⟨n, hn, h⟩ := Option.bind_eq_some_iff.1 h
      obtain ⟨hright, hlt⟩ := Decimal.read?_eq_some_iff.1 hn
      cases h
      exact .as2 hdot hleft (Nat.le_of_lt_succ hsmall) hright (Nat.le_of_lt_succ hlt)
    · next hlarge =>
      obtain ⟨n, hn, h⟩ := Option.bind_eq_some_iff.1 h
      obtain ⟨hright, hlt⟩ := Decimal.read?_eq_some_iff.1 hn
      cases h
      exact .as4 hdot hleft (Nat.le_of_not_lt hlarge) (Nat.le_of_lt_succ hfits) hright
        (Nat.le_of_lt_succ hlt)

theorem Parts.ofParts? (h : Parts admin number t) : ofParts? admin number = some t := by
  have hread {cs : List Char} {n bound : Nat} (hn : Numeral cs n) (hle : n ≤ bound) :
      Decimal.read? (bound + 1) cs = some n :=
    Decimal.read?_eq_some_iff.2 ⟨hn, Nat.lt_succ_of_le hle⟩
  unfold RouteTarget.ofParts?
  cases h with
  | ipv4 dot left right bound =>
    rw [if_pos dot, V4.parse?_eq_some_iff.2 left, UInt16.size, hread right bound]
    rfl
  | as2 dot left small right bound =>
    rw [if_neg dot, UInt32.size, hread left (Nat.le_trans small (by decide)), hread right bound]
    simp [Nat.lt_succ_of_le small]
  | as4 dot left large fits right bound =>
    rw [if_neg dot, UInt32.size, hread left fits, UInt16.size, hread right bound]
    simp [Nat.not_lt.2 large]

/-- A string is parsed as the route target that it denotes. -/
theorem parse_eq_ok_iff : parse s = .ok t ↔ Spells s.toList t := by
  have hparse : parse s = .ok t ↔ parse? s.toList = some t := by
    unfold parse
    split <;> simp_all
  rw [hparse, parse?, Option.bind_eq_bind, Option.bind_eq_some_iff, Prod.exists]
  constructor
  · rintro ⟨admin, number, hsplit, h⟩
    obtain ⟨hs, hcolon⟩ := Text.splitLast?_eq_some.1 hsplit
    exact ⟨admin, number, hs, hcolon, parts_of_ofParts? h⟩
  · rintro ⟨admin, number, hs, hcolon, h⟩
    exact ⟨admin, number, Text.splitLast?_eq_some.2 ⟨hs, hcolon⟩, h.ofParts?⟩

/-- Any other string is an error, which shows it. -/
theorem parse_eq_error (h : ∀ t, ¬ Spells s.toList t) : parse s = .error ⟨s⟩ := by
  cases hp : parse s with
  | ok t => exact absurd (parse_eq_ok_iff.1 hp) (h t)
  | error e =>
    unfold parse at hp
    split at hp <;> cases hp
    rfl

-- zeros may stand in front of a number, but not of an octet of an address
example : parse "10.0.0.1:007" = .ok (ipv4 ⟨10, 0, 0, 1⟩ 7) ∧
    parse "10.0.0.01:7" = .error ⟨"10.0.0.01:7"⟩ := by decide

/-! ## Writing -/

/-- The text of a route target denotes its normal form. -/
theorem spells_chars (t : RouteTarget) : Spells t.chars t.normal := by
  have hparts {admin : List Char} {n : Nat} {u : RouteTarget}
      (h : Parts admin (Decimal.write n) u) : Spells (admin ++ ':' :: Decimal.write n) u :=
    ⟨admin, _, rfl, notMem_write (by decide) n, h⟩
  cases t with
  | as2 asn number =>
    have h := Parts.as2 (notMem_write (by decide) _) (numeral_write asn.toNat)
      (Nat.le_of_lt_succ asn.toNat_lt) (numeral_write number.toNat)
      (Nat.le_of_lt_succ number.toNat_lt)
    simpa [normal, chars] using hparts h
  | ipv4 addr number =>
    have hdot : '.' ∈ addr.chars := by simp [V4.chars]
    have h := Parts.ipv4 hdot (V4.dotted_chars addr) (numeral_write number.toNat)
      (Nat.le_of_lt_succ number.toNat_lt)
    simpa [normal, chars] using hparts h
  | as4 asn number =>
    have hdot : '.' ∉ Decimal.write asn.toNat := notMem_write (by decide) _
    have hn : number.toNat ≤ 65535 := Nat.le_of_lt_succ number.toNat_lt
    rw [chars, normal]
    split
    · next hsmall =>
      exact hparts (.as2 hdot (numeral_write _) hsmall (numeral_write _)
        (Nat.le_trans hn (by decide)))
    · next hlarge =>
      have h := Parts.as4 hdot (numeral_write asn.toNat) (Nat.lt_of_not_le hlarge)
        (Nat.le_of_lt_succ asn.toNat_lt) (numeral_write number.toNat) hn
      simpa using hparts h

/-- Parsing the text of a route target gives its normal form. -/
theorem parse_text_eq (t : RouteTarget) : parse t.text = .ok t.normal :=
  parse_eq_ok_iff.2 (by simpa [text] using t.spells_chars)

/-- The normal form has the text of the route target. -/
theorem text_normal (t : RouteTarget) : t.normal.text = t.text := by
  cases t with
  | as4 asn number =>
    rw [normal]
    split
    · next hsmall =>
      have hasn : (UInt16.ofNat asn.toNat).toNat = asn.toNat :=
        UInt16.toNat_ofNat_of_lt' (Nat.lt_succ_of_le hsmall)
      have hnumber : (UInt32.ofNat number.toNat).toNat = number.toNat :=
        UInt32.toNat_ofNat_of_lt' (Nat.lt_trans number.toNat_lt (by decide))
      rw [text, text, chars, chars, hasn, hnumber]
    · rfl
  | _ => rfl

/-- Two route targets have one text just when they have one normal form. -/
theorem text_eq_text_iff : t.text = u.text ↔ t.normal = u.normal := by
  constructor
  · intro h
    have hparse := parse_text_eq t
    rw [h, parse_text_eq u] at hparse
    exact (Except.ok.inj hparse).symm
  · intro h
    rw [← text_normal t, h, text_normal u]

/-- What a text denotes is in normal form. -/
theorem Spells.normal_eq {cs : List Char} (h : Spells cs t) : t.normal = t := by
  obtain ⟨admin, number, -, -, h⟩ := h
  cases h with
  | ipv4 | as2 => rfl
  | @as4 asn n dot left large fits right bound =>
    have hasn : (UInt32.ofNat asn).toNat = asn := UInt32.toNat_ofNat_of_lt' (Nat.lt_succ_of_le fits)
    rw [normal, hasn, if_neg (Nat.not_le.2 large)]

/-! ## The text form -/

/-- A string is a route target if it spells one, and an error that shows it otherwise.  The
    text of a route target is parsed as its normal form, which is all that two route targets
    with one text share, and as itself if parsing gave it. -/
theorem text_form (s : String) (t u : RouteTarget) :
    (parse s = .ok t ↔ Spells s.toList t) ∧
      (parse s = .error ⟨s⟩ ↔ ∀ v, ¬ Spells s.toList v) ∧
      parse t.text = .ok t.normal ∧
      (t.text = u.text ↔ t.normal = u.normal) ∧
      (parse s = .ok t → parse t.text = .ok t) := by
  refine ⟨parse_eq_ok_iff, ⟨?_, parse_eq_error⟩, parse_text_eq t, text_eq_text_iff, ?_⟩
  · intro herror v hv
    rw [parse_eq_ok_iff.2 hv] at herror
    cases herror
  · intro hok
    rw [parse_text_eq t, (parse_eq_ok_iff.1 hok).normal_eq]

/-- A plus sign and leading zeros are not kept, and the text of an AS number that two octets
    hold does not show that four were used. -/
theorem sample_text_form :
    parse "+065000:100" = .ok (as2 65000 100) ∧ Spells "+065000:100".toList (as2 65000 100) ∧
      parse (as2 65000 100).text = .ok (as2 65000 100) ∧
      parse (as4 65000 100).text = .ok (as2 65000 100) ∧
      (as4 65000 100).text = (as2 65000 100).text := by
  have hok : parse "+065000:100" = .ok (as2 65000 100) := by decide
  obtain ⟨hread, -, -, -, hkept⟩ := text_form "+065000:100" (as2 65000 100) (as2 65000 100)
  obtain ⟨-, -, hparse, htext, -⟩ := text_form "+065000:100" (as4 65000 100) (as2 65000 100)
  exact ⟨hok, hread.1 hok, hkept hok, hparse, htext.2 (by decide)⟩

end RouteExchange.RouteTarget
