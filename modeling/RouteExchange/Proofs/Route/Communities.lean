/-
  Route targets as octets: in extended communities, and among path attributes.

  A community is read as a route target just where this is written as the community with the
  two high bits of its type octet cleared (`RouteTarget.ofCommunity?_eq_some_iff`), so that
  nothing else of a route target is lost or made up.  A string of octets that ends where a
  community ends can be read in parts (`Community.ofOctets_append`), and so route targets that
  are appended to path attributes are found after those that were there.
-/
import RouteExchange.Attributes
import RouteExchange.Proofs.Octets

namespace RouteExchange

/-! ## Communities -/

namespace Community

/-- The community with the two high bits of its type octet cleared. -/
def plain (c : Community) : Community := { c with type := c.type &&& 0x3F }

/-- A community of a route target, by its subtype and the low six bits of its type octet. -/
def IsTarget (c : Community) : Prop :=
  c.subtype = 2 ∧ (c.type &&& 0x3F = 0 ∨ c.type &&& 0x3F = 1 ∨ c.type &&& 0x3F = 2)

instance (c : Community) : Decidable c.IsTarget := inferInstanceAs (Decidable (_ ∧ _))

end Community

namespace RouteTarget

open Community Octets

variable {t u : RouteTarget} {b c : Community}

theorem form_eq (type : UInt8) : form type = (type &&& 0x3F).toNat := by
  rw [form, UInt8.toNat_and]
  exact (Nat.and_two_pow_sub_one_eq_mod type.toNat 6).symm

/-- The low six bits of the type octet are all that is read of it. -/
theorem ofCommunity?_plain (c : Community) : ofCommunity? c.plain = ofCommunity? c := by
  have hform : form c.plain.type = form c.type := by
    rw [form_eq, form_eq, plain, UInt8.and_assoc, UInt8.and_self]
  simp only [ofCommunity?, hform]
  rfl

/-- A route target is read from what it is written as. -/
theorem ofCommunity?_toCommunity (t : RouteTarget) : ofCommunity? t.toCommunity = some t := by
  cases t with
  | as2 asn number =>
    have hasn : ofBe16 _ _ = asn := be16_eq_iff.1 rfl
    have hnumber : ofBe32 _ _ _ _ = number := be32_eq_iff.1 rfl
    show some (as2 _ _) = _
    rw [toCommunity, hasn, hnumber]
  | ipv4 addr number =>
    have hnumber : ofBe16 _ _ = number := be16_eq_iff.1 rfl
    show some (ipv4 _ _) = _
    rw [toCommunity, hnumber]
  | as4 asn number =>
    have hasn : ofBe32 _ _ _ _ = asn := be32_eq_iff.1 rfl
    have hnumber : ofBe16 _ _ = number := be16_eq_iff.1 rfl
    show some (as4 _ _) = _
    rw [toCommunity, hasn, hnumber]

theorem octets_injective (h : b.octets = c.octets) : b = c := by
  cases b
  cases c
  simpa [octets] using h

theorem filterMap_toCommunity (ts : List RouteTarget) :
    (ts.map toCommunity).filterMap ofCommunity? = ts := by
  induction ts with
  | nil => rfl
  | cons t ts ih =>
    rw [List.map_cons, List.filterMap_cons_some (ofCommunity?_toCommunity t), ih]

/-- What a community is read as is written as that community, but for the two bits. -/
theorem toCommunity_of_ofCommunity? (h : ofCommunity? c = some t) : t.toCommunity = c.plain := by
  have hplain (type : UInt8) (hform : form c.type = type.toNat) (hsub : c.subtype = subtype) :
      c.plain.octets = type :: subtype :: [c.v0, c.v1, c.v2, c.v3, c.v4, c.v5] := by
    rw [form_eq, UInt8.toNat_inj] at hform
    rw [plain, octets, hform, hsub]
  apply octets_injective
  unfold ofCommunity? at h
  split at h
  · next hsub =>
    split at h
    · next hform =>
      cases h
      calc (as2 (ofBe16 c.v0 c.v1) (ofBe32 c.v2 c.v3 c.v4 c.v5)).toCommunity.octets
        _ = 0 :: subtype :: (be16 _ ++ be32 _) := rfl
        _ = c.plain.octets := by rw [be16_eq_iff.2 rfl, be32_eq_iff.2 rfl, hplain 0 hform hsub]; rfl
    · next hform =>
      cases h
      calc (ipv4 ⟨c.v0, c.v1, c.v2, c.v3⟩ (ofBe16 c.v4 c.v5)).toCommunity.octets
        _ = 1 :: subtype :: ([c.v0, c.v1, c.v2, c.v3] ++ be16 _) := rfl
        _ = c.plain.octets := by rw [be16_eq_iff.2 rfl, hplain 1 hform hsub]; rfl
    · next hform =>
      cases h
      calc (as4 (ofBe32 c.v0 c.v1 c.v2 c.v3) (ofBe16 c.v4 c.v5)).toCommunity.octets
        _ = 2 :: subtype :: (be32 _ ++ be16 _) := rfl
        _ = c.plain.octets := by rw [be32_eq_iff.2 rfl, be16_eq_iff.2 rfl, hplain 2 hform hsub]; rfl
    · cases h
  · cases h

/-- A community is read as the route target that is written as it, but for the two bits. -/
theorem ofCommunity?_eq_some_iff : ofCommunity? c = some t ↔ t.toCommunity = c.plain := by
  refine ⟨toCommunity_of_ofCommunity?, fun h => ?_⟩
  rw [← ofCommunity?_plain, ← h, ofCommunity?_toCommunity]

theorem isSome_ofCommunity?_iff : (ofCommunity? c).isSome ↔ c.IsTarget := by
  have htype (n : UInt8) : c.type &&& 0x3F = n ↔ form c.type = n.toNat := by
    rw [form_eq, UInt8.toNat_inj]
  rw [IsTarget, htype, htype, htype]
  unfold ofCommunity?
  split
  · next hsub =>
    rw [subtype] at hsub
    split <;> simp_all
  · next hsub => exact iff_of_false (by simp) fun h => hsub h.1

/-- Communities are read as one route target just if both are of route targets, and they
    differ in the two high bits of their type octets at most. -/
theorem ofCommunity?_eq_iff : (∃ u, ofCommunity? b = some u ∧ ofCommunity? c = some u) ↔
    b.IsTarget ∧ c.IsTarget ∧ b.plain = c.plain := by
  rw [← isSome_ofCommunity?_iff, ← isSome_ofCommunity?_iff]
  constructor
  · rintro ⟨u, hb, hc⟩
    refine ⟨by simp [hb], by simp [hc], ?_⟩
    rw [← toCommunity_of_ofCommunity? hb, toCommunity_of_ofCommunity? hc]
  · rintro ⟨hb, -, hplain⟩
    obtain ⟨u, hu⟩ := Option.isSome_iff_exists.1 hb
    refine ⟨u, hu, ?_⟩
    rw [ofCommunity?_eq_some_iff, ← hplain, toCommunity_of_ofCommunity? hu]

/-- A route target is read from the community it is written as.  A community is read as a route
    target just if it is of one, and that is written as the community with the two high bits of
    its type octet cleared; so these are all in which communities of one route target differ. -/
theorem community_form (t : RouteTarget) (b c : Community) :
    ofCommunity? t.toCommunity = some t ∧
      ((∃ u, ofCommunity? b = some u) ↔ b.IsTarget) ∧
      (∀ u, ofCommunity? b = some u → u.toCommunity = b.plain) ∧
      ((∃ u, ofCommunity? b = some u ∧ ofCommunity? c = some u) ↔
        b.IsTarget ∧ c.IsTarget ∧ b.plain = c.plain) := by
  refine ⟨ofCommunity?_toCommunity t, ?_, fun u => toCommunity_of_ofCommunity?, ofCommunity?_eq_iff⟩
  rw [← isSome_ofCommunity?_iff, Option.isSome_iff_exists]

/-- The address 192.0.2.1 in a community with both high bits set. -/
theorem sample_community_form :
    ofCommunity? ⟨0xC1, 2, 192, 0, 2, 1, 0, 5⟩ = some (ipv4 ⟨192, 0, 2, 1⟩ 5) ∧
      (ipv4 ⟨192, 0, 2, 1⟩ 5).toCommunity = ⟨1, 2, 192, 0, 2, 1, 0, 5⟩ := by
  have hread : ofCommunity? ⟨0xC1, 2, 192, 0, 2, 1, 0, 5⟩ = some (ipv4 ⟨192, 0, 2, 1⟩ 5) := by
    decide
  obtain ⟨-, -, hwritten, -⟩ := community_form (ipv4 ⟨192, 0, 2, 1⟩ 5)
    ⟨0xC1, 2, 192, 0, 2, 1, 0, 5⟩ ⟨1, 2, 192, 0, 2, 1, 0, 5⟩
  exact ⟨hread, hwritten _ hread⟩

end RouteTarget

namespace Community

/-! ## Strings of communities -/

theorem length_octets (c : Community) : c.octets.length = 8 := rfl

theorem exists_octets_append {v : Octets} (h : 8 ≤ v.length) :
    ∃ (c : Community) (rest : Octets), v = c.octets ++ rest := by
  rcases v with _ | ⟨t, _ | ⟨s, _ | ⟨a, _ | ⟨b, _ | ⟨c, _ | ⟨d, _ | ⟨e, _ | ⟨f, rest⟩⟩⟩⟩⟩⟩⟩⟩
  case cons.cons.cons.cons.cons.cons.cons.cons => exact ⟨⟨t, s, a, b, c, d, e, f⟩, rest, rfl⟩
  all_goals
    simp only [List.length_cons, List.length_nil] at h
    omega

theorem ofOctets_octets_append (c : Community) (rest : Octets) :
    ofOctets (c.octets ++ rest) = c :: ofOctets rest := rfl

/-- Octets that are whole communities can be read apart from what follows them. -/
theorem ofOctets_append {v : Octets} (h : 8 ∣ v.length) (w : Octets) :
    ofOctets (v ++ w) = ofOctets v ++ ofOctets w := by
  -- on the number of communities, of which one is taken off the front at a time
  obtain ⟨k, hk⟩ := h
  induction k generalizing v with
  | zero =>
    rw [List.eq_nil_of_length_eq_zero hk]
    rfl
  | succ k ih =>
    obtain ⟨c, rest, rfl⟩ := exists_octets_append (v := v) (by omega)
    rw [List.length_append, length_octets] at hk
    rw [List.append_assoc, ofOctets_octets_append, ofOctets_octets_append, ih (by omega),
      List.cons_append]

theorem ofOctets_flatMap (cs : List Community) : ofOctets (cs.flatMap octets) = cs := by
  induction cs with
  | nil => rfl
  | cons c cs ih => rw [List.flatMap_cons, ofOctets_octets_append, ih]

theorem dvd_length_flatMap (cs : List Community) : 8 ∣ (cs.flatMap octets).length := by
  induction cs with
  | nil => exact Nat.dvd_zero 8
  | cons c cs ih =>
    rw [List.flatMap_cons, List.length_append, length_octets]
    exact (Nat.dvd_add_right (Nat.dvd_refl 8)).2 ih

end Community

namespace Attributes

open Community Attribute

variable {as : Attributes}

/-! ## Replacing an attribute -/

theorem get?_insert_self (as : Attributes) (a : Attribute) : (as.insert a).get? a.code = some a := by
  have hnone : (as.list.filter fun b => b.code != a.code).find? (fun b => b.code == a.code) =
      none := by
    simp
  rw [get?, insert, List.find?_append, hnone]
  simp

theorem get?_insert_of_ne {a : Attribute} {code : UInt8} (h : a.code ≠ code) :
    (as.insert a).get? code = as.get? code := by
  have hkept : (as.list.filter fun b => b.code != a.code).find? (fun b => b.code == code) =
      as.get? code := by
    rw [List.find?_filter, get?]
    congr 1
    funext b
    by_cases hb : b.code = code
    · simp [hb, h.symm]
    · simp [hb]
  rw [get?, insert, List.find?_append, hkept]
  simp [h]

theorem insert_insert {a b : Attribute} (h : a.code = b.code) :
    (as.insert a).insert b = as.insert b := by
  simp [insert, List.filter_append, h]

/-! ## Appending route targets -/

theorem communityOctets_addTargets (as : Attributes) (ts : List RouteTarget) :
    (as.addTargets ts).communityOctets =
      as.communityOctets ++ (ts.map RouteTarget.toCommunity).flatMap octets := by
  rw [List.flatMap_map, communityOctets, addTargets]
  exact congrArg (fun x => (Option.map value x).getD []) (get?_insert_self as (communities _))

theorem addTargets_addTargets (as : Attributes) (ts us : List RouteTarget) :
    (as.addTargets ts).addTargets us = as.addTargets (ts ++ us) := by
  rw [addTargets, communityOctets_addTargets, List.flatMap_map, List.append_assoc,
    ← List.flatMap_append]
  exact insert_insert rfl

/-- Where the communities are whole, the appended route targets follow those that were there. -/
theorem targets_addTargets (h : 8 ∣ as.communityOctets.length) (ts : List RouteTarget) :
    (as.addTargets ts).targets = as.targets ++ ts := by
  rw [targets, communityOctets_addTargets, ofOctets_append h, ofOctets_flatMap,
    List.filterMap_append, RouteTarget.filterMap_toCommunity, targets]

/-- The attributes that can be made by appending route targets and by inserting attributes,
    where inserted communities are whole. -/
inductive Built : Attributes → Prop
  | empty : Built ∅
  | addTargets {as : Attributes} (before : Built as) (ts : List RouteTarget) :
      Built (as.addTargets ts)
  | insert {as : Attributes} (before : Built as) (a : Attribute)
      (whole : a.code = communitiesCode → 8 ∣ a.value.length) : Built (as.insert a)

theorem Built.dvd_length (h : Built as) : 8 ∣ as.communityOctets.length := by
  induction h with
  | empty => exact Nat.dvd_zero 8
  | @addTargets as before ts ih =>
    rw [communityOctets_addTargets, List.length_append]
    exact (Nat.dvd_add_right ih).2 (dvd_length_flatMap _)
  | @insert as before a whole ih =>
    rw [communityOctets]
    by_cases hcode : a.code = communitiesCode
    · rw [← hcode, get?_insert_self]
      exact whole hcode
    · rw [get?_insert_of_ne hcode]
      exact ih

theorem communityOctets_of_get? {a : Attribute} (h : as.get? communitiesCode = some a) :
    as.communityOctets = a.value := by
  rw [communityOctets, h]
  rfl

theorem dvd_length_iff : 8 ∣ as.communityOctets.length ↔
    ∀ a, as.get? communitiesCode = some a → 8 ∣ a.value.length := by
  rw [communityOctets]
  cases as.get? communitiesCode with
  | none => simp
  | some a => simp

/-- Route targets can be appended at once or one list after the other.  The attributes of other
    types stay as they are, and behind them stand all the communities in one attribute, which
    begins with the value of the first that was there.  If that was made of whole communities,
    as in all attributes that are built here, the route targets found are those that were found
    before and then the new ones. -/
theorem appended_targets (as : Attributes) (ts us : List RouteTarget) :
    (as.addTargets ts).addTargets us = as.addTargets (ts ++ us) ∧
      (∃ x, (as.addTargets ts).list = as.list.filter (fun a => a.code != 16) ++ [x] ∧
        x.code = 16 ∧ ∀ a, as.get? 16 = some a → a.value <+: x.value) ∧
      ((∀ a, as.get? 16 = some a → 8 ∣ a.value.length) →
        (as.addTargets ts).targets = as.targets ++ ts) ∧
      (Built as → ∀ a, as.get? 16 = some a → 8 ∣ a.value.length) := by
  refine ⟨addTargets_addTargets as ts us, ⟨_, rfl, rfl, fun a ha => ?_⟩, fun h => ?_, fun h => ?_⟩
  · rw [communities, communityOctets_of_get? ha]
    exact List.prefix_append _ _
  · exact targets_addTargets (dvd_length_iff.2 h) ts
  · exact dvd_length_iff.1 h.dvd_length

/-- A community that is no route target, an attribute of another type, and communities in a
    second attribute. -/
def Sample.mixed : Attributes :=
  ⟨[communities [0, 3, 0, 1, 0, 0, 0, 9], ⟨64, 2, [1]⟩, communities [7]]⟩

/-- A route target is found as often as it is appended, behind communities of another kind. -/
theorem sample_appended_targets :
    (∀ a, Sample.mixed.get? 16 = some a → 8 ∣ a.value.length) ∧
      (Sample.mixed.addTargets [.as2 1 5, .as2 1 5]).targets = [.as2 1 5, .as2 1 5] ∧
      Built (addTargets ∅ [.as2 1 5]) ∧
      ∀ a, (addTargets ∅ [.as2 1 5]).get? 16 = some a → 8 ∣ a.value.length := by
  have hwhole : ∀ a, Sample.mixed.get? 16 = some a → 8 ∣ a.value.length := by
    rintro a ⟨⟩
    decide
  have hbuilt : Built (addTargets ∅ [.as2 1 5]) := .addTargets .empty _
  obtain ⟨-, -, hfound, -⟩ := appended_targets Sample.mixed [.as2 1 5, .as2 1 5] []
  obtain ⟨-, -, -, hlength⟩ := appended_targets (addTargets ∅ [.as2 1 5]) [] []
  exact ⟨hwhole, hfound hwhole, hbuilt, hlength hbuilt⟩

end Attributes

end RouteExchange
