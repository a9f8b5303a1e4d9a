/-
  Which documents are accepted as configurations.

  A document is accepted just if its value `bgp` is read as a valid configuration
  (`parse_eq_ok_iff`).  What this asks of the texts of the families does not depend on how they
  are spelled: each denotes a family, no two the same one, and none that of route target
  constraints.
-/
import RouteExchange.Proofs.Config.Reading

namespace RouteExchange.Config

open Toml

variable {text : String} {root : Entries} {v : Node} {c d : Config} {texts : List String}
  {fs : List Family}

/-- A document is accepted as the valid configurations that its value `bgp` fits. -/
theorem parse_eq_ok_iff : parse text = .ok c ↔ ∃ root v, Toml.parse? text = some root ∧
    root.lookup "bgp" = some v ∧ (∀ f, Fits v c f) ∧ c.validate = .ok () := by
  constructor
  · intro h
    obtain ⟨root, hroot, h⟩ := bind_eq_ok_iff.1 h
    obtain ⟨v, hv, h⟩ := bind_eq_ok_iff.1 h
    obtain ⟨d, hd, h⟩ := bind_eq_ok_iff.1 h
    rw [expect_eq_ok_iff] at hroot hv
    have hfits := (ofNode_eq_ok_iff ((tidy_of_parse? hroot).of_lookup hv)).1 hd
    cases hvalid : d.validate with
    | ok u =>
      rw [hvalid] at h
      cases h
      exact ⟨root, v, hroot, hv, hfits, hvalid⟩
    | error e =>
      rw [hvalid] at h
      cases h
  · rintro ⟨root, v, hroot, hv, hfits, hvalid⟩
    have hread := (ofNode_eq_ok_iff ((tidy_of_parse? hroot).of_lookup hv)).2 hfits
    refine bind_eq_ok_iff.2 ⟨root, expect_eq_ok_iff.2 hroot, ?_⟩
    refine bind_eq_ok_iff.2 ⟨v, expect_eq_ok_iff.2 hv, ?_⟩
    refine bind_eq_ok_iff.2 ⟨c, hread, ?_⟩
    rw [hvalid]

/-! ## The texts of the families -/

theorem eq_of_denotes {s : String} {f g : Family} (hf : Family.Denotes s f)
    (hg : Family.Denotes s g) : f = g := by
  rw [← Family.parse_eq_ok_iff] at hf hg
  rw [hf] at hg
  exact Except.ok.inj hg

theorem exists_forall₂_iff : (∃ fs, List.Forall₂ Family.Denotes texts fs) ↔
    ∀ s ∈ texts, ∃ f, Family.Denotes s f := by
  induction texts with
  | nil => exact iff_of_true ⟨[], .nil⟩ (by simp)
  | cons s texts ih =>
    rw [List.forall_mem_cons, ← ih]
    constructor
    · rintro ⟨_, _ | ⟨hf, hfs⟩⟩
      exact ⟨⟨_, hf⟩, _, hfs⟩
    · rintro ⟨⟨f, hf⟩, fs, hfs⟩
      exact ⟨f :: fs, .cons hf hfs⟩

theorem mem_iff_of_forall₂ (h : List.Forall₂ Family.Denotes texts fs) (f : Family) :
    f ∈ fs ↔ ∃ s ∈ texts, Family.Denotes s f := by
  induction h with
  | nil => simp
  | @cons s g texts fs hg hfs ih =>
    have hself : f = g ↔ Family.Denotes s f :=
      ⟨fun hf => hf ▸ hg, fun hf => eq_of_denotes hf hg⟩
    simp [ih, hself]

/-- Families are distinct if no two of their texts denote the same one. -/
theorem nodup_iff_of_forall₂ (h : List.Forall₂ Family.Denotes texts fs) :
    fs.Nodup ↔ texts.Pairwise fun s t => ∀ f, ¬ (Family.Denotes s f ∧ Family.Denotes t f) := by
  induction h with
  | nil => simp
  | @cons s g texts fs hg hfs ih =>
    rw [List.nodup_cons, List.pairwise_cons, ih, mem_iff_of_forall₂ hfs]
    refine and_congr_left' ⟨fun hnew t ht f hf => ?_, fun hnew hmem => ?_⟩
    · rw [eq_of_denotes hf.1 hg] at hf
      exact hnew ⟨t, ht, hf.2⟩
    · obtain ⟨t, ht, hsame⟩ := hmem
      exact hnew t ht g ⟨hg, hsame⟩

/-! ## Configurations with given texts -/

section
variable (hroot : Toml.parse? text = some root) (hbgp : root.lookup "bgp" = some v)
  (hgiven : field? .families v = some (.array (texts.map .text)))
  (hothers : ∀ f, f ≠ .families → Fits v c f)

include hgiven in
theorem fits_families_iff : Fits v d .families ↔ List.Forall₂ Family.Denotes texts d.families := by
  rw [Fits, hgiven]
  simp [Says, Lists, items?, List.forall₂_map_left_iff]

include hgiven hothers in
/-- All other fields say the same, whatever the families are. -/
theorem fits_with_families (h : List.Forall₂ Family.Denotes texts fs) (f : Field) :
    Fits v { c with families := fs } f := by
  cases f with
  | families => exact (fits_families_iff hgiven).2 h
  | _ => exact hothers _ (by simp)

include hroot hbgp hgiven hothers in
theorem parse_eq_ok_iff_of_given : parse text = .ok d ↔ ∃ fs,
    List.Forall₂ Family.Denotes texts fs ∧ d = { c with families := fs } ∧
      d.validate = .ok () := by
  rw [parse_eq_ok_iff]
  constructor
  · rintro ⟨root', v', hroot', hv', hfits, hvalid⟩
    obtain rfl : root = root' := Option.some.inj (hroot.symm.trans hroot')
    obtain rfl : v = v' := Option.some.inj (hbgp.symm.trans hv')
    have hdenotes := (fits_families_iff hgiven).1 (hfits .families)
    have htidy := (tidy_of_parse? hroot).of_lookup hbgp
    -- what a value fits is what it is read as, and so there is only one such configuration
    have hread := (ofNode_eq_ok_iff htidy).2 (fits_with_families hgiven hothers hdenotes)
    rw [(ofNode_eq_ok_iff htidy).2 hfits] at hread
    exact ⟨_, hdenotes, Except.ok.inj hread, hvalid⟩
  · rintro ⟨fs, hdenotes, rfl, hvalid⟩
    exact ⟨root, v, hroot, hbgp, fits_with_families hgiven hothers hdenotes, hvalid⟩

end

theorem holdTime_iff (n : UInt16) : (n ≠ 1 ∧ n ≠ 2) ↔ n = 0 ∨ 3 ≤ n := by
  simp only [ne_eq, ← UInt16.toNat_inj, UInt16.le_iff_toNat_le, UInt16.reduceToNat]
  omega

theorem validate_with_families_iff : Config.validate { c with families := fs } = .ok () ↔
    (.ipv4Rtc ∉ fs ∧ fs.Nodup) ∧ c.localAs ≠ 0 ∧ (c.holdTime = 0 ∨ 3 ≤ c.holdTime) := by
  rw [validate_eq_ok_iff, ← holdTime_iff]
  grind

/-- Of a document in which the families are given by texts, and the other fields are those of
    `c`: it is accepted if each text denotes a family, none that of route target constraints and
    no two the same one, and the AS number and the hold time are valid, and only then.  The
    families that are offered are then those that the texts denote, in order and once each, and
    route target constraints behind them where they are enabled. -/
theorem given_families_accepted (hroot : Toml.parse? text = some root)
    (hbgp : root.lookup "bgp" = some v)
    (hgiven : field? .families v = some (.array (texts.map .text)))
    (hothers : ∀ f, f ≠ .families → Fits v c f) :
    ((∃ d, parse text = .ok d) ↔
      (∀ s ∈ texts, ∃ f, Family.Denotes s f) ∧
      (∀ s ∈ texts, ¬ Family.Denotes s .ipv4Rtc) ∧
      (texts.Pairwise fun s t => ∀ f, ¬ (Family.Denotes s f ∧ Family.Denotes t f)) ∧
      c.localAs ≠ 0 ∧ (c.holdTime = 0 ∨ 3 ≤ c.holdTime)) ∧
    ∀ d, parse text = .ok d → ∃ fs, List.Forall₂ Family.Denotes texts fs ∧
      d = { c with families := fs } ∧
      d.offered = (fs ++ if c.rtcEnabled then [.ipv4Rtc] else []) ∧ d.offered.Nodup := by
  have hparse (d : Config) := parse_eq_ok_iff_of_given (d := d) hroot hbgp hgiven hothers
  constructor
  · rw [← exists_forall₂_iff]
    constructor
    · rintro ⟨d, hd⟩
      obtain ⟨fs, hdenotes, rfl, hvalid⟩ := (hparse d).1 hd
      obtain ⟨⟨hrtc, hnodup⟩, hrest⟩ := validate_with_families_iff.1 hvalid
      rw [mem_iff_of_forall₂ hdenotes] at hrtc
      exact ⟨⟨fs, hdenotes⟩, fun s hs h => hrtc ⟨s, hs, h⟩,
        (nodup_iff_of_forall₂ hdenotes).1 hnodup, hrest⟩
    · rintro ⟨⟨fs, hdenotes⟩, hrtc, hpairwise, hrest⟩
      refine ⟨_, (hparse _).2 ⟨fs, hdenotes, rfl, validate_with_families_iff.2 ⟨⟨?_, ?_⟩, hrest⟩⟩⟩
      · rw [mem_iff_of_forall₂ hdenotes]
        rintro ⟨s, hs, h⟩
        exact hrtc s hs h
      · exact (nodup_iff_of_forall₂ hdenotes).2 hpairwise
  · intro d hd
    obtain ⟨fs, hdenotes, rfl, hvalid⟩ := (hparse d).1 hd
    exact ⟨fs, hdenotes, rfl, rfl, nodup_offered hvalid⟩

/-! ## A document -/

namespace Sample

def document : String := "[bgp]
local_address = '192.0.2.1'
my_as = 64512
enable_rtc = true
enabled_families = ['L2VPN/Evpn', ' +1/0128']
"

def fields : Entries :=
  [("local_address", .text "192.0.2.1"), ("my_as", .integer 64512), ("enable_rtc", .boolean true),
    ("enabled_families", .array (["L2VPN/Evpn", " +1/0128"].map .text))]

def others : Config := { localAddress := ⟨192, 0, 2, 1⟩, localAs := 64512, rtcEnabled := true }

end Sample

set_option maxRecDepth 4000 in
theorem parse?_document :
    Toml.parse? Sample.document = some [("bgp", .table .header Sample.fields)] := rfl

theorem fits_fields (f : Field) (hf : f ≠ .families) :
    Fits (.table .header Sample.fields) Sample.others f := by
  cases f with
  | localAddress => exact ⟨_, rfl, by decide⟩
  | families => exact absurd rfl hf
  | _ => rfl

theorem denotes_document : List.Forall₂ Family.Denotes ["L2VPN/Evpn", " +1/0128"]
    [.l2vpnEvpn, .ipv4MplsVpn] :=
  .cons (Family.parse_eq_ok_iff.1 (by decide)) (.cons (Family.parse_eq_ok_iff.1 (by decide)) .nil)

/-- A name in mixed case and numbers with a sign and a zero are families of a document. -/
theorem sample_given_families_accepted :
    (∀ f, f ≠ .families → Fits (.table .header Sample.fields) Sample.others f) ∧
      ∃ d, parse Sample.document = .ok d ∧
        d.offered = [.l2vpnEvpn, .ipv4MplsVpn, .ipv4Rtc] := by
  obtain ⟨haccepted, hoffered⟩ := given_families_accepted parse?_document rfl rfl fits_fields
  have hrtc : ∀ s ∈ ["L2VPN/Evpn", " +1/0128"], ¬ Family.Denotes s .ipv4Rtc := fun s hs h =>
    absurd ((mem_iff_of_forall₂ denotes_document _).2 ⟨s, hs, h⟩) (by decide)
  obtain ⟨d, hd⟩ := haccepted.2 ⟨exists_forall₂_iff.1 ⟨_, denotes_document⟩, hrtc,
    (nodup_iff_of_forall₂ denotes_document).1 (by decide), by decide⟩
  obtain ⟨fs, hdenotes, -, hd', -⟩ := hoffered d hd
  have hunique : Relator.RightUnique Family.Denotes := fun _ _ _ => eq_of_denotes
  rw [List.right_unique_forall₂' hunique hdenotes denotes_document] at hd'
  exact ⟨fits_fields, d, hd, hd'⟩

end RouteExchange.Config
