/-
  Which configurations are valid.

  `validate_eq_ok_iff` says what the check accepts, fault by fault.  The families that
  a valid configuration offers are distinct, and that of route target constraints is
  the last of them, if it is offered at all.
-/
import Mathlib.Data.List.Nodup
import RouteExchange.Config

namespace RouteExchange.Config

theorem firstDuplicate?_eq_none_iff (seen fs : List Family) :
    firstDuplicate? seen fs = none ↔ fs.Nodup ∧ ∀ f ∈ fs, f ∉ seen := by
  induction fs generalizing seen with
  | nil => simp [firstDuplicate?]
  | cons f fs ih =>
    rw [firstDuplicate?]
    by_cases hf : f ∈ seen
    · rw [if_pos hf]
      refine iff_of_false (by simp) fun h => ?_
      exact h.2 f List.mem_cons_self hf
    · rw [if_neg hf, ih, List.nodup_cons]
      simp only [List.mem_cons, not_or, forall_eq_or_imp]
      constructor
      · rintro ⟨hnodup, hnew⟩
        exact ⟨⟨fun hmem => (hnew f hmem).1 rfl, hnodup⟩, hf, fun g hg => (hnew g hg).2⟩
      · rintro ⟨⟨hmem, hnodup⟩, -, hnew⟩
        exact ⟨hnodup, fun g hg => ⟨fun h => hmem (h ▸ hg), hnew g hg⟩⟩

theorem any_isRtc_iff (fs : List Family) : fs.any Family.isRtc = true ↔ .ipv4Rtc ∈ fs := by
  simp [Family.isRtc, List.any_eq_true]

theorem validate_eq_ok_iff (c : Config) : c.validate = .ok () ↔
    c.localAs ≠ 0 ∧ c.holdTime ≠ 1 ∧ c.holdTime ≠ 2 ∧ .ipv4Rtc ∉ c.families ∧
      c.families.Nodup := by
  have hdup := firstDuplicate?_eq_none_iff [] c.families
  simp only [List.not_mem_nil, not_false_iff, implies_true, and_true] at hdup
  unfold validate
  split
  · next h => simp [h]
  split
  · next h => rcases h with h | h <;> simp [h]
  split
  · next h => simp [(any_isRtc_iff _).1 h]
  · next has hhold hrtc =>
    rw [any_isRtc_iff] at hrtc
    rw [not_or] at hhold
    cases hd : firstDuplicate? [] c.families with
    | none => simp [has, hhold, hrtc, hdup.1 hd]
    | some f =>
      have hnot : ¬ c.families.Nodup := by simp [← hdup, hd]
      simp [hnot]

section
variable {c : Config} (h : c.validate = .ok ())
include h

theorem ipv4Rtc_notMem_families : .ipv4Rtc ∉ c.families := ((validate_eq_ok_iff c).1 h).2.2.2.1

theorem nodup_families : c.families.Nodup := ((validate_eq_ok_iff c).1 h).2.2.2.2

theorem nodup_offered : c.offered.Nodup := by
  rw [offered]
  split
  · refine List.nodup_append.2 ⟨nodup_families h, List.nodup_singleton _, fun f hf g hg hfg => ?_⟩
    rw [hfg, List.mem_singleton.1 hg] at hf
    exact ipv4Rtc_notMem_families h hf
  · rw [List.append_nil]
    exact nodup_families h

end

end RouteExchange.Config
