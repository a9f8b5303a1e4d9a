/-
  Messages in a stream.

  The header of a message gives its length, and so where the next one begins.  A stream that
  is taken apart at these places (`Header.split?`) gives back the messages it was made of
  (`Header.split?_flatten`).
-/
import RouteExchange.Message.Header
import RouteExchange.Proofs.Octets

namespace RouteExchange

namespace Header

/-! ## Single messages -/

theorem length_marker : marker.length = 16 := rfl

theorem length_octets (h : Header) : h.octets.length = size := rfl

theorem ofBody?_eq_some_iff {type : MessageType} {n : Nat} {h : Header} :
    ofBody? type n = some h ↔ size + n ≤ 65535 ∧ h = ⟨UInt16.ofNat (size + n), type⟩ := by
  unfold ofBody?
  have hbound : size + n < UInt16.size ↔ size + n ≤ 65535 := by
    simp only [UInt16.size]
    omega
  rw [← hbound]
  split
  · next hn => simp [hn, eq_comm]
  · next hn => simp [hn]

/-- The octets of a header and a body that it was made for. -/
theorem octets_of_ofBody? {type : MessageType} {body : Octets} {h : Header}
    (hh : ofBody? type body.length = some h) : ∃ hi lo,
      h.octets ++ body = marker ++ [hi, lo, type.code] ++ body ∧
      hi.toNat * 256 + lo.toNat = (h.octets ++ body).length := by
  obtain ⟨hle, rfl⟩ := ofBody?_eq_some_iff.1 hh
  obtain ⟨hi, lo, hbe, hvalue⟩ := Octets.be16_eq (UInt16.ofNat (size + body.length))
  refine ⟨hi, lo, ?_, ?_⟩
  · simp only [octets, hbe, List.append_assoc, List.cons_append, List.nil_append]
  · rw [← Octets.toNat_ofBe16, hvalue, UInt16.toNat_ofNat', Nat.mod_eq_of_lt (by omega),
      List.length_append, length_octets]

/-- The octets are one message: a header that gives their number, and a body. -/
def Frames (m : Octets) : Prop :=
  ∃ hi lo code body, m = marker ++ [hi, lo, code] ++ body ∧ hi.toNat * 256 + lo.toNat = m.length

theorem frames_of_ofBody? {type : MessageType} {body : Octets} {h : Header}
    (hh : ofBody? type body.length = some h) : Frames (h.octets ++ body) := by
  obtain ⟨hi, lo, hoctets, hlength⟩ := octets_of_ofBody? hh
  exact ⟨hi, lo, type.code, body, hoctets, hlength⟩

theorem frames_keepalive : Frames keepalive := ⟨0x00, 0x13, 0x04, [], rfl, rfl⟩

/-! ## Streams -/

/-- The length that the header at the front of a stream gives. -/
def length? (bs : Octets) : Option Nat :=
  match bs.drop marker.length with
  | hi :: lo :: _ => some (Octets.ofBe16 hi lo).toNat
  | _ => none

/-- The messages of a stream, each as long as its header says, if nothing is left over. -/
def split? (bs : Octets) : Option (List Octets) :=
  if bs.isEmpty then some []
  else
    match length? bs with
    | none => none
    | some n =>
      if size ≤ n ∧ n ≤ bs.length then (split? (bs.drop n)).map (bs.take n :: ·) else none
termination_by bs.length
decreasing_by
  rename_i hn
  simp only [List.length_drop, size] at hn ⊢
  omega

theorem length?_append {m : Octets} (h : Frames m) (rest : Octets) :
    length? (m ++ rest) = some m.length := by
  obtain ⟨hi, lo, code, body, hm, hlength⟩ := h
  have hdrop : (m ++ rest).drop marker.length = hi :: lo :: (code :: body ++ rest) := by
    rw [hm]
    simp
  rw [length?, hdrop, ← hlength, ← Octets.toNat_ofBe16]

theorem size_le_of_frames {m : Octets} (h : Frames m) : size ≤ m.length := by
  obtain ⟨hi, lo, code, body, rfl, -⟩ := h
  simp [length_marker, size]
  omega

/-- A stream of messages is taken apart into them. -/
theorem split?_flatten {ms : List Octets} (h : ∀ m ∈ ms, Frames m) :
    split? ms.flatten = some ms := by
  induction ms with
  | nil => rw [List.flatten_nil, split?, List.isEmpty_nil, if_pos rfl]
  | cons m ms ih =>
    have hm := h m List.mem_cons_self
    have hsize := size_le_of_frames hm
    have hnonempty : (m ++ ms.flatten).isEmpty = false := by
      cases m with
      | nil => exact absurd hsize (by decide)
      | cons b m => rfl
    rw [List.flatten_cons, split?, hnonempty, if_neg Bool.false_ne_true, length?_append hm]
    simp only
    rw [if_pos ⟨hsize, by simp⟩, List.drop_left, List.take_left,
      ih fun m' hm' => h m' (List.mem_cons_of_mem m hm'), Option.map_some]

end Header

end RouteExchange
