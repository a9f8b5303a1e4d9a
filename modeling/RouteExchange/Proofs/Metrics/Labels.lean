/-
  Which labels of samples read the same.

  Samples are told apart by their label values written one after the other.  Of the states,
  the types of messages, the stages of a failure, the kinds of routes and the names of
  families none is the end of another (`Samples.suffixFree`), so that a text which ends in
  one of them tells what stands before it.  A family that is written in numbers is an
  exception: its first digits may be those with which the label before it ends
  (`Family.append_text_eq_iff`).
-/
import RouteExchange.Message
import RouteExchange.Metrics
import RouteExchange.Proofs.Text.Numerals

namespace RouteExchange

namespace Samples

theorem identity_cons (label : String) (labels : List String) :
    identity (label :: labels) = label ++ identity labels := String.join_cons

theorem identity_pair (a b : String) : identity [a, b] = a ++ b := by
  rw [identity_cons, identity_cons]
  exact congrArg (a ++ ·) String.append_empty

theorem identity_triple (a b c : String) : identity [a, b, c] = a ++ b ++ c := by
  rw [identity_cons, identity_pair, String.append_assoc]

theorem identity_inj {name : String} {as bs : List String} :
    identity (name :: as) = identity (name :: bs) ↔ identity as = identity bs := by
  rw [identity_cons, identity_cons, String.append_right_inj]

/-! ## Texts of which none is the end of another -/

def suffixFree (ts : List String) : Bool :=
  ts.all fun a => ts.all fun b => a == b || !a.toList.isSuffixOf b.toList

/-- A text that ends in one of them tells which, and what stands before it. -/
theorem append_eq_of_suffixFree {ts : List String} (h : suffixFree ts = true) {a b : String}
    (ha : a ∈ ts) (hb : b ∈ ts) {p q : String} (heq : p ++ a = q ++ b) : p = q ∧ a = b := by
  have hend {a b : String} (ha : a ∈ ts) (hb : b ∈ ts) (hs : a.toList <:+ b.toList) : a = b := by
    have hab := List.all_eq_true.1 (List.all_eq_true.1 h a ha) b hb
    simpa [List.isSuffixOf_iff_suffix.2 hs] using hab
  have hlist : p.toList ++ a.toList = q.toList ++ b.toList := by
    rw [← String.toList_append, heq, String.toList_append]
  have hab : a = b := by
    rcases List.suffix_or_suffix_of_suffix (List.suffix_append p.toList a.toList)
      (hlist ▸ List.suffix_append q.toList b.toList) with hs | hs
    · exact hend ha hb hs
    · exact (hend hb ha hs).symm
  subst hab
  exact ⟨(String.append_left_inj _).1 heq, rfl⟩

end Samples

/-! ## States and kinds -/

namespace SessionState

theorem mem_all (s : SessionState) : s ∈ all := by
  cases s <;> decide

theorem name_injective {s t : SessionState} (h : s.name = t.name) : s = t := by
  have hall : ∀ s ∈ all, ∀ t ∈ all, s.name = t.name → s = t := by decide
  exact hall s s.mem_all t t.mem_all h

/-- The labels of a gauge tell the peer and the state. -/
theorem append_name_eq_iff {p q : String} {s t : SessionState} :
    p ++ s.name = q ++ t.name ↔ p = q ∧ s = t := by
  constructor
  · intro heq
    have hfree : Samples.suffixFree (all.map name) = true := by decide
    obtain ⟨hp, hname⟩ := Samples.append_eq_of_suffixFree hfree (List.mem_map_of_mem s.mem_all)
      (List.mem_map_of_mem t.mem_all) heq
    exact ⟨hp, name_injective hname⟩
  · rintro ⟨rfl, rfl⟩
    rfl

end SessionState

theorem Route.Kind.append_name_eq_iff {p q : String} {k l : Kind} :
    p ++ k.name = q ++ l.name ↔ p = q ∧ k = l := by
  constructor
  · intro heq
    have hfree : Samples.suffixFree [name advertise, name withdraw] = true := by decide
    have hmem (k : Kind) : k.name ∈ [name advertise, name withdraw] := by
      cases k <;> decide
    obtain ⟨hp, hname⟩ := Samples.append_eq_of_suffixFree hfree (hmem k) (hmem l) heq
    refine ⟨hp, ?_⟩
    cases k <;> cases l <;> simp [name] at hname ⊢
  · rintro ⟨rfl, rfl⟩
    rfl

/-! ## Types of messages and stages of failures -/

/-- The texts that stand alone after the name of a worker. -/
def Samples.singles : List String :=
  ["NOP", "OPEN", "UPDATE", "NOTIFICATION", "KEEPALIVE", "ROUTE_REFRESH", "UNKNOWN", "write",
    "encode"]

theorem Header.label_mem_singles (data : Octets) : label data ∈ Samples.singles := by
  unfold label
  cases data[size - 1]? with
  | none => decide
  | some n =>
    cases htype : MessageType.ofCode? n with
    | none => simp [htype, Samples.singles]
    | some type => cases type <;> simp [htype, MessageType.label, Samples.singles]

theorem Message.name_mem_singles (m : Message) : m.name ∈ Samples.singles := by
  cases m <;> simp [name, Samples.singles]

theorem Samples.append_single_eq {a b p q : String} (ha : a ∈ singles) (hb : b ∈ singles)
    (heq : p ++ a = q ++ b) : p = q ∧ a = b :=
  append_eq_of_suffixFree (by decide) ha hb heq

/-! ## Families -/

namespace Family

theorem mem_names_of_name? {f : Family} {t : String} (h : f.name? = some t) : (f, t) ∈ names := by
  obtain ⟨p, hp, rfl⟩ := Option.map_eq_some_iff.1 h
  have hf : p.1 = f := by simpa using List.find?_some hp
  rw [← hf]
  exact List.mem_of_find?_eq_some hp

theorem text_of_name? {f : Family} {t : String} (h : f.name? = some t) : f.text = t := by
  rw [text, h, Option.getD_some]

theorem text_of_unnamed {f : Family} (h : f.name? = none) : f.text = String.ofList f.numeric := by
  rw [text, h, Option.getD_none]

/-- What ends in the name of a family does not end in a family in numbers. -/
theorem append_name_ne_append_numeric {f : Family} {t : String} (hf : (f, t) ∈ names)
    (p q : String) (g : Family) : p ++ t ≠ q ++ String.ofList g.numeric := by
  intro heq
  have hletters : (names.all fun x => x.2.toList.getLast?.any fun c => !c.isDigit) = true := by
    decide
  obtain ⟨c, hc, hletter⟩ := (Option.any_eq_true _ _).1 (List.all_eq_true.1 hletters _ hf)
  have hdigits := Decimal.write_ne_nil g.safi.toNat
  have hlast : c = (Decimal.write g.safi.toNat).getLast hdigits := by
    simpa [numeric, List.getLast?_append, hc, List.getLast?_cons,
      List.getLast?_eq_some_getLast hdigits] using
      congrArg (fun s : String => s.toList.getLast?) heq
  rw [hlast, Decimal.isDigit_of_mem_write (List.getLast_mem hdigits)] at hletter
  cases hletter

/-- A family reads, after one text, as another does after another text: both are written in
    numbers, with the same SAFI, and each text goes on to the same one with the AFI. -/
structure Blurs (p : String) (f : Family) (q : String) (g : Family) : Prop where
  left : f.name? = none
  right : g.name? = none
  safi : f.safi = g.safi
  afi : p ++ Decimal.text f.afi.toNat = q ++ Decimal.text g.afi.toNat

/-- The last slash of a text that ends in a family in numbers is before the SAFI. -/
theorem splitLast?_append_numeric (p : String) (f : Family) :
    Text.splitLast? '/' (p ++ String.ofList f.numeric).toList =
      some ((p ++ Decimal.text f.afi.toNat).toList, Decimal.write f.safi.toNat) := by
  refine Text.splitLast?_eq_some.2 ⟨?_, Decimal.notMem_write (by decide) _⟩
  simp [numeric, Decimal.text]

theorem append_numeric_eq_iff {p q : String} {f g : Family} :
    p ++ String.ofList f.numeric = q ++ String.ofList g.numeric ↔
      p ++ Decimal.text f.afi.toNat = q ++ Decimal.text g.afi.toNat ∧ f.safi = g.safi := by
  constructor
  · intro heq
    have hsplit := congrArg (fun s : String => Text.splitLast? '/' s.toList) heq
    simp only [splitLast?_append_numeric, Option.some.injEq, Prod.mk.injEq] at hsplit
    refine ⟨String.toList_injective hsplit.1, ?_⟩
    have hread := Decimal.read?_write f.safi.toNat_lt
    rw [hsplit.2, Decimal.read?_write g.safi.toNat_lt] at hread
    exact (UInt8.toNat_inj.1 (Option.some.inj hread)).symm
  · rintro ⟨hafi, hsafi⟩
    have htext (f : Family) : String.ofList f.numeric =
        Decimal.text f.afi.toNat ++ ("/" ++ Decimal.text f.safi.toNat) := by
      simp [numeric, Decimal.text]
    rw [htext, htext, hsafi, ← String.append_assoc, hafi, String.append_assoc]

/-- What ends in a family tells the family and what stands before, but for those that blur. -/
theorem append_text_eq_iff {p q : String} {f g : Family} :
    p ++ f.text = q ++ g.text ↔ p = q ∧ f = g ∨ Blurs p f q g := by
  constructor
  · intro heq
    cases hf : f.name? with
    | some t =>
      cases hg : g.name? with
      | some u =>
        left
        have hfree : Samples.suffixFree (names.map Prod.snd) = true := by decide
        rw [text_of_name? hf, text_of_name? hg] at heq
        obtain ⟨rfl, htext⟩ := Samples.append_eq_of_suffixFree hfree
          (List.mem_map_of_mem (mem_names_of_name? hf))
          (List.mem_map_of_mem (mem_names_of_name? hg)) heq
        refine ⟨rfl, text_injective ?_⟩
        rw [text_of_name? hf, text_of_name? hg]
        exact htext
      | none =>
        rw [text_of_name? hf, text_of_unnamed hg] at heq
        exact absurd heq (append_name_ne_append_numeric (mem_names_of_name? hf) p q g)
    | none =>
      cases hg : g.name? with
      | some u =>
        rw [text_of_unnamed hf, text_of_name? hg] at heq
        exact absurd heq.symm (append_name_ne_append_numeric (mem_names_of_name? hg) q p f)
      | none =>
        rw [text_of_unnamed hf, text_of_unnamed hg, append_numeric_eq_iff] at heq
        exact .inr ⟨hf, hg, heq.2, heq.1⟩
  · rintro (⟨rfl, rfl⟩ | h)
    · rfl
    · rw [text_of_unnamed h.left, text_of_unnamed h.right]
      exact append_numeric_eq_iff.2 ⟨h.afi, h.safi⟩

end Family

end RouteExchange
