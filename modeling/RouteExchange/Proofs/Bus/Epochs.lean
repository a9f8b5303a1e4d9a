/-
  The commands of one worker, and the record they leave on the bus.

  A worker names the inbox of its present epoch in all it asks for, and every
  clean-up begins a new epoch (`Bus.Epochs`).  So the record that the bus has of it
  after any of its commands leads to the inbox of one epoch, and holds only
  interests that were asked for in that epoch (`Epochs.inbox`, `Epochs.asked`).
-/
import Mathlib.Data.List.Induction
import RouteExchange.Proofs.Bus.Records

namespace RouteExchange.Bus

/-- A command in this name, other than a clean-up, whose events go to this inbox. -/
def Command.From (id : String) (inbox : Inbox) : Command → Prop
  | .advertise source _ | .withdraw source _ => source = id
  | .subscribe name addr _ => name = id ∧ addr = inbox
  | .unsubscribe name _ => name = id
  | .cleanup _ => False

/-- Commands of a worker, and the number of its inbox after them. -/
inductive Epochs (id : String) (index : Nat) : List Command → Nat → Prop
  | nil : Epochs id index [] 0
  | gives {cs : List Command} {k : Nat} {c : Command} (h : Epochs id index cs k)
    (hc : c.From id (.worker index k)) : Epochs id index (cs ++ [c]) k
  | cleans {cs : List Command} {k : Nat} (h : Epochs id index cs k) :
    Epochs id index (cs ++ [.cleanup id]) (k + 1)

theorem Command.From.name_eq {id : String} {inbox : Inbox} {c : Command} (h : c.From id inbox) :
    c.name = id := by
  cases c with
  | advertise => exact h
  | withdraw => exact h
  | subscribe => exact h.1
  | unsubscribe => exact h
  | cleanup => exact h.elim

namespace Epochs

variable {id : String} {index k : Nat} {cs ds : List Command}

theorem append (h : Epochs id index cs k) (hds : ∀ c ∈ ds, c.From id (.worker index k)) :
    Epochs id index (cs ++ ds) k := by
  induction ds generalizing cs with
  | nil => rwa [List.append_nil]
  | cons d ds ih =>
    rw [← List.singleton_append, ← List.append_assoc]
    exact ih (h.gives (hds d List.mem_cons_self)) fun c hc => hds c (List.mem_cons_of_mem d hc)

/-- The last command is given in the present epoch, or is the clean-up that began it. -/
theorem of_concat {c : Command} (h : Epochs id index (cs ++ [c]) k) :
    (Epochs id index cs k ∧ c.From id (.worker index k)) ∨
      c = .cleanup id ∧ ∃ m, Epochs id index cs m := by
  generalize hl : cs ++ [c] = l at h
  cases h with
  | nil => simp at hl
  | gives h hc =>
    obtain ⟨rfl, rfl⟩ := List.concat_inj.1 (by simpa using hl)
    exact Or.inl ⟨h, hc⟩
  | cleans h =>
    obtain ⟨rfl, rfl⟩ := List.concat_inj.1 (by simpa using hl)
    exact Or.inr ⟨rfl, _, h⟩

/-- What was given before also ends in some epoch. -/
theorem of_append (h : Epochs id index (cs ++ ds) k) : ∃ m, Epochs id index cs m := by
  induction ds using List.reverseRecOn generalizing k with
  | nil => exact ⟨k, by rwa [List.append_nil] at h⟩
  | append_singleton ds d ih =>
    rw [← List.append_assoc] at h
    rcases h.of_concat with ⟨h, -⟩ | ⟨-, m, h⟩
    · exact ih h
    · exact ih h

theorem name_eq (h : Epochs id index cs k) {c : Command} (hc : c ∈ cs) : c.name = id := by
  induction h with
  | nil => cases hc
  | gives _ hfrom ih =>
    rcases List.mem_append.1 hc with hc | hc
    · exact ih hc
    · exact List.mem_singleton.1 hc ▸ hfrom.name_eq
  | cleans _ ih =>
    rcases List.mem_append.1 hc with hc | hc
    · exact ih hc
    · rw [List.mem_singleton.1 hc]
      rfl

/-- No inbox was named that is still to come. -/
theorem le_of_mem (h : Epochs id index cs k) {name : String} {m : Nat} {i : Subscription}
    (hc : .subscribe name (.worker index m) i ∈ cs) : m ≤ k := by
  induction h with
  | nil => cases hc
  | gives _ hfrom ih =>
    rcases List.mem_append.1 hc with hc | hc
    · exact ih hc
    · rw [← List.mem_singleton.1 hc] at hfrom
      obtain ⟨-, heq⟩ := hfrom
      cases heq
      exact Nat.le_refl m
  | cleans _ ih =>
    rcases List.mem_append.1 hc with hc | hc
    · exact Nat.le_succ_of_le (ih hc)
    · simp at hc

/-- The interests on record were all asked for in the present epoch. -/
theorem asked (h : Epochs id index cs k) {i : Subscription}
    (hi : i ∈ (Bus.run {} cs).1.interestsOf id) : .subscribe id (.worker index k) i ∈ cs := by
  induction h with
  | nil => cases hi
  | @gives cs k c _ hfrom ih =>
    rw [run_concat] at hi
    refine List.mem_append.2 ?_
    cases c with
    | advertise source route => exact Or.inl (ih hi)
    | withdraw source route =>
      simp only [Bus.step, interestsOf_withdraw] at hi
      exact Or.inl (ih hi)
    | subscribe name inbox j =>
      obtain ⟨rfl, rfl⟩ := hfrom
      simp only [Bus.step, interestsOf_subscribe, if_true] at hi
      rcases List.mem_insert_iff.1 hi with rfl | hi
      · exact Or.inr List.mem_cons_self
      · exact Or.inl (ih hi)
    | unsubscribe name j =>
      obtain rfl : name = id := hfrom
      simp only [Bus.step, interestsOf_unsubscribe, if_true] at hi
      exact Or.inl (ih (List.mem_filter.1 hi).1)
    | cleanup name => exact hfrom.elim
  | cleans h ih =>
    rw [run_concat] at hi
    simp only [Bus.step, interestsOf_cleanup, if_true] at hi
    cases hi

/-- The record leads to the inbox of the present epoch. -/
theorem inbox (h : Epochs id index cs k) {s : Subscriber}
    (hs : (Bus.run {} cs).1.subscriber? id = some s) : s.inbox = .worker index k := by
  induction h generalizing s with
  | nil => cases hs
  | @gives cs k c _ hfrom ih =>
    rw [run_concat] at hs
    cases c with
    | advertise source route => exact ih hs
    | withdraw source route => exact ih ((subscriber?_withdraw _ _ _ _).symm.trans hs)
    | subscribe name inbox j =>
      obtain ⟨rfl, rfl⟩ := hfrom
      simp only [Bus.step, subscriber?_subscribe, if_true, Option.some.injEq] at hs
      rw [← hs]
    | unsubscribe name j =>
      obtain rfl : name = id := hfrom
      simp only [Bus.step, subscriber?_unsubscribe, if_true] at hs
      obtain ⟨s₀, hs₀, hs⟩ := Option.bind_eq_some_iff.1 hs
      have hinbox := ih hs₀
      split at hs
      · split at hs
        · cases hs
        · cases hs
          exact hinbox
      · cases hs
        exact hinbox
    | cleanup name => exact hfrom.elim
  | cleans h ih =>
    rw [run_concat] at hs
    simp only [Bus.step, subscriber?_cleanup, if_true] at hs
    cases hs

end Epochs

end RouteExchange.Bus
