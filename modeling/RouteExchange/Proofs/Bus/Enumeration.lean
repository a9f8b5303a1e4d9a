/-
  The order in which a bus goes through its routes and its subscribers.

  A bus is two lists, and nothing says in which order they are to be gone through: before
  each command they may take any (`Bus.Runs`).  What a command leaves is then the same up to
  order again, and so is what it delivers (`Reordered.step`).  A command tells a name at most
  one thing about a key (`length_told_step_le`), so that the events about one key come in the
  same order whatever the orders of the lists were, and these are all that a view depends on.
-/
import Mathlib.Data.List.Perm.Basic
import RouteExchange.Proofs.Bus.View
import RouteExchange.Proofs.Sample

namespace RouteExchange

namespace Bus

/-! ## One command -/

/-- The buses hold the same routes and the same records, perhaps in other orders. -/
structure Reordered (b b' : Bus) : Prop where
  table : b.table.Perm b'.table
  subscribers : b.subscribers.Perm b'.subscribers

namespace Reordered

theorem refl (b : Bus) : Reordered b b := ⟨.refl _, .refl _⟩

variable {b b' b'' : Bus}

theorem symm (h : Reordered b b') : Reordered b' b := ⟨h.table.symm, h.subscribers.symm⟩

theorem trans (h : Reordered b b') (h' : Reordered b' b'') : Reordered b b'' :=
  ⟨h.table.trans h'.table, h.subscribers.trans h'.subscribers⟩

theorem keyed (h : Reordered b b') (hb : b.Keyed) : b'.Keyed :=
  ⟨(h.table.map _).nodup_iff.1 hb.keys, (h.subscribers.map _).nodup_iff.1 hb.names⟩

theorem stored? (h : Reordered b b') (hb : b.Keyed) (k : Nlri.Key) : b.stored? k = b'.stored? k :=
  KeyedList.find?_perm hb.keys h.table k

theorem subscriber? (h : Reordered b b') (hb : b.Keyed) (id : String) :
    b.subscriber? id = b'.subscriber? id :=
  KeyedList.find?_perm hb.names h.subscribers id

theorem without (h : Reordered b b') (k : Nlri.Key) : (b.without k).Perm (b'.without k) :=
  h.table.filter _

theorem others (h : Reordered b b') (id : String) : (b.others id).Perm (b'.others id) :=
  h.subscribers.filter _

theorem added (h : Reordered b b') (s : Subscriber) (i : Subscription) :
    (b.added s i).Perm (b'.added s i) :=
  h.table.filter _

end Reordered

theorem onRemove_perm {ss ss' : List Subscriber} (h : ss.Perm ss') (gone : Stored) :
    (onRemove ss gone).Perm (onRemove ss' gone) :=
  (h.filter _).map _

section
variable {b b' : Bus} (h : Reordered b b') (hb : b.Keyed)
include h hb

theorem reordered_withdraw (source : String) (route : Route) :
    Reordered (b.withdraw source route).1 (b'.withdraw source route).1 ∧
    (b.withdraw source route).2.Perm (b'.withdraw source route).2 := by
  unfold withdraw
  rw [← h.stored? hb]
  cases b.stored? route.key with
  | none => exact ⟨h, .refl _⟩
  | some gone =>
    simp only
    split
    · exact ⟨⟨h.without _, h.subscribers⟩, onRemove_perm h.subscribers gone⟩
    · exact ⟨h, .refl _⟩

theorem reordered_subscribe (id : String) (inbox : Inbox) (i : Subscription) :
    Reordered (b.subscribe id inbox i).1 (b'.subscribe id inbox i).1 ∧
    (b.subscribe id inbox i).2.Perm (b'.subscribe id inbox i).2 := by
  unfold subscribe
  rw [← h.subscriber? hb]
  simp only
  split
  · exact ⟨⟨h.table, (h.others id).cons _⟩, .refl _⟩
  · exact ⟨⟨h.table, (h.others id).cons _⟩, (h.added _ i).map _⟩

theorem reordered_unsubscribe (id : String) (i : Subscription) :
    Reordered (b.unsubscribe id i).1 (b'.unsubscribe id i).1 ∧
    (b.unsubscribe id i).2.Perm (b'.unsubscribe id i).2 := by
  unfold unsubscribe
  rw [← h.subscriber? hb]
  cases b.subscriber? id with
  | none => exact ⟨h, .refl _⟩
  | some s =>
    simp only
    split
    · refine ⟨⟨h.table, ?_⟩, (h.added _ i).map _⟩
      simp only
      split
      · exact h.others id
      · exact (h.others id).cons _
    · exact ⟨h, .refl _⟩

/-- The orders in which the routes and the subscribers are gone through make a difference to
    the order of what is left and of what is delivered, and no other. -/
theorem Reordered.step (c : Command) :
    Reordered (b.step c).1 (b'.step c).1 ∧ (b.step c).2.Perm (b'.step c).2 := by
  cases c with
  | advertise source route =>
    simp only [Bus.step, advertise, ← h.stored? hb]
    exact ⟨⟨(h.without _).cons _, h.subscribers⟩, h.subscribers.filterMap _⟩
  | withdraw source route => exact reordered_withdraw h hb source route
  | subscribe id inbox i => exact reordered_subscribe h hb id inbox i
  | unsubscribe id i => exact reordered_unsubscribe h hb id i
  | cleanup id =>
    refine ⟨⟨h.table.filter _, h.others id⟩, ?_⟩
    exact (h.table.filter _).flatMap fun gone _ => onRemove_perm (h.others id) gone

end

/-! ## What is told about one key -/

/-- The deliveries to a name that are about a key, in order. -/
def mentions (id : String) (k : Nlri.Key) (ds : List Delivery) : List Delivery :=
  (sentTo id ds).filter fun d => d.event.route.key = k

theorem mentions_append (id : String) (k : Nlri.Key) (xs ys : List Delivery) :
    mentions id k (xs ++ ys) = mentions id k xs ++ mentions id k ys := by
  rw [mentions, sentTo_append, List.filter_append]
  rfl

theorem map_mentions (id : String) (k : Nlri.Key) (ds : List Delivery) :
    (mentions id k ds).map Delivery.event = told id k ds := by
  rw [mentions, sentTo, List.filter_filter, told]
  congr 2
  funext d
  rw [Bool.decide_and, Bool.and_comm]

/-- A command tells a name at most one thing about a key. -/
theorem length_told_step_le {b : Bus} (hb : b.Keyed) (c : Command) (id : String) (k : Nlri.Key) :
    (told id k (b.step c).2).length ≤ 1 := by
  have hc := step_change hb id k c
  generalize (b.step c).1.due id k = o', told id k (b.step c).2 = es at hc
  generalize b.due id k = o at hc
  cases hc with
  | kept => exact Nat.zero_le 1
  | told => exact Nat.le_refl 1
  | retracted => exact Nat.le_refl 1
  | taken => exact Nat.zero_le 1
  | forgotten => exact Nat.zero_le 1

theorem length_mentions_step_le {b : Bus} (hb : b.Keyed) (c : Command) (id : String)
    (k : Nlri.Key) : (mentions id k (b.step c).2).length ≤ 1 := by
  rw [← List.length_map (f := Delivery.event), map_mentions]
  exact length_told_step_le hb c id k

/-- The events that a command sends to a name are about distinct keys. -/
theorem nodup_keys_sentTo_step {b : Bus} (hb : b.Keyed) (c : Command) (id : String) :
    ((sentTo id (b.step c).2).map fun d => d.event.route.key).Nodup := by
  rw [List.nodup_iff_count_le_one]
  intro k
  have hle := length_mentions_step_le hb c id k
  rw [mentions, ← List.countP_eq_length_filter] at hle
  rw [List.count, List.countP_map]
  refine Nat.le_trans (Nat.le_of_eq (List.countP_congr fun d _ => ?_)) hle
  simp

theorem eq_of_perm_of_length_le_one {α : Type} {l l' : List α} (h : l.Perm l')
    (hl : l.length ≤ 1) : l = l' := by
  match l with
  | [] => exact h.nil_eq
  | [x] => exact h.singleton_eq

/-- About one key a command sends a name the same in any order. -/
theorem Reordered.mentions_step {b b' : Bus} (h : Reordered b b') (hb : b.Keyed) (c : Command)
    (id : String) (k : Nlri.Key) :
    mentions id k (b.step c).2 = mentions id k (b'.step c).2 :=
  eq_of_perm_of_length_le_one (((h.step hb c).2.filter _).filter _)
    (length_mentions_step_le hb c id k)

/-! ## Views -/

/-- The events that are delivered to a name, in order. -/
def eventsTo (id : String) (ds : List Delivery) : List Route.Event :=
  (sentTo id ds).map Delivery.event

/-- A view depends on the events about each key, and not on how those about different keys
    lie among each other. -/
theorem View.after_congr {es es' : List Route.Event}
    (h : ∀ k, (es.filter fun e => e.route.key = k) = es'.filter fun e => e.route.key = k)
    (v : View) : v.after es = v.after es' := by
  funext k
  rw [after_apply, after_apply, h k]

theorem filter_eventsTo (id : String) (k : Nlri.Key) (ds : List Delivery) :
    (eventsTo id ds).filter (fun e => e.route.key = k) =
      (mentions id k ds).map Delivery.event := by
  rw [eventsTo, List.filter_map]
  rfl

theorem filter_arrivals_eq (id : String) (inbox : Inbox) (k : Nlri.Key) (ds : List Delivery) :
    (arrivals id inbox ds).filter (fun e => e.route.key = k) =
      ((mentions id k ds).filter fun d => d.inbox = inbox).map Delivery.event := by
  rw [arrivals, List.filter_map, List.filter_comm]
  rfl

/-! ## Runs -/

/-- Commands are carried out one after another, and before each of them the routes and the
    records take any order.  This leads from `b` to `b'`, and delivers `ds`. -/
inductive Runs : Bus → List Command → Bus → List Delivery → Prop
  | nil (b : Bus) : Runs b [] b []
  | cons {b b₁ b' : Bus} {c : Command} {cs : List Command} {ds : List Delivery}
    (h : Reordered b b₁) (hrun : Runs (b₁.step c).1 cs b' ds) :
    Runs b (c :: cs) b' ((b₁.step c).2 ++ ds)

/-- To leave the lists as they are is one of the choices. -/
theorem runs_run (b : Bus) (cs : List Command) : Runs b cs (b.run cs).1 (b.run cs).2 := by
  induction cs generalizing b with
  | nil => exact .nil b
  | cons c cs ih => exact .cons (.refl b) (ih _)

theorem Runs.keyed {b b' : Bus} {cs : List Command} {ds : List Delivery}
    (h : Runs b cs b' ds) (hb : b.Keyed) : b'.Keyed := by
  induction h with
  | nil => exact hb
  | cons h _ ih => exact ih ((h.keyed hb).step _)

/-- Two runs of the same commands leave the same, and tell each name the same about each key. -/
theorem Runs.agree {b₁ b₁' : Bus} {cs : List Command} {ds₁ : List Delivery}
    (h₁ : Runs b₁ cs b₁' ds₁) {b₂ b₂' : Bus} {ds₂ : List Delivery} (h₂ : Runs b₂ cs b₂' ds₂)
    (h : Reordered b₁ b₂) (hb : b₁.Keyed) :
    Reordered b₁' b₂' ∧ ∀ id k, mentions id k ds₁ = mentions id k ds₂ := by
  induction h₁ generalizing b₂ ds₂ with
  | nil =>
    cases h₂
    exact ⟨h, fun _ _ => rfl⟩
  | @cons b₁ c₁ _ c _ _ hchosen _ ih =>
    cases h₂ with
    | @cons _ c₂ _ _ _ _ hchosen' hrun' =>
      -- both orders that were chosen are orders of the same lists
      have hc : Reordered c₁ c₂ := hchosen.symm.trans (h.trans hchosen')
      have hkeyed := hchosen.keyed hb
      obtain ⟨hend, hrest⟩ := ih hrun' (hc.step hkeyed c).1 (hkeyed.step c)
      refine ⟨hend, fun id k => ?_⟩
      rw [mentions_append, mentions_append, hrest id k, hc.mentions_step hkeyed c id k]

/-- **The order of the lists is not observed.** Whatever the orders in which the routes and
    the subscribers are gone through, on a bus that carried out any commands each command
    leaves the same routes and the same records, and delivers to each name the same events,
    no two of which are about one key.  After any two runs of the same commands the routes
    and the records are the same, and so is the view of each name, be it from all events that
    were delivered to it or from those that reached one of its inboxes. -/
theorem order_unobservable :
    (∀ (cs : List Command) (b : Bus) (ds : List Delivery), Runs {} cs b ds →
      ∀ b₁ b₂ : Bus, Reordered b b₁ → Reordered b b₂ → ∀ c : Command,
        Reordered (b₁.step c).1 (b₂.step c).1 ∧
        (∀ k, (b₁.step c).1.stored? k = (b₂.step c).1.stored? k) ∧
        (∀ id, (b₁.step c).1.subscriber? id = (b₂.step c).1.subscriber? id) ∧
        ∀ id, (sentTo id (b₁.step c).2).Perm (sentTo id (b₂.step c).2) ∧
          ((sentTo id (b₁.step c).2).map fun d => d.event.route.key).Nodup) ∧
    ∀ (cs : List Command) (b₁ b₂ : Bus) (ds₁ ds₂ : List Delivery),
      Runs {} cs b₁ ds₁ → Runs {} cs b₂ ds₂ →
        Reordered b₁ b₂ ∧ (∀ k, b₁.stored? k = b₂.stored? k) ∧
        (∀ id, b₁.subscriber? id = b₂.subscriber? id) ∧
        ∀ (id : String) (v : View), v.after (eventsTo id ds₁) = v.after (eventsTo id ds₂) ∧
          ∀ inbox, v.after (arrivals id inbox ds₁) = v.after (arrivals id inbox ds₂) := by
  constructor
  · intro cs b ds hrun b₁ b₂ h₁ h₂ c
    have hb := h₁.keyed (hrun.keyed keyed_empty)
    have h : Reordered b₁ b₂ := h₁.symm.trans h₂
    obtain ⟨hbus, htold⟩ := h.step hb c
    refine ⟨hbus, hbus.stored? (hb.step c), hbus.subscriber? (hb.step c), fun id => ?_⟩
    exact ⟨htold.filter _, nodup_keys_sentTo_step hb c id⟩
  · intro cs b₁ b₂ ds₁ ds₂ h₁ h₂
    have hb := h₁.keyed keyed_empty
    obtain ⟨hbus, hsame⟩ := h₁.agree h₂ (.refl _) keyed_empty
    refine ⟨hbus, hbus.stored? hb, hbus.subscriber? hb, fun id v => ⟨?_, fun inbox => ?_⟩⟩
    · refine View.after_congr (fun k => ?_) v
      rw [filter_eventsTo, filter_eventsTo, hsame]
    · refine View.after_congr (fun k => ?_) v
      rw [filter_arrivals_eq, filter_arrivals_eq, hsame]

/-- Two routes are published. -/
def Sample.published : List Command :=
  [.advertise "p" (Route.sample 1 []), .advertise "q" (Route.sample 2 [])]

/-- A name asks for both. -/
def Sample.asking : Command := .subscribe "s" (.worker 0 0) ⟨.ipv4MplsVpn, none⟩

/-- The bus with the two routes, in the order in which it holds them and in the other. -/
theorem sample_order_unobservable :
    (sentTo "s" ((Bus.run {} Sample.published).1.step Sample.asking).2).Perm
      (sentTo "s" (Bus.step { table := (Bus.run {} Sample.published).1.table.reverse }
        Sample.asking).2) ∧
    ∃ (b₁ b₂ : Bus) (ds₁ ds₂ : List Delivery),
      Runs {} (Sample.published ++ [Sample.asking]) b₁ ds₁ ∧
      Runs {} (Sample.published ++ [Sample.asking]) b₂ ds₂ ∧
      (eventsTo "s" ds₁).map Route.Event.source = ["q", "p"] ∧
      (eventsTo "s" ds₂).map Route.Event.source = ["p", "q"] ∧
      View.after (fun _ => none) (eventsTo "s" ds₁) =
        View.after (fun _ => none) (eventsTo "s" ds₂) := by
  have hflipped : Reordered (Bus.run {} Sample.published).1
      { table := (Bus.run {} Sample.published).1.table.reverse } :=
    ⟨(List.reverse_perm _).symm, .refl _⟩
  have hrun := runs_run {} Sample.published
  have h₁ := runs_run {} (Sample.published ++ [Sample.asking])
  have h₂ := Runs.cons (c := .advertise "p" (Route.sample 1 [])) (.refl {})
    (.cons (c := .advertise "q" (Route.sample 2 [])) (.refl _)
      (.cons (c := Sample.asking) hflipped (.nil _)))
  obtain ⟨-, -, -, htold⟩ := order_unobservable.1 _ _ _ hrun _ _ (.refl _) hflipped Sample.asking
  obtain ⟨-, -, -, hview⟩ := order_unobservable.2 _ _ _ _ _ h₁ h₂
  exact ⟨(htold "s").1, _, _, _, _, h₁, h₂, by decide, by decide, (hview "s" fun _ => none).1⟩

end Bus

end RouteExchange
