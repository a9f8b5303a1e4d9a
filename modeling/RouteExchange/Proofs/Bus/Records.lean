/-
  The records of subscribers, and the interests that deliveries are made for.

  What the bus knows of a subscriber depends on the commands in its name alone:
  `subscriber?_step_congr` and `subscriber?_step_of_ne`.  A delivery goes to the
  inbox of a subscriber that the bus knows before or after the command
  (`step_delivery`), for those of its interests that cover the route
  (`Bus.reasons`).
-/
import RouteExchange.Proofs.Bus.Keyed

namespace RouteExchange

/-- The name in which a command is given. -/
def Bus.Command.name : Bus.Command → String
  | .advertise source _ | .withdraw source _ => source
  | .subscribe id _ _ | .unsubscribe id _ | .cleanup id => id

namespace Bus

/-! ## What a record depends on -/

/-- A command changes no record but that of its name. -/
theorem subscriber?_step_of_ne (b : Bus) {c : Command} {id : String} (h : c.name ≠ id) :
    (b.step c).1.subscriber? id = b.subscriber? id := by
  have h' : id ≠ c.name := h.symm
  cases c with
  | advertise source route => rfl
  | withdraw source route => exact subscriber?_withdraw b source route id
  | subscribe name inbox i => exact (subscriber?_subscribe b name inbox i id).trans (if_neg h')
  | unsubscribe name i => exact (subscriber?_unsubscribe b name i id).trans (if_neg h')
  | cleanup name => exact (subscriber?_cleanup b name id).trans (if_neg h')

/-- Of the bus only the record itself counts. -/
theorem subscriber?_step_congr {b b' : Bus} {id : String} (h : b.subscriber? id = b'.subscriber? id)
    (c : Command) : (b.step c).1.subscriber? id = (b'.step c).1.subscriber? id := by
  by_cases hid : c.name = id
  swap
  · rw [subscriber?_step_of_ne b hid, subscriber?_step_of_ne b' hid, h]
  subst hid
  cases c with
  | advertise source route => exact h
  | withdraw source route =>
    simp only [Bus.step, subscriber?_withdraw]
    exact h
  | subscribe name inbox i =>
    simp only [Command.name] at h ⊢
    simp only [Bus.step, subscriber?_subscribe, interestsOf, h]
  | unsubscribe name i =>
    simp only [Command.name] at h ⊢
    simp only [Bus.step, subscriber?_unsubscribe, h]
  | cleanup name => simp only [Bus.step, subscriber?_cleanup, Command.name, if_true]

theorem interestsOf_congr {b b' : Bus} {id : String} (h : b.subscriber? id = b'.subscriber? id) :
    b.interestsOf id = b'.interestsOf id := by
  rw [interestsOf, interestsOf, h]

/-! ## What a delivery is made for -/

/-- The interests a delivery is made for: those of its subscriber, before or after
    the command, that cover the route. -/
def reasons (b : Bus) (c : Command) (d : Delivery) : List Subscription :=
  (b.interestsOf d.id ++ (b.step c).1.interestsOf d.id).filter fun i => i.covers d.event.route

theorem covers_of_mem_reasons {b : Bus} {c : Command} {d : Delivery} {i : Subscription}
    (h : i ∈ b.reasons c d) : i.covers d.event.route = true := (List.mem_filter.1 h).2

/-- The bus knows the subscriber of a delivery before or after the command, and one
    of the interests it has then covers the route. -/
structure Addressed (b : Bus) (c : Command) (d : Delivery) : Prop where
  known : ∃ s, (b.subscriber? d.id = some s ∨ (b.step c).1.subscriber? d.id = some s) ∧
    s.inbox = d.inbox
  reason : b.reasons c d ≠ []
  stays : c ≠ .cleanup d.id

section
variable {b : Bus} (hb : b.Keyed) {c : Command}
include hb

theorem subscriber?_of_mem {s : Subscriber} (h : s ∈ b.subscribers) :
    b.subscriber? s.id = some s :=
  KeyedList.find?_of_mem hb.names h

/-- A delivery to a subscriber that is known before. -/
theorem Addressed.of_subscriber {s : Subscriber} {e : Route.Event} (hs : s ∈ b.subscribers)
    (hcover : s.covers e.route = true) (hc : c ≠ .cleanup s.id) : b.Addressed c (s.deliver e) := by
  have hknown := subscriber?_of_mem hb hs
  obtain ⟨i, hi, hcovers⟩ := List.any_eq_true.1 hcover
  refine ⟨⟨s, Or.inl hknown, rfl⟩, List.ne_nil_of_mem (a := i) ?_, hc⟩
  refine List.mem_filter.2 ⟨List.mem_append_left _ ?_, hcovers⟩
  exact (interestsOf_of_some hknown).symm ▸ hi

theorem Addressed.of_onRemove {gone : Stored} {d : Delivery} {ss : List Subscriber}
    (hss : ∀ s ∈ ss, s ∈ b.subscribers ∧ c ≠ .cleanup s.id) (hd : d ∈ onRemove ss gone) :
    b.Addressed c d := by
  obtain ⟨s, hs, rfl⟩ := List.mem_map.1 hd
  obtain ⟨hmem, hp⟩ := List.mem_filter.1 hs
  obtain ⟨hsub, hc⟩ := hss s hmem
  exact .of_subscriber hb hsub ((Bool.and_eq_true _ _).mp hp).2 hc

/-- Every delivery of a command goes to a subscriber, for one of its interests. -/
theorem step_delivery {d : Delivery} (hd : d ∈ (b.step c).2) : b.Addressed c d := by
  cases c with
  | advertise source route =>
    obtain ⟨s, hs, hsd⟩ := List.mem_filterMap.1 hd
    obtain ⟨-, ⟨hc, rfl⟩ | ⟨-, o, -, hc, rfl⟩⟩ := onReplace_eq_some_iff.1 hsd
    · exact .of_subscriber hb hs hc (by simp)
    · exact .of_subscriber hb hs hc (by simp)
  | withdraw source route =>
    simp only [Bus.step, withdraw] at hd
    split at hd
    · cases hd
    · split at hd
      · exact .of_onRemove hb (fun s hs => ⟨hs, by simp⟩) hd
      · cases hd
  | subscribe name inbox i =>
    have hknown := subscriber?_subscribe b name inbox i name
    have hmem : i ∈ (b.subscribe name inbox i).1.interestsOf name := by
      rw [interestsOf_subscribe, if_pos rfl]
      exact List.mem_insert_self
    simp only [Bus.step, subscribe] at hd
    split at hd
    · cases hd
    · obtain ⟨r, hr, rfl⟩ := List.mem_map.1 hd
      have hcovers := ((Bool.and_eq_true _ _).mp (List.mem_filter.1 hr).2).2
      refine ⟨⟨_, Or.inr (hknown.trans (if_pos rfl)), rfl⟩, List.ne_nil_of_mem (a := i) ?_, by simp⟩
      exact List.mem_filter.2 ⟨List.mem_append_right _ hmem, hcovers⟩
  | unsubscribe name i =>
    simp only [Bus.step, unsubscribe] at hd
    split at hd
    · cases hd
    · next s hs =>
      obtain rfl := subscriber?_id hs
      split at hd
      · next hi =>
        obtain ⟨r, hr, rfl⟩ := List.mem_map.1 hd
        have hcovers := ((Bool.and_eq_true _ _).mp (List.mem_filter.1 hr).2).2
        refine ⟨⟨s, Or.inl hs, rfl⟩, List.ne_nil_of_mem (a := i) ?_, by simp⟩
        refine List.mem_filter.2 ⟨List.mem_append_left _ ?_, hcovers⟩
        exact (interestsOf_of_some hs).symm ▸ hi
      · cases hd
  | cleanup name =>
    obtain ⟨gone, -, hgone⟩ := List.mem_flatMap.1 hd
    refine .of_onRemove hb (fun s hs => ?_) hgone
    obtain ⟨hmem, hne⟩ := List.mem_filter.1 hs
    refine ⟨hmem, fun h => ?_⟩
    cases h
    simp at hne

end

end Bus

end RouteExchange
