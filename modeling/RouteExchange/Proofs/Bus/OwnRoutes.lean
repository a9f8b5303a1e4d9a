/-
  What a subscriber is told of its own routes.

  Interests, removals and new routes never tell a subscriber of a route of its own.
  A replacement does in one case, `Bus.Outbid`: the subscriber asks for its own
  route, another publishes under the key, and the subscriber does not ask for the
  new route; then the bus takes the old route back from the one that published it.
  `own_route_told_iff` says that there is no other case, and that this one occurs.
-/
import RouteExchange.Proofs.Bus.Mirror
import RouteExchange.Proofs.Bus.Records

namespace RouteExchange.Bus

/-- The route of another takes the place of one of the subscriber, which it asks
    for, while it does not ask for the route of the other. -/
structure Outbid (b : Bus) (s : Subscriber) (own new : Stored) : Prop where
  other : new.source ≠ s.id
  known : b.subscriber? s.id = some s
  stored : b.stored? new.key = some own
  publisher : own.source = s.id
  asked : s.covers own.route = true
  unasked : s.covers new.route = false

/-- A removal tells nobody of an own route. -/
theorem source_ne_of_mem_onRemove {ss : List Subscriber} {gone : Stored} {d : Delivery}
    (hd : d ∈ onRemove ss gone) : d.event.source ≠ d.id := by
  obtain ⟨s, hs, rfl⟩ := List.mem_map.1 hd
  have hne := ((Bool.and_eq_true _ _).mp (List.mem_filter.1 hs).2).1
  exact (bne_iff_ne.1 hne).symm

/-- What an interest adds is of others. -/
theorem source_ne_of_mem_added {b : Bus} {s : Subscriber} {i : Subscription} {r : Stored}
    (hr : r ∈ b.added s i) : r.source ≠ s.id := by
  have h := ((Bool.and_eq_true _ _).mp (List.mem_filter.1 hr).2).1
  exact bne_iff_ne.1 ((Bool.and_eq_true _ _).mp h).1

/-- The deliveries of a command that are about a route of their receiver. -/
theorem step_tells_own_iff {b : Bus} (hb : b.Keyed) (c : Command) (d : Delivery) :
    (d ∈ (b.step c).2 ∧ d.event.source = d.id) ↔ ∃ s own new, c = .advertise new.source new.route ∧
      b.Outbid s own new ∧ d = s.deliver own.withdrawn := by
  constructor
  · rintro ⟨hd, hown⟩
    cases c with
    | advertise source route =>
      obtain ⟨s, hs, hsd⟩ := List.mem_filterMap.1 hd
      obtain ⟨hne, ⟨-, rfl⟩ | ⟨hc, own, hold, hcover, rfl⟩⟩ := onReplace_eq_some_iff.1 hsd
      · exact absurd hown.symm hne
      · exact ⟨s, own, ⟨source, route⟩, rfl, ⟨hne.symm, subscriber?_of_mem hb hs, hold, hown,
          hcover, Bool.eq_false_iff.2 hc⟩, rfl⟩
    | withdraw source route =>
      simp only [Bus.step, withdraw] at hd
      split at hd
      · cases hd
      · split at hd
        · exact absurd hown (source_ne_of_mem_onRemove hd)
        · cases hd
    | subscribe name inbox i =>
      simp only [Bus.step, subscribe] at hd
      split at hd
      · cases hd
      · obtain ⟨r, hr, rfl⟩ := List.mem_map.1 hd
        exact absurd hown (source_ne_of_mem_added hr)
    | unsubscribe name i =>
      simp only [Bus.step, unsubscribe] at hd
      split at hd
      · cases hd
      · next s _ =>
        split at hd
        · obtain ⟨r, hr, rfl⟩ := List.mem_map.1 hd
          exact absurd hown (source_ne_of_mem_added (s := { s with interests := _ }) hr)
        · cases hd
    | cleanup name =>
      obtain ⟨gone, -, hgone⟩ := List.mem_flatMap.1 hd
      exact absurd hown (source_ne_of_mem_onRemove hgone)
  · rintro ⟨s, own, new, rfl, h, rfl⟩
    refine ⟨List.mem_filterMap.2 ⟨s, List.mem_of_find?_eq_some h.known, ?_⟩, h.publisher⟩
    rw [onReplace_eq_some_iff]
    exact ⟨h.other.symm, Or.inr ⟨by simp [h.unasked], own, h.stored, h.asked, rfl⟩⟩

/-- What a run delivers, one of its commands delivers. -/
theorem mem_run_iff (b : Bus) (cs : List Command) (d : Delivery) :
    d ∈ (b.run cs).2 ↔
      ∃ before c after, cs = before ++ c :: after ∧ d ∈ ((b.run before).1.step c).2 := by
  induction cs generalizing b with
  | nil => simp [Bus.run]
  | cons c cs ih =>
    simp only [Bus.run, List.mem_append, ih]
    constructor
    · rintro (hd | ⟨before, e, after, rfl, hd⟩)
      · exact ⟨[], c, cs, rfl, hd⟩
      · exact ⟨c :: before, e, after, rfl, hd⟩
    · rintro ⟨before, e, after, h, hd⟩
      cases before with
      | nil =>
        cases h
        exact Or.inl hd
      | cons a before =>
        cases h
        exact Or.inr ⟨before, e, after, rfl, hd⟩

/-- **When a subscriber is told of its own route.** Among the deliveries of any
    commands, those about a route that their receiver published are the withdrawals of
    a route that another has replaced by one its publisher does not ask for. -/
theorem own_route_told_iff (cs : List Command) (d : Delivery) :
    (d ∈ (Bus.run {} cs).2 ∧ d.event.source = d.id) ↔
      ∃ before after s own new, cs = before ++ .advertise new.source new.route :: after ∧
        (Bus.run {} before).1.Outbid s own new ∧ d = s.deliver own.withdrawn := by
  rw [mem_run_iff]
  constructor
  · rintro ⟨⟨before, c, after, rfl, hd⟩, hown⟩
    obtain ⟨s, own, new, rfl, h⟩ := (step_tells_own_iff (keyed_empty.run before) c d).1 ⟨hd, hown⟩
    exact ⟨before, after, s, own, new, rfl, h⟩
  · rintro ⟨before, after, s, own, new, rfl, h⟩
    obtain ⟨hd, hown⟩ := (step_tells_own_iff (keyed_empty.run before) _ d).2 ⟨s, own, new, rfl, h⟩
    exact ⟨⟨before, _, after, rfl, hd⟩, hown⟩

/-- A subscriber publishes a route it asks for itself, and another publishes one under
    its key without the route target. -/
def Sample.outbid : List Command :=
  [.subscribe "s" (.worker 0 0) ⟨.ipv4MplsVpn, some (.as2 65000 1)⟩,
    .advertise "s" (Route.sample 8 [.as2 65000 1]),
    .advertise "p" (Route.sample 8 [])]

/-- A subscriber may be told of a route that it published. -/
theorem own_route_may_be_told :
    ¬ ∀ (cs : List Command) (d : Delivery), d ∈ (Bus.run {} cs).2 → d.event.source ≠ d.id := by
  intro h
  exact h Sample.outbid ⟨"s", .worker 0 0, ⟨.withdraw, Route.sample 8 [.as2 65000 1], "s"⟩⟩
    (by decide) rfl

end RouteExchange.Bus
