/-
  A clean-up, and the same done step by step.

  A name goes away at once by a clean-up, or step by step by dropping its interests and
  retracting its routes.  A step of its own before a clean-up makes no difference to
  others: what the step tells them the clean-up does not tell them again
  (`cleanup_unsubscribe`, `cleanup_withdraw`).  After all these steps nothing is left
  for a clean-up to do.
-/
import RouteExchange.Proofs.Bus.Absence
import RouteExchange.Proofs.Bus.Batches

namespace RouteExchange.Bus

/-- The commands drop all interests of a name and retract all its routes, in any order and
    perhaps repeatedly, and do nothing else. -/
structure Teardown (b : Bus) (id : String) (ds : List Command) : Prop where
  own : ∀ d ∈ ds, (∃ i, d = .unsubscribe id i) ∨ ∃ route, d = .withdraw id route
  interests : ∀ i ∈ b.interestsOf id, .unsubscribe id i ∈ ds
  routes : ∀ r ∈ b.table, r.source = id → ∃ route, route.key = r.key ∧ .withdraw id route ∈ ds

/-- Interest by interest and then route by route, each in any order. -/
theorem teardown_of_perm {b : Bus} {id : String} {is : List Subscription} {rs : List Stored}
    (his : is.Perm (b.interestsOf id)) (hrs : rs.Perm (b.table.filter fun r => r.source == id)) :
    b.Teardown id (is.map (.unsubscribe id) ++ rs.map fun r => .withdraw id r.route) := by
  refine ⟨fun d hd => ?_, fun i hi => ?_, fun r hr hsource => ⟨r.route, rfl, ?_⟩⟩
  · rcases List.mem_append.1 hd with hd | hd
    · obtain ⟨i, -, rfl⟩ := List.mem_map.1 hd
      exact .inl ⟨i, rfl⟩
    · obtain ⟨r, -, rfl⟩ := List.mem_map.1 hd
      exact .inr ⟨r.route, rfl⟩
  · exact List.mem_append_left _ (List.mem_map_of_mem (his.mem_iff.2 hi))
  · have hmem : r ∈ rs := hrs.mem_iff.2 (List.mem_filter.2 ⟨hr, beq_iff_eq.2 hsource⟩)
    exact List.mem_append_right _ (List.mem_map.2 ⟨r, hmem, rfl⟩)

/-! ## One step before a clean-up -/

section
variable {b : Bus} {id : String}

theorem cleanup_congr {b' : Bus} (ht : b'.table = b.table) (hs : b'.others id = b.others id) :
    b'.cleanup id = b.cleanup id := by
  simp only [cleanup, ht, hs]

theorem cleanup_unsubscribe (i : Subscription) :
    (b.unsubscribe id i).1.cleanup id = b.cleanup id := by
  refine cleanup_congr (table_unsubscribe b id i) ?_
  have hidem : (b.others id).filter (fun s => s.id != id) = b.others id := by
    rw [others, List.filter_filter]
    simp only [Bool.and_self]
  rw [others, subscribers_unsubscribe]
  cases hs : b.subscriber? id with
  | none => rfl
  | some s =>
    have hid := subscriber?_id hs
    simp only [Option.elim_some]
    split
    · split
      · exact hidem
      · rw [List.filter_cons_of_neg (by simp [hid]), hidem]
    · rfl

/-- What is told of a route that goes away does not concern its source. -/
theorem onRemove_others {gone : Stored} (h : gone.source = id) :
    onRemove (b.others id) gone = onRemove b.subscribers gone := by
  rw [onRemove, onRemove, others, List.filter_filter]
  congr 1
  refine List.filter_congr fun s _ => ?_
  rw [h]
  cases s.id != id <;> simp

/-- The stored routes are the one under a key and those under other keys. -/
theorem perm_without (hb : b.Keyed) {k : Nlri.Key} {gone : Stored} (h : b.stored? k = some gone)
    {p : Stored → Bool} (hp : p gone = true) :
    (gone :: (b.without k).filter p).Perm (b.table.filter p) := by
  have hmem : gone ∈ b.table.filter p := List.mem_filter.2 ⟨List.mem_of_find?_eq_some h, hp⟩
  have hnodup : (b.table.filter p).Nodup := .of_map Stored.key (KeyedList.nodup_filter hb.keys p)
  have herase : (b.table.filter p).erase gone = (b.without k).filter p := by
    rw [hnodup.erase_eq_filter, without, List.filter_comm]
    refine congrArg (List.filter p) (List.filter_congr fun r hr => ?_)
    have hone : r.key = k ↔ r = gone := by
      constructor
      · rintro rfl
        exact Option.some.inj ((KeyedList.find?_of_mem hb.keys hr).symm.trans h)
      · rintro rfl
        exact stored?_key h
    rw [Bool.eq_iff_iff, bne_iff_ne, bne_iff_ne, Ne, Ne, hone]
  exact herase ▸ (List.perm_cons_erase hmem).symm

variable (id) in
theorem cleanup_withdraw (hb : b.Keyed) (route : Route) :
    ((b.withdraw id route).1.cleanup id).1 = (b.cleanup id).1 ∧
    ((b.withdraw id route).2 ++ ((b.withdraw id route).1.cleanup id).2).Perm (b.cleanup id).2 := by
  unfold withdraw
  cases hr : b.stored? route.key with
  | none => exact ⟨rfl, .refl _⟩
  | some gone =>
    by_cases hsource : gone.source = id
    swap
    · simp only [hsource, if_false, List.nil_append]
      exact ⟨trivial, .refl _⟩
    simp only [hsource, if_true]
    constructor
    · -- the route is not one of others
      have htable : (b.without route.key).filter (fun r => r.source != id) =
          b.table.filter fun r => r.source != id := by
        rw [without, List.filter_filter]
        refine List.filter_congr fun r hmem => ?_
        by_cases hk : r.key = route.key
        · have hfound := (KeyedList.find?_of_mem hb.keys hmem).symm.trans (hk ▸ hr)
          simp [Option.some.inj hfound, hsource]
        · simp [hk]
      simp only [cleanup, htable]
      rfl
    · have hperm := perm_without hb hr (p := fun r => r.source == id) (by simp [hsource])
      simp only [cleanup]
      rw [← onRemove_others hsource]
      exact hperm.flatMap_right (onRemove (b.others id))

theorem cleanup_of_absent (h : b.Absent id) : b.cleanup id = (b, []) := by
  have hroutes : b.table.filter (fun r => r.source != id) = b.table := by
    rw [List.filter_eq_self]
    exact fun r hr => bne_iff_ne.2 (h.noRoute r hr)
  have hrecords : b.others id = b.subscribers := by
    rw [others, List.filter_eq_self]
    intro s hs
    have hnone := List.find?_eq_none.1 h.noRecord s hs
    simpa using hnone
  have hown : b.table.filter (fun r => r.source == id) = [] := by
    rw [List.filter_eq_nil_iff]
    intro r hr hsource
    exact h.noRoute r hr (beq_iff_eq.1 hsource)
  simp only [cleanup, hroutes, hrecords, hown]
  rfl

end

/-! ## A whole teardown -/

section
variable {b : Bus} {id : String} {ds : List Command}
  (hown : ∀ d ∈ ds, (∃ i, d = .unsubscribe id i) ∨ ∃ route, d = .withdraw id route)
include hown

/-- A clean-up after any such steps does what is left of a clean-up before them. -/
theorem cleanup_run (hb : b.Keyed) :
    ((b.run ds).1.cleanup id).1 = (b.cleanup id).1 ∧
    ∀ other, other ≠ id →
      (sentTo other (b.run ds).2 ++ sentTo other ((b.run ds).1.cleanup id).2).Perm
        (sentTo other (b.cleanup id).2) := by
  induction ds generalizing b with
  | nil => exact ⟨rfl, fun _ _ => .refl _⟩
  | cons d ds ih =>
    obtain ⟨hbus, htold⟩ := ih (fun e he => hown e (List.mem_cons_of_mem d he)) (hb.step d)
    -- the step, and then a clean-up
    have hstep : ((b.step d).1.cleanup id).1 = (b.cleanup id).1 ∧ ∀ other, other ≠ id →
        (sentTo other (b.step d).2 ++ sentTo other ((b.step d).1.cleanup id).2).Perm
          (sentTo other (b.cleanup id).2) := by
      rcases hown d List.mem_cons_self with ⟨i, rfl⟩ | ⟨route, rfl⟩
      · have hsame : (b.step (.unsubscribe id i)).1.cleanup id = b.cleanup id :=
          cleanup_unsubscribe i
        have hsteers : (Command.unsubscribe id i).Steers id (.listener id) := rfl
        refine ⟨congrArg Prod.fst hsame, fun other hne => ?_⟩
        rw [hsame, sentTo_step_of_steers hsteers hne, List.nil_append]
      · obtain ⟨hfst, hperm⟩ := cleanup_withdraw id hb route
        refine ⟨hfst, fun other _ => ?_⟩
        rw [← sentTo_append]
        exact hperm.filter _
    refine ⟨hbus.trans hstep.1, fun other hne => ?_⟩
    simp only [run, sentTo_append, List.append_assoc]
    exact ((htold other hne).append_left _).trans (hstep.2 other hne)

theorem mem_interestsOf_of_run {i : Subscription} (h : i ∈ (b.run ds).1.interestsOf id) :
    i ∈ b.interestsOf id ∧ .unsubscribe id i ∉ ds := by
  induction ds generalizing b with
  | nil => exact ⟨h, List.not_mem_nil⟩
  | cons d ds ih =>
    obtain ⟨hmem, hnot⟩ := ih (fun e he => hown e (List.mem_cons_of_mem d he)) h
    rcases hown d List.mem_cons_self with ⟨j, rfl⟩ | ⟨route, rfl⟩
    · rw [interestsOf_unsubscribe, if_pos rfl, List.mem_filter, bne_iff_ne] at hmem
      refine ⟨hmem.1, List.not_mem_cons_of_ne_of_not_mem ?_ hnot⟩
      rintro ⟨⟩
      exact hmem.2 rfl
    · rw [interestsOf_withdraw] at hmem
      exact ⟨hmem, List.not_mem_cons_of_ne_of_not_mem (by rintro ⟨⟩) hnot⟩

theorem mem_table_of_run (hb : b.Keyed) {r : Stored} (h : r ∈ (b.run ds).1.table) :
    r ∈ b.table ∧ (r.source = id → ∀ route, route.key = r.key → .withdraw id route ∉ ds) := by
  induction ds generalizing b with
  | nil => exact ⟨h, fun _ _ _ => List.not_mem_nil⟩
  | cons d ds ih =>
    obtain ⟨hmem, hnot⟩ := ih (fun e he => hown e (List.mem_cons_of_mem d he)) (hb.step d) h
    rcases hown d List.mem_cons_self with ⟨i, rfl⟩ | ⟨route, rfl⟩
    · simp only [step, table_unsubscribe] at hmem
      refine ⟨hmem, fun hsource route hk => ?_⟩
      exact List.not_mem_cons_of_ne_of_not_mem (by rintro ⟨⟩) (hnot hsource route hk)
    · simp only [step, table_withdraw] at hmem
      have hkept : r ∈ b.table := by
        split at hmem
        · exact (List.mem_filter.1 hmem).1
        · exact hmem
      refine ⟨hkept, fun hsource route' hk => ?_⟩
      refine List.not_mem_cons_of_ne_of_not_mem ?_ (hnot hsource route' hk)
      intro heq
      cases heq
      -- the route would have been the one under its key, and gone
      have hstored : b.stored? route.key = some r := hk ▸ KeyedList.find?_of_mem hb.keys hkept
      rw [hstored, Option.any_some, if_pos (by simp [hsource])] at hmem
      exact absurd hk.symm (bne_iff_ne.1 (List.mem_filter.1 hmem).2)

end

/-- A teardown leaves nothing of the name. -/
theorem Teardown.absent {cs ds : List Command} {id : String}
    (h : (Bus.run {} cs).1.Teardown id ds) : ((Bus.run {} cs).1.run ds).1.Absent id := by
  refine ⟨fun r hr hsource => ?_, ?_⟩
  · obtain ⟨hmem, hnot⟩ := mem_table_of_run h.own (keyed_empty.run cs) hr
    obtain ⟨route, hk, hwithdrawn⟩ := h.routes r hmem hsource
    exact hnot hsource route hk hwithdrawn
  · cases hs : ((Bus.run {} cs).1.run ds).1.subscriber? id with
    | none => rfl
    | some s =>
      have hrun : ((Bus.run {} cs).1.run ds).1 = (Bus.run {} (cs ++ ds)).1 := by rw [run_append]
      obtain ⟨i, hi⟩ := List.exists_mem_of_ne_nil _ (interests_ne_nil (cs ++ ds) id (hrun ▸ hs))
      obtain ⟨hmem, hnot⟩ := mem_interestsOf_of_run h.own ((interestsOf_of_some hs).symm ▸ hi)
      exact absurd (h.interests i hmem) hnot

/-- **A clean-up is a teardown at once.** On a bus that carried out any commands, take a
    name, and commands in its name that drop all its interests and retract all its routes,
    in any order.  They leave just the bus that a clean-up of the name leaves, and any other
    name is told the same.  A clean-up tells its own name nothing, keeps the routes and the
    records of others as they are, and does nothing when it is repeated. -/
theorem cleanup_eq_teardown (cs : List Command) (id : String) :
    (∀ ds, (Bus.run {} cs).1.Teardown id ds →
      ((Bus.run {} cs).1.run ds).1 = ((Bus.run {} cs).1.cleanup id).1 ∧
      ∀ other, other ≠ id → (sentTo other ((Bus.run {} cs).1.run ds).2).Perm
        (sentTo other ((Bus.run {} cs).1.cleanup id).2)) ∧
    sentTo id ((Bus.run {} cs).1.cleanup id).2 = [] ∧
    (∀ r : Stored, r.source ≠ id →
      (r ∈ ((Bus.run {} cs).1.cleanup id).1.table ↔ r ∈ (Bus.run {} cs).1.table)) ∧
    (∀ other, other ≠ id →
      ((Bus.run {} cs).1.cleanup id).1.subscriber? other = (Bus.run {} cs).1.subscriber? other) ∧
    ((Bus.run {} cs).1.cleanup id).1.cleanup id = (((Bus.run {} cs).1.cleanup id).1, []) := by
  refine ⟨fun ds hds => ?_, ?_, fun r hr => ?_, fun other hne => ?_, ?_⟩
  · have hnothing := cleanup_of_absent hds.absent
    obtain ⟨hbus, htold⟩ := cleanup_run hds.own (keyed_empty.run cs)
    rw [hnothing] at hbus
    refine ⟨hbus, fun other hne => ?_⟩
    have hperm := htold other hne
    rw [hnothing] at hperm
    simpa [sentTo] using hperm
  · refine sentTo_eq_nil id fun d hd => ?_
    obtain ⟨gone, -, hgone⟩ := List.mem_flatMap.1 hd
    obtain ⟨s, hs, rfl⟩ := List.mem_map.1 hgone
    exact bne_iff_ne.1 (List.mem_filter.1 (List.mem_filter.1 hs).1).2
  · exact List.mem_filter.trans (and_iff_left (bne_iff_ne.2 hr))
  · exact (subscriber?_cleanup _ id other).trans (if_neg hne)
  · exact cleanup_of_absent (absent_cleanup _ id)

/-- A name asks for routes and publishes two, which another asks for. -/
def Sample.leaving : List Command :=
  [.subscribe "s" (.worker 0 0) ⟨.ipv4MplsVpn, none⟩,
    .subscribe "s" (.worker 0 0) ⟨.ipv4Rtc, none⟩,
    .subscribe "t" (.worker 1 0) ⟨.ipv4MplsVpn, none⟩,
    .advertise "s" (Route.sample 1 [.as2 65000 1]),
    .advertise "s" (Route.sample 2 [.as2 65000 1]),
    .advertise "t" (Route.sample 3 [.as2 65000 1])]

/-- It goes away step by step. -/
def Sample.steps : List Command :=
  [⟨.ipv4MplsVpn, none⟩, ⟨.ipv4Rtc, none⟩].map (.unsubscribe "s") ++
    [(⟨"s", Route.sample 1 [.as2 65000 1]⟩ : Stored),
      ⟨"s", Route.sample 2 [.as2 65000 1]⟩].map fun r => .withdraw "s" r.route

theorem sample_cleanup_eq_teardown :
    ((Bus.run {} Sample.leaving).1.run Sample.steps).1 =
      ((Bus.run {} Sample.leaving).1.cleanup "s").1 ∧
    (sentTo "t" ((Bus.run {} Sample.leaving).1.run Sample.steps).2).Perm
      [⟨"t", .worker 1 0, ⟨.withdraw, Route.sample 2 [.as2 65000 1], "s"⟩⟩,
        ⟨"t", .worker 1 0, ⟨.withdraw, Route.sample 1 [.as2 65000 1], "s"⟩⟩] := by
  have hteardown : (Bus.run {} Sample.leaving).1.Teardown "s" Sample.steps :=
    teardown_of_perm (by decide) (by decide)
  obtain ⟨hbus, htold⟩ := (cleanup_eq_teardown Sample.leaving "s").1 Sample.steps hteardown
  refine ⟨hbus, (htold "t" (by decide)).trans (.of_eq ?_)⟩
  decide

end RouteExchange.Bus
