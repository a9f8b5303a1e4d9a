/-
  Many interests, one after another.

  A new interest tells the routes that a name asks for after it and not before, and one
  that is dropped takes back those that the name asks for before and not after.  Over a
  whole batch these make up what the name asks for at one end and not at the other
  (`gained_append_perm`), so that the order in which interests are added or dropped, and
  how often each is, does not matter.
-/
import RouteExchange.Proofs.Bus.Commute

namespace RouteExchange.Bus

/-- Adds interests, one after another. -/
def subscribeAll (b : Bus) (id : String) (inbox : Inbox) (is : List Subscription) :
    Bus × List Delivery := b.run (is.map (.subscribe id inbox))

/-- Drops interests, one after another. -/
def unsubscribeAll (b : Bus) (id : String) (is : List Subscription) : Bus × List Delivery :=
  b.run (is.map (.unsubscribe id))

/-- The buses hold the same routes and the same interests, and lead the events of each
    name to the same inbox. -/
structure Same (b b' : Bus) : Prop where
  table : b'.table = b.table
  inbox : ∀ name, (b'.subscriber? name).map Subscriber.inbox =
    (b.subscriber? name).map Subscriber.inbox
  interests : ∀ name i, i ∈ b'.interestsOf name ↔ i ∈ b.interestsOf name

/-! ## What a name asks for at one end and not at the other -/

/-- The stored routes of others than a name. -/
def foreign (b : Bus) (id : String) : List Stored := b.table.filter fun r => r.source != id

/-- The stored routes of others that a name asks for on `b'` and not on `b`. -/
def gained (id : String) (b b' : Bus) : List Stored :=
  (b.foreign id).filter fun r => b'.wants id r.route && !b.wants id r.route

theorem filter_between_perm {α : Type} (l : List α) {p q r : α → Bool}
    (hpq : ∀ x, p x = true → q x = true) (hqr : ∀ x, q x = true → r x = true) :
    (l.filter (fun x => q x && !p x) ++ l.filter (fun x => r x && !q x)).Perm
      (l.filter fun x => r x && !p x) := by
  have hlow : (l.filter fun x => r x && !p x).filter q = l.filter fun x => q x && !p x := by
    rw [List.filter_filter]
    refine List.filter_congr fun x _ => ?_
    cases hq : q x with
    | true => simp [hqr x hq]
    | false => simp
  have hhigh : (l.filter fun x => r x && !p x).filter (fun x => !q x) =
      l.filter fun x => r x && !q x := by
    rw [List.filter_filter]
    refine List.filter_congr fun x _ => ?_
    cases hp : p x with
    | true => simp [hpq x hp]
    | false => simp [Bool.and_comm]
  rw [← hlow, ← hhigh]
  exact List.filter_append_perm q _

theorem gained_append_perm {id : String} {b b' b'' : Bus} (ht : b'.table = b.table)
    (h : ∀ r, b.wants id r = true → b'.wants id r = true)
    (h' : ∀ r, b'.wants id r = true → b''.wants id r = true) :
    (gained id b b' ++ gained id b' b'').Perm (gained id b b'') := by
  have hforeign : b'.foreign id = b.foreign id := by rw [foreign, ht, foreign]
  rw [gained, gained, hforeign]
  exact filter_between_perm _ (fun s => h s.route) fun s => h' s.route

theorem wants_mono {b b' : Bus} {id : String}
    (h : ∀ i, i ∈ b.interestsOf id → i ∈ b'.interestsOf id) (r : Route)
    (hr : b.wants id r = true) : b'.wants id r = true := by
  obtain ⟨i, hi, hc⟩ := List.any_eq_true.1 hr
  exact List.any_eq_true.2 ⟨i, h i hi, hc⟩

theorem Same.wants {b b' : Bus} (h : Same b b') (id : String) : b'.wants id = b.wants id := by
  funext r
  rw [Bool.eq_iff_iff]
  exact ⟨wants_mono (fun i => (h.interests id i).1) r, wants_mono (fun i => (h.interests id i).2) r⟩

/-! ## One interest -/

section
variable {b : Bus} {id : String} {inbox : Inbox} (i : Subscription)

theorem subscribe_snd : (b.subscribe id inbox i).2 =
    (gained id b (b.subscribe id inbox i).1).map fun r => ⟨id, inbox, r.advertised⟩ := by
  have hgained : gained id b (b.subscribe id inbox i).1 =
      b.added ⟨id, inbox, b.interestsOf id⟩ i := by
    rw [gained, foreign, List.filter_filter, added]
    refine List.filter_congr fun r _ => ?_
    rw [wants_subscribe]
    cases hw : b.wants id r.route <;>
      simp [show Subscriber.covers ⟨id, inbox, b.interestsOf id⟩ r.route = _ from hw, Bool.and_comm]
  rw [hgained]
  unfold subscribe
  simp only
  split
  · next hi =>
    -- what the interest covers is asked for already
    have hnone : b.added ⟨id, inbox, b.interestsOf id⟩ i = [] := by
      rw [added, List.filter_eq_nil_iff]
      intro r _ hr
      simp only [Bool.and_eq_true, Bool.not_eq_true'] at hr
      have hcovers : Subscriber.covers ⟨id, inbox, b.interestsOf id⟩ r.route = true :=
        List.any_eq_true.2 ⟨i, hi, hr.2⟩
      rw [hcovers] at hr
      exact Bool.noConfusion hr.1.2
    rw [hnone]
    rfl
  · rfl

theorem unsubscribe_snd (h : b.Listens id inbox) : (b.unsubscribe id i).2 =
    (gained id (b.unsubscribe id i).1 b).map fun r => ⟨id, inbox, r.withdrawn⟩ := by
  unfold gained foreign
  simp only [wants_unsubscribe, if_true, table_unsubscribe]
  unfold unsubscribe
  cases hs : b.subscriber? id with
  | none => simp [wants_of_none hs]
  | some s =>
    obtain rfl := subscriber?_id hs
    obtain rfl := h s hs
    by_cases hi : i ∈ s.interests
    · simp only [hi, if_true, interestsOf_of_some hs, wants_of_some hs]
      rw [added, List.filter_filter]
      congr 1
      refine List.filter_congr fun r _ => ?_
      have hany := any_eq_or_filter hi fun j => j.covers r.route
      simp only [Subscriber.covers, hany]
      generalize (s.interests.filter fun j => j != i).any (fun j => j.covers r.route) = rest
      cases rest <;> simp [Bool.and_comm]
    · simp only [hi, if_false, interestsOf_of_some hs, wants_of_some hs, filter_ne_of_notMem hi]
      simp [Subscriber.covers]

end

/-! ## Many interests -/

section
variable {b : Bus} {id : String} {inbox : Inbox}

theorem name_of_steers {c : Command} (hc : c.Steers id inbox) : c.name = id := by
  cases c with
  | subscribe name box i => exact hc.1
  | unsubscribe name i => exact hc
  | advertise source route => cases hc
  | withdraw source route => cases hc
  | cleanup name => cases hc

/-- Changes of the interests of a name leave the routes and the records of others as they
    are, and lead its events to the same inbox. -/
theorem run_of_steers {cs : List Command} (hcs : ∀ c ∈ cs, c.Steers id inbox) :
    (b.run cs).1.table = b.table ∧
    (∀ name, name ≠ id → (b.run cs).1.subscriber? name = b.subscriber? name) ∧
    (b.Listens id inbox → (b.run cs).1.Listens id inbox) := by
  induction cs generalizing b with
  | nil => exact ⟨rfl, fun _ _ => rfl, fun h => h⟩
  | cons c cs ih =>
    have hc := hcs c List.mem_cons_self
    obtain ⟨htable, hothers, hlistens⟩ :=
      ih (b := (b.step c).1) fun d hd => hcs d (List.mem_cons_of_mem c hd)
    refine ⟨htable.trans (table_step_of_steers hc), fun name hne => ?_, fun h => ?_⟩
    · have hname : c.name ≠ name := (name_of_steers hc).trans_ne hne.symm
      exact (hothers name hne).trans (subscriber?_step_of_ne b hname)
    · exact hlistens (h.steers hc)

variable (is : List Subscription)

theorem steers_subscribes : ∀ c ∈ is.map (Command.subscribe id inbox), c.Steers id inbox := by
  intro c hc
  obtain ⟨i, -, rfl⟩ := List.mem_map.1 hc
  exact ⟨rfl, rfl⟩

theorem steers_unsubscribes : ∀ c ∈ is.map (Command.unsubscribe id), c.Steers id inbox := by
  intro c hc
  obtain ⟨i, -, rfl⟩ := List.mem_map.1 hc
  exact rfl

theorem mem_interestsOf_subscribeAll (j : Subscription) :
    j ∈ (b.subscribeAll id inbox is).1.interestsOf id ↔ j ∈ b.interestsOf id ∨ j ∈ is := by
  induction is generalizing b with
  | nil => simp [subscribeAll, run]
  | cons i is ih =>
    refine (ih (b := (b.subscribe id inbox i).1)).trans ?_
    rw [interestsOf_subscribe, if_pos rfl, List.mem_insert_iff, List.mem_cons]
    tauto

theorem mem_interestsOf_unsubscribeAll (j : Subscription) :
    j ∈ (b.unsubscribeAll id is).1.interestsOf id ↔ j ∈ b.interestsOf id ∧ j ∉ is := by
  induction is generalizing b with
  | nil => simp [unsubscribeAll, run]
  | cons i is ih =>
    refine (ih (b := (b.unsubscribe id i).1)).trans ?_
    rw [interestsOf_unsubscribe, if_pos rfl, List.mem_filter, bne_iff_ne, List.mem_cons]
    tauto

/-- A batch of new interests tells what is asked for after it and not before. -/
theorem subscribeAll_snd : (b.subscribeAll id inbox is).2.Perm
    ((gained id b (b.subscribeAll id inbox is).1).map fun r => ⟨id, inbox, r.advertised⟩) := by
  induction is generalizing b with
  | nil => simp [subscribeAll, run, gained]
  | cons i is ih =>
    have hfirst : ∀ j, j ∈ b.interestsOf id → j ∈ (b.subscribe id inbox i).1.interestsOf id := by
      intro j hj
      rw [interestsOf_subscribe, if_pos rfl]
      exact List.mem_insert_of_mem hj
    have hrest (j : Subscription) (hj : j ∈ (b.subscribe id inbox i).1.interestsOf id) :
        j ∈ (b.subscribeAll id inbox (i :: is)).1.interestsOf id :=
      (mem_interestsOf_subscribeAll is j).2 (.inl hj)
    have htold := (gained_append_perm (table_subscribe b id inbox i) (wants_mono hfirst)
      (wants_mono hrest)).map fun r => (⟨id, inbox, r.advertised⟩ : Delivery)
    rw [List.map_append, ← subscribe_snd] at htold
    exact (ih.append_left _).trans htold

/-- A batch of dropped interests takes back what is asked for before it and not after. -/
theorem unsubscribeAll_snd (h : b.Listens id inbox) : (b.unsubscribeAll id is).2.Perm
    ((gained id (b.unsubscribeAll id is).1 b).map fun r => ⟨id, inbox, r.withdrawn⟩) := by
  induction is generalizing b with
  | nil => simp [unsubscribeAll, run, gained]
  | cons i is ih =>
    have hlistens : (b.unsubscribe id i).1.Listens id inbox := h.steers (c := .unsubscribe id i) rfl
    have hsteers : ∀ c ∈ is.map (Command.unsubscribe id), c.Steers id inbox :=
      steers_unsubscribes is
    have htable : (b.unsubscribe id i).1.table = (b.unsubscribeAll id (i :: is)).1.table :=
      (run_of_steers hsteers).1.symm
    have hfirst : ∀ j, j ∈ (b.unsubscribe id i).1.interestsOf id → j ∈ b.interestsOf id := by
      intro j hj
      rw [interestsOf_unsubscribe, if_pos rfl] at hj
      exact (List.mem_filter.1 hj).1
    have hrest (j : Subscription) (hj : j ∈ (b.unsubscribeAll id (i :: is)).1.interestsOf id) :
        j ∈ (b.unsubscribe id i).1.interestsOf id :=
      ((mem_interestsOf_unsubscribeAll is j).1 hj).1
    have htold := (gained_append_perm htable (wants_mono hrest) (wants_mono hfirst)).map
      fun r => (⟨id, inbox, r.withdrawn⟩ : Delivery)
    rw [List.map_append, ← unsubscribe_snd i h] at htold
    exact ((ih hlistens).append_left _).trans (List.perm_append_comm.trans htold)

/-- Whatever changes of the interests of a name led to them, buses on which it holds the
    same interests are the same. -/
theorem same_of_steers {cs ds es : List Command} (hb : (Bus.run {} cs).1 = b)
    (hinbox : b.Listens id inbox) (hds : ∀ c ∈ ds, c.Steers id inbox)
    (hes : ∀ c ∈ es, c.Steers id inbox)
    (h : ∀ i, i ∈ (b.run es).1.interestsOf id ↔ i ∈ (b.run ds).1.interestsOf id) :
    Same (b.run ds).1 (b.run es).1 := by
  obtain ⟨htable, hothers, hlistens⟩ := run_of_steers (b := b) hds
  obtain ⟨htable', hothers', hlistens'⟩ := run_of_steers (b := b) hes
  have hsame (name : String) (hne : name ≠ id) :
      (b.run es).1.subscriber? name = (b.run ds).1.subscriber? name :=
    (hothers' name hne).trans (hothers name hne).symm
  -- a record holds an interest, so that the name has both records or none
  have hrecord {fs : List Command} {s : Subscriber} (hs : (b.run fs).1.subscriber? id = some s) :
      ∃ i, i ∈ (b.run fs).1.interestsOf id := by
    have hrun : (b.run fs).1 = (Bus.run {} (cs ++ fs)).1 := by rw [run_append, hb]
    rw [interestsOf_of_some hs]
    rw [hrun] at hs
    exact List.exists_mem_of_ne_nil _ (interests_ne_nil _ _ hs)
  refine ⟨htable'.trans htable.symm, fun name => ?_, fun name i => ?_⟩
  · by_cases hne : name = id
    swap
    · rw [hsame name hne]
    subst hne
    cases hs : (b.run ds).1.subscriber? name with
    | none =>
      cases hs' : (b.run es).1.subscriber? name with
      | none => rfl
      | some s' =>
        obtain ⟨i, hi⟩ := hrecord hs'
        rw [h, interestsOf_of_none hs] at hi
        cases hi
    | some s =>
      cases hs' : (b.run es).1.subscriber? name with
      | none =>
        obtain ⟨i, hi⟩ := hrecord hs
        rw [← h, interestsOf_of_none hs'] at hi
        cases hi
      | some s' =>
        rw [Option.map_some, Option.map_some, hlistens hinbox s hs, hlistens' hinbox s' hs']
  · by_cases hne : name = id
    · exact hne ▸ h i
    · rw [interestsOf_congr (hsame name hne)]

end

/-- What a batch of new interests tells, read off the interests. -/
theorem gained_subscribeAll (b : Bus) (id : String) (inbox : Inbox) (is : List Subscription) :
    gained id b (b.subscribeAll id inbox is).1 =
      (b.foreign id).filter fun r => !b.wants id r.route && is.any fun i => i.covers r.route := by
  refine List.filter_congr fun r _ => ?_
  have hwants : (b.subscribeAll id inbox is).1.wants id r.route =
      (b.wants id r.route || is.any fun i => i.covers r.route) := by
    rw [Bool.eq_iff_iff, wants, wants]
    simp only [List.any_eq_true, Bool.or_eq_true, mem_interestsOf_subscribeAll]
    constructor
    · rintro ⟨i, hi | hi, hc⟩
      · exact .inl ⟨i, hi, hc⟩
      · exact .inr ⟨i, hi, hc⟩
    · rintro (⟨i, hi, hc⟩ | ⟨i, hi, hc⟩)
      · exact ⟨i, .inl hi, hc⟩
      · exact ⟨i, .inr hi, hc⟩
  rw [hwants]
  cases b.wants id r.route <;> simp

/-- What a batch of dropped interests takes back, read off the interests. -/
theorem gained_unsubscribeAll (b : Bus) (id : String) (is : List Subscription) :
    gained id (b.unsubscribeAll id is).1 b =
      (b.foreign id).filter fun r => b.wants id r.route &&
        !(b.interestsOf id).any fun i => decide (i ∉ is) && i.covers r.route := by
  have hsteers : ∀ c ∈ is.map (Command.unsubscribe id), c.Steers id (.listener id) :=
    steers_unsubscribes is
  have hforeign : (b.unsubscribeAll id is).1.foreign id = b.foreign id := by
    rw [foreign, foreign, unsubscribeAll, (run_of_steers hsteers).1]
  rw [gained, hforeign]
  refine List.filter_congr fun r _ => ?_
  have hwants : (b.unsubscribeAll id is).1.wants id r.route =
      (b.interestsOf id).any fun i => decide (i ∉ is) && i.covers r.route := by
    rw [Bool.eq_iff_iff, wants]
    simp only [List.any_eq_true, Bool.and_eq_true, decide_eq_true_eq,
      mem_interestsOf_unsubscribeAll, and_assoc]
  rw [hwants]

/-- **Batches of interests.** On a bus that carried out any commands, take a name whose
    events go to one inbox, and some interests, in any order and with repetitions.  Added
    one after another they tell the name just the stored routes of others that one of them
    covers and none of its earlier interests does, each once; dropped one after another
    they take back just those that its interests covered and the remaining ones do not.
    Nobody else is told anything.  The same interests in another order leave the same bus
    and tell the same.  Where the name held none of them, to add and then to drop them
    restores the bus, and takes back just the routes that were told. -/
theorem batches_exact (cs : List Command) (b : Bus) (hb : (Bus.run {} cs).1 = b) (id : String)
    (inbox : Inbox) (hinbox : b.Listens id inbox) (is js : List Subscription)
    (hjs : ∀ i, i ∈ js ↔ i ∈ is) :
    ((b.foreign id).map Stored.key).Nodup ∧
    (b.subscribeAll id inbox is).2.Perm
      (((b.foreign id).filter fun r => !b.wants id r.route &&
        is.any fun i => i.covers r.route).map fun r => ⟨id, inbox, r.advertised⟩) ∧
    (b.unsubscribeAll id is).2.Perm
      (((b.foreign id).filter fun r => b.wants id r.route &&
        !(b.interestsOf id).any fun i => decide (i ∉ is) && i.covers r.route).map
          fun r => ⟨id, inbox, r.withdrawn⟩) ∧
    (Same (b.subscribeAll id inbox is).1 (b.subscribeAll id inbox js).1 ∧
      (b.subscribeAll id inbox js).2.Perm (b.subscribeAll id inbox is).2) ∧
    (Same (b.unsubscribeAll id is).1 (b.unsubscribeAll id js).1 ∧
      (b.unsubscribeAll id js).2.Perm (b.unsubscribeAll id is).2) ∧
    ((∀ i ∈ is, i ∉ b.interestsOf id) →
      Same b ((b.subscribeAll id inbox is).1.unsubscribeAll id js).1 ∧
      ∃ rs : List Stored,
        (b.subscribeAll id inbox is).2.Perm (rs.map fun r => ⟨id, inbox, r.advertised⟩) ∧
        ((b.subscribeAll id inbox is).1.unsubscribeAll id js).2.Perm
          (rs.map fun r => ⟨id, inbox, r.withdrawn⟩)) := by
  have hadds (ks : List Subscription) :
      ∀ c ∈ ks.map (Command.subscribe id inbox), c.Steers id inbox := steers_subscribes ks
  have hdrops (ks : List Subscription) :
      ∀ c ∈ ks.map (Command.unsubscribe id), c.Steers id inbox := steers_unsubscribes ks
  have hadded : Same (b.subscribeAll id inbox is).1 (b.subscribeAll id inbox js).1 :=
    same_of_steers hb hinbox (hadds is) (hadds js) fun i => by
      rw [← subscribeAll, ← subscribeAll, mem_interestsOf_subscribeAll,
        mem_interestsOf_subscribeAll, hjs]
  have hdropped : Same (b.unsubscribeAll id is).1 (b.unsubscribeAll id js).1 :=
    same_of_steers hb hinbox (hdrops is) (hdrops js) fun i => by
      rw [← unsubscribeAll, ← unsubscribeAll, mem_interestsOf_unsubscribeAll,
        mem_interestsOf_unsubscribeAll, hjs]
  have htold (ks : List Subscription) : (b.subscribeAll id inbox ks).2.Perm
      ((gained id b (b.subscribeAll id inbox ks).1).map fun r => ⟨id, inbox, r.advertised⟩) :=
    subscribeAll_snd ks
  have htaken (ks : List Subscription) := unsubscribeAll_snd ks hinbox
  have hkeyed : b.Keyed := hb ▸ keyed_empty.run cs
  refine ⟨KeyedList.nodup_filter hkeyed.keys _,
    gained_subscribeAll b id inbox is ▸ htold is, gained_unsubscribeAll b id is ▸ htaken is,
    ⟨hadded, ?_⟩, ⟨hdropped, ?_⟩, fun hnew => ?_⟩
  · refine (htold js).trans (.trans ?_ (htold is).symm)
    rw [gained, gained, hadded.wants]
  · refine (htaken js).trans (.trans ?_ (htaken is).symm)
    rw [gained, gained, foreign, foreign, hdropped.wants, hdropped.table]
  · have hlistens : (b.subscribeAll id inbox is).1.Listens id inbox :=
      (run_of_steers (hadds is)).2.2 hinbox
    have hback : (b.run (is.map (.subscribe id inbox) ++ js.map (.unsubscribe id))).1 =
        ((b.subscribeAll id inbox is).1.unsubscribeAll id js).1 := by rw [run_append]; rfl
    have hrestored : Same b ((b.subscribeAll id inbox is).1.unsubscribeAll id js).1 := by
      have hnone : ∀ c ∈ ([] : List Command), c.Steers id inbox := List.forall_mem_nil _
      rw [← hback]
      refine same_of_steers hb hinbox hnone ?_ fun i => ?_
      · exact List.forall_mem_append.2 ⟨hadds is, hdrops js⟩
      · have hi := hnew i
        rw [hback, mem_interestsOf_unsubscribeAll, mem_interestsOf_subscribeAll, hjs, run]
        tauto
    refine ⟨hrestored, gained id b (b.subscribeAll id inbox is).1, htold is, ?_⟩
    refine (unsubscribeAll_snd js hlistens).trans ?_
    rw [gained, gained, foreign, foreign, hrestored.wants, hrestored.table]

/-- A subscriber asks for one route target, and there are routes of two. -/
def Sample.narrow : Bus :=
  (Bus.run {} [.subscribe "s" (.worker 0 0) ⟨.ipv4MplsVpn, some (.as2 65000 1)⟩,
    .advertise "p" (Route.sample 1 [.as2 65000 1]),
    .advertise "p" (Route.sample 2 [.as2 65000 2])]).1

/-- Interests that both cover the second route, one of them twice. -/
def Sample.wider : List Subscription :=
  [⟨.ipv4MplsVpn, some (.as2 65000 2)⟩, ⟨.ipv4MplsVpn, none⟩, ⟨.ipv4MplsVpn, some (.as2 65000 2)⟩]

theorem sample_batches_exact :
    (Sample.narrow.subscribeAll "s" (.worker 0 0) Sample.wider).2 =
      [⟨"s", .worker 0 0, ⟨.advertise, Route.sample 2 [.as2 65000 2], "p"⟩⟩] ∧
    Same Sample.narrow ((Sample.narrow.subscribeAll "s" (.worker 0 0)
      Sample.wider).1.unsubscribeAll "s" Sample.wider.reverse).1 ∧
    (Sample.narrow.unsubscribeAll "s" Sample.wider).2 = [] := by
  have hinbox : Sample.narrow.Listens "s" (.worker 0 0) := by
    intro s hs
    have hrecord : Sample.narrow.subscriber? "s" =
        some ⟨"s", .worker 0 0, [⟨.ipv4MplsVpn, some (.as2 65000 1)⟩]⟩ := by decide
    rw [hrecord] at hs
    cases hs
    rfl
  obtain ⟨-, htold, htaken, -, -, hrestored⟩ := batches_exact _ Sample.narrow rfl "s"
    (.worker 0 0) hinbox Sample.wider Sample.wider.reverse (by simp)
  refine ⟨List.perm_singleton.1 (htold.trans (.of_eq ?_)), (hrestored (by decide)).1,
    List.perm_nil.1 (htaken.trans (.of_eq ?_))⟩
  · decide
  · decide

end RouteExchange.Bus
