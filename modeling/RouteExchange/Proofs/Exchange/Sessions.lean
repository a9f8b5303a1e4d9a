/-
  What workers read from their inboxes.

  `Exchange.Inv` ties the workers, the bus and what is on its way together: what
  the bus knows of a worker is what some of its first commands leave there
  (`Placed.recorded`), so that every delivery was made for interests that its worker
  asked for in the epoch of the inbox the delivery is for (`Inv.made`).
  `read_in_session` draws the conclusion for the events that a session reads.
-/
import RouteExchange.Proofs.Exchange.Basic
import RouteExchange.Proofs.Sample

namespace RouteExchange.Exchange

open Bus (Command Delivery)

variable {σ : Type} {n : Nat}

/-- The events of the deliveries for an inbox, in order. -/
def eventsFor (inbox : Inbox) (ds : List Delivery) : List Route.Event :=
  (ds.filter fun d => d.inbox = inbox).map Delivery.event

theorem eventsFor_append (inbox : Inbox) (xs ys : List Delivery) :
    eventsFor inbox (xs ++ ys) = eventsFor inbox xs ++ eventsFor inbox ys := by
  simp only [eventsFor, List.filter_append, List.map_append]

theorem eventsFor_cons (inbox : Inbox) (d : Delivery) (ds : List Delivery) :
    eventsFor inbox (d :: ds) =
      (if d.inbox = inbox then [d.event] else []) ++ eventsFor inbox ds := by
  unfold eventsFor
  by_cases h : d.inbox = inbox
  · simp [h]
  · simp [h]

theorem eventsFor_eq_nil {inbox : Inbox} {ds : List Delivery} (h : ∀ d ∈ ds, d.inbox ≠ inbox) :
    eventsFor inbox ds = [] := by
  rw [eventsFor, List.filter_eq_nil_iff.2 fun d hd hi => h d hd (of_decide_eq_true hi)]
  rfl

/-- The deliveries that were made so far, in order. -/
def deliveries (x : Exchange σ n) : List Delivery := x.made.map Made.delivery

/-- The part of the invariant that a worker has in it: some of its first commands
    were carried out and the others are on their way, and the deliveries for its
    present inbox were taken, wait in the inbox, or are on their way. -/
structure Placed (x : Exchange σ n) (name : String) (i : Nat) (r : Runner σ) : Prop where
  sound : r.Sound
  index : r.worker.index = i
  id : r.worker.id = name
  /-- The bus knows of the worker what its first commands left. -/
  recorded : ∃ done,
    r.worker.calls = done ++ (x.channel.filter fun c => c.name = name) ++ r.worker.outbox ∧
      x.bus.subscriber? name = (Bus.run {} done).1.subscriber? name
  flow : ∃ taken, eventsFor r.worker.address x.deliveries =
    taken ++ r.worker.routes ++ eventsFor r.worker.address x.flight

/-- A delivery was made to an inbox of a worker, for interests that the worker
    asked for together with that inbox. -/
def Justified (ids : Fin n → String) (x : Exchange σ n) (m : Made) : Prop :=
  m.interests ≠ [] ∧ ∃ i k, m.delivery.id = ids i ∧ m.delivery.inbox = .worker i k ∧
    ∀ j ∈ m.interests, j.covers m.delivery.event.route = true ∧
      .subscribe (ids i) (.worker i k) j ∈ (x.runners i).worker.calls

/-- The invariant of an exchange whose workers have the names `ids`. -/
structure Inv (ids : Fin n → String) (x : Exchange σ n) : Prop where
  placed : ∀ i, x.Placed (ids i) i (x.runners i)
  keyed : x.bus.Keyed
  channel : ∀ c ∈ x.channel, ∃ i, c.name = ids i
  known : ∀ name s, x.bus.subscriber? name = some s → ∃ i, name = ids i
  made : ∀ m ∈ x.made, Justified ids x m
  flight : ∃ arrived, x.deliveries = arrived ++ x.flight

variable {ids : Fin n → String} {x : Exchange σ n}

theorem inv_start (configs : Fin n → Config) (peers : Fin n → Ip) (engines : Fin n → σ) :
    Inv (fun i => (Worker.new (configs i) (peers i) (engines i) i).id)
      (start configs peers engines) where
  placed _ := ⟨Runner.sound_start _ _ _ _, rfl, rfl, ⟨[], rfl, rfl⟩, ⟨[], rfl⟩⟩
  keyed := Bus.keyed_empty
  channel := List.forall_mem_nil _
  known _ _ hs := by cases hs
  made := List.forall_mem_nil _
  flight := ⟨[], rfl⟩

/-! ## A worker moves -/

theorem Justified.mono {y : Exchange σ n} {m : Made} (h : Justified ids x m)
    (hcalls : ∀ i, ∃ cs, (y.runners i).worker.calls = (x.runners i).worker.calls ++ cs) :
    Justified ids y m := by
  obtain ⟨hne, i, k, hid, hinbox, hasked⟩ := h
  obtain ⟨cs, hcs⟩ := hcalls i
  refine ⟨hne, i, k, hid, hinbox, fun j hj => ⟨(hasked j hj).1, ?_⟩⟩
  rw [hcs]
  exact List.mem_append_left cs (hasked j hj).2

/-- No delivery was made to an inbox that is still to come. -/
theorem Inv.le_of_delivery (h : Inv ids x) {d : Delivery} (hd : d ∈ x.deliveries) {i : Fin n}
    {k : Nat} (hk : d.inbox = .worker i k) : k ≤ (x.runners i).worker.epoch := by
  obtain ⟨m, hm, rfl⟩ := List.mem_map.1 hd
  obtain ⟨hne, i', k', -, hinbox, hasked⟩ := h.made m hm
  rw [hk] at hinbox
  obtain ⟨hi, rfl⟩ : (i : Nat) = i' ∧ k = k' := by simpa using hinbox
  obtain rfl := Fin.ext hi
  obtain ⟨j, hj⟩ := List.exists_mem_of_ne_nil _ hne
  have hcall := (hasked j hj).2
  rw [← (h.placed i).index] at hcall
  exact (h.placed i).sound.epochs.le_of_mem hcall

theorem Placed.advances {name : String} {i : Nat} {r r' : Runner σ} (h : x.Placed name i r)
    (hr : Runner.Advances r r')
    (hnew : ∀ d ∈ x.deliveries, ∀ k, d.inbox = .worker i k → k ≤ r.worker.epoch)
    (hflight : ∀ d ∈ x.flight, d ∈ x.deliveries) : x.Placed name i r' := by
  obtain ⟨cs, hcalls, houtbox⟩ := hr.gives
  obtain ⟨done, hdone, hrecord⟩ := h.recorded
  refine ⟨hr.sound, hr.index.trans h.index, hr.id.trans h.id, ⟨done, ?_, hrecord⟩, ?_⟩
  · rw [hcalls, houtbox, hdone, List.append_assoc]
  · rcases hr.takes with ⟨hepoch, es, hroutes⟩ | ⟨hepoch, hroutes⟩
    · have haddress : r'.worker.address = r.worker.address := by
        rw [Worker.address, Worker.address, hr.index, hepoch]
      obtain ⟨taken, hflow⟩ := h.flow
      refine ⟨taken ++ es, ?_⟩
      rw [haddress, hflow, hroutes]
      simp only [List.append_assoc]
    · -- nothing was made for the new inbox
      have hnone : ∀ d ∈ x.deliveries, d.inbox ≠ r'.worker.address := by
        intro d hd hinbox
        rw [Worker.address, hr.index, h.index, hepoch] at hinbox
        exact absurd (hnew d hd _ hinbox) (Nat.not_succ_le_self _)
      refine ⟨[], ?_⟩
      rw [eventsFor_eq_nil hnone, eventsFor_eq_nil fun d hd => hnone d (hflight d hd), hroutes]
      rfl

theorem Inv.replace (h : Inv ids x) {i : Fin n} {r : Runner σ}
    (hr : Runner.Advances (x.runners i) r) : Inv ids (x.replace i r) := by
  have hgrow (j : Fin n) : ∃ cs,
      ((x.replace i r).runners j).worker.calls = (x.runners j).worker.calls ++ cs := by
    by_cases hj : j = i
    · subst hj
      obtain ⟨cs, hcs, -⟩ := hr.gives
      rw [runners_replace_self]
      exact ⟨cs, hcs⟩
    · rw [runners_replace_of_ne x hj]
      exact ⟨[], (List.append_nil _).symm⟩
  refine ⟨fun j => ?_, h.keyed, h.channel, h.known, fun m hm => (h.made m hm).mono hgrow, h.flight⟩
  have hplaced : x.Placed (ids j) j ((x.replace i r).runners j) := by
    by_cases hj : j = i
    · subst hj
      obtain ⟨arrived, harrived⟩ := h.flight
      have hflight : ∀ d ∈ x.flight, d ∈ x.deliveries := fun d hd =>
        harrived ▸ List.mem_append_right arrived hd
      rw [runners_replace_self]
      exact (h.placed j).advances hr (fun d hd k hk => h.le_of_delivery hd hk) hflight
    · rw [runners_replace_of_ne x hj]
      exact h.placed j
  exact ⟨hplaced.sound, hplaced.index, hplaced.id, hplaced.recorded, hplaced.flow⟩

/-! ## A command is sent -/

theorem Placed.epochs {name : String} {i : Nat} {r : Runner σ} (h : x.Placed name i r) :
    Bus.Epochs name i r.worker.calls r.worker.epoch := by
  rw [← h.id, ← h.index]
  exact h.sound.epochs

theorem Inv.send (h : Inv ids x) (hids : Function.Injective ids) {i : Fin n} {c : Command}
    {cs : List Command} (hout : (x.runners i).worker.outbox = c :: cs) :
    Inv ids { x.replace i ⟨{ (x.runners i).worker with outbox := cs }, (x.runners i).phase⟩ with
      channel := x.channel ++ [c] } := by
  have hname : c.name = ids i := by
    obtain ⟨done, hdone, -⟩ := (h.placed i).recorded
    refine (h.placed i).epochs.name_eq ?_
    rw [hdone, hout]
    exact List.mem_append_right _ List.mem_cons_self
  have hcalls (j : Fin n) : ((x.replace i ⟨{ (x.runners i).worker with outbox := cs },
      (x.runners i).phase⟩).runners j).worker.calls = (x.runners j).worker.calls := by
    by_cases hj : j = i
    · subst hj
      rw [runners_replace_self]
      rfl
    · rw [runners_replace_of_ne x hj]
  refine ⟨fun j => ?_, h.keyed, fun d hd => ?_, h.known, fun m hm => (h.made m hm).mono fun j =>
    ⟨[], by rw [List.append_nil]; exact hcalls j⟩, h.flight⟩
  · obtain ⟨done, hdone, hrecord⟩ := (h.placed j).recorded
    by_cases hj : j = i
    · subst hj
      simp only [runners_replace_self]
      have hr := h.placed j
      refine ⟨hr.sound.with_queues _ cs, hr.index, hr.id, ⟨done, ?_, hrecord⟩, hr.flow⟩
      simp only [List.filter_append, List.filter_cons, hname, decide_true, if_true, List.filter_nil]
      rw [hout] at hdone
      refine Eq.trans (hdone : _) ?_
      simp
    · simp only [runners_replace_of_ne x hj]
      have hr := h.placed j
      refine ⟨hr.sound, hr.index, hr.id, ⟨done, ?_, hrecord⟩, hr.flow⟩
      have hne : c.name ≠ ids j := fun he => hj (hids (he.symm.trans hname))
      simp only [List.filter_append, List.filter_cons, hne, decide_false, List.filter_nil]
      simpa using hdone
  · rcases List.mem_append.1 hd with hd | hd
    · exact h.channel d hd
    · exact ⟨i, List.mem_singleton.1 hd ▸ hname⟩

/-! ## The bus carries out a command -/

/-- What the bus knows of a worker before and after a command that does not clean
    up after it, it was left by commands of one epoch. -/
theorem Placed.around {name : String} {i : Nat} {r : Runner σ} (h : x.Placed name i r)
    {c : Command} {cs : List Command} (hchannel : x.channel = c :: cs) (hc : c ≠ .cleanup name) :
    ∃ before after m, Bus.Epochs name i before m ∧ Bus.Epochs name i after m ∧
      before ⊆ r.worker.calls ∧ after ⊆ r.worker.calls ∧
      x.bus.subscriber? name = (Bus.run {} before).1.subscriber? name ∧
      (x.bus.step c).1.subscriber? name = (Bus.run {} after).1.subscriber? name := by
  obtain ⟨done, hdone, hrecord⟩ := h.recorded
  have hepochs := h.epochs
  rw [hdone, hchannel] at hepochs
  have hsub : done ⊆ r.worker.calls := by
    rw [hdone, List.append_assoc]
    exact List.subset_append_left _ _
  by_cases hname : c.name = name
  · rw [List.filter_cons_of_pos (by simpa using hname), List.append_assoc, List.cons_append,
      ← List.singleton_append, ← List.append_assoc] at hepochs
    obtain ⟨m, hm⟩ := hepochs.of_append
    rcases hm.of_concat with ⟨hbefore, -⟩ | ⟨rfl, -⟩
    · refine ⟨done, done ++ [c], m, hbefore, hm, hsub, ?_, hrecord, ?_⟩
      · rw [hdone, hchannel, List.filter_cons_of_pos (by simpa using hname)]
        intro d hd
        simp only [List.mem_append, List.mem_cons, List.not_mem_nil, or_false] at hd ⊢
        tauto
      · rw [Bus.subscriber?_step_congr hrecord, Bus.run_concat]
    · exact absurd rfl hc
  · rw [List.append_assoc] at hepochs
    obtain ⟨m, hm⟩ := hepochs.of_append
    exact ⟨done, done, m, hm, hm, hsub, hsub, hrecord,
      (Bus.subscriber?_step_of_ne x.bus hname).trans hrecord⟩

/-- A delivery that the bus makes is justified by the interests it is made for. -/
theorem Inv.justified (h : Inv ids x) {c : Command} {cs : List Command}
    (hchannel : x.channel = c :: cs) {d : Delivery} (hd : d ∈ (x.bus.step c).2) :
    Justified ids x ⟨d, x.bus.reasons c d⟩ := by
  obtain ⟨⟨s, hs, hinbox⟩, hreason, hstays⟩ := Bus.step_delivery h.keyed hd
  -- the bus knows only the workers
  obtain ⟨i, hi⟩ : ∃ i, d.id = ids i := by
    by_cases hname : c.name = d.id
    · obtain ⟨i, hi⟩ := h.channel c (hchannel ▸ List.mem_cons_self)
      exact ⟨i, hname.symm.trans hi⟩
    · rw [Bus.subscriber?_step_of_ne x.bus hname, or_self] at hs
      exact h.known d.id s hs
  rw [hi] at hs hstays
  obtain ⟨before, after, m, hbefore, hafter, hsub, hsub', hrecord, hrecord'⟩ :=
    (h.placed i).around hchannel hstays
  refine ⟨hreason, i, m, hi, ?_, fun j hj => ⟨Bus.covers_of_mem_reasons hj, ?_⟩⟩
  · rw [← hinbox]
    rcases hs with hs | hs
    · exact hbefore.inbox (hrecord.symm.trans hs)
    · exact hafter.inbox (hrecord'.symm.trans hs)
  · have hmem := (List.mem_filter.1 hj).1
    simp only [hi] at hmem
    rcases List.mem_append.1 hmem with hmem | hmem
    · rw [Bus.interestsOf_congr hrecord] at hmem
      exact hsub (hbefore.asked hmem)
    · rw [Bus.interestsOf_congr hrecord'] at hmem
      exact hsub' (hafter.asked hmem)

theorem Placed.carryOut {name : String} {i : Nat} {r : Runner σ} (h : x.Placed name i r)
    {c : Command} {cs : List Command} (hchannel : x.channel = c :: cs) :
    ({ x with channel := cs }.carryOut c).Placed name i r := by
  obtain ⟨done, hdone, hrecord⟩ := h.recorded
  refine ⟨h.sound, h.index, h.id, ?_, ?_⟩
  · rw [hchannel] at hdone
    by_cases hname : c.name = name
    · refine ⟨done ++ [c], ?_, ?_⟩
      · rw [hdone, List.filter_cons_of_pos (by simpa using hname)]
        simp [Exchange.carryOut]
      · rw [Bus.run_concat]
        exact Bus.subscriber?_step_congr hrecord c
    · refine ⟨done, ?_, (Bus.subscriber?_step_of_ne x.bus hname).trans hrecord⟩
      rwa [List.filter_cons_of_neg (by simpa using hname)] at hdone
  · obtain ⟨taken, hflow⟩ := h.flow
    refine ⟨taken, ?_⟩
    have hmade : ({ x with channel := cs }.carryOut c).deliveries =
        x.deliveries ++ (x.bus.step c).2 := by
      simp [deliveries, Exchange.carryOut, List.map_append, Function.comp_def]
    rw [hmade, eventsFor_append, hflow]
    simp only [Exchange.carryOut, eventsFor_append, List.append_assoc]

theorem Inv.carryOut (h : Inv ids x) {c : Command} {cs : List Command}
    (hchannel : x.channel = c :: cs) : Inv ids ({ x with channel := cs }.carryOut c) := by
  refine ⟨fun j => (h.placed j).carryOut hchannel, h.keyed.step c, fun d hd => ?_,
    fun name s hs => ?_, fun m hm => ?_, ?_⟩
  · exact h.channel d (hchannel ▸ List.mem_cons_of_mem c hd)
  · by_cases hname : c.name = name
    · rw [← hname]
      exact h.channel c (hchannel ▸ List.mem_cons_self)
    · exact h.known name s ((Bus.subscriber?_step_of_ne x.bus hname).symm.trans hs)
  · rcases List.mem_append.1 hm with hm | hm
    · exact h.made m hm
    · obtain ⟨d, hd, rfl⟩ := List.mem_map.1 hm
      exact h.justified hchannel hd
  · obtain ⟨arrived, harrived⟩ := h.flight
    refine ⟨arrived, ?_⟩
    simp only [deliveries, Exchange.carryOut, List.map_append, List.map_map]
    rw [show x.made.map Made.delivery = arrived ++ x.flight from harrived, List.append_assoc]
    simp [Function.comp_def]

/-! ## A delivery arrives -/

theorem Placed.arrive {name : String} {i : Nat} {r : Runner σ} (h : x.Placed name i r)
    {d : Delivery} {ds : List Delivery} (hflight : x.flight = d :: ds)
    (runners : Fin n → Runner σ) :
    ({ x with flight := ds, runners } : Exchange σ n).Placed name i
      ⟨r.worker.receive d, r.phase⟩ := by
  obtain ⟨taken, hflow⟩ := h.flow
  rw [Worker.receive_eq]
  rw [hflight] at hflow
  by_cases hd : d.inbox = r.worker.address
  · rw [if_pos hd]
    refine ⟨h.sound.with_queues _ _, h.index, h.id, h.recorded, taken, ?_⟩
    have hroutes : (r.worker.enqueue (.route d.event)).routes = r.worker.routes ++ [d.event] := by
      simp [Worker.routes, Worker.enqueue, WorkerEvent.route?]
    rw [hroutes]
    refine Eq.trans hflow ?_
    rw [eventsFor_cons, if_pos hd]
    simp only [List.append_assoc]
    rfl
  · rw [if_neg hd]
    refine ⟨h.sound, h.index, h.id, h.recorded, taken, hflow.trans ?_⟩
    rw [eventsFor_cons, if_neg hd]
    rfl

theorem Inv.arrive (h : Inv ids x) {d : Delivery} {ds : List Delivery}
    (hflight : x.flight = d :: ds) : Inv ids { x with
      flight := ds
      runners := fun i => ⟨(x.runners i).worker.receive d, (x.runners i).phase⟩ } := by
  refine ⟨fun j => (h.placed j).arrive hflight _, h.keyed, h.channel, h.known,
    fun m hm => (h.made m hm).mono fun j => ⟨[], ?_⟩, ?_⟩
  · rw [List.append_nil]
    exact Worker.calls_receive _ d
  · obtain ⟨arrived, harrived⟩ := h.flight
    refine ⟨arrived ++ [d], ?_⟩
    rw [List.append_assoc, List.singleton_append, ← hflight]
    exact harrived

/-! ## Runs -/

theorem Inv.step [Engine σ] (h : Inv ids x) (hids : Function.Injective ids) (m : Move σ n) :
    Inv ids (x.step m) := by
  cases m with
  | work i => exact h.replace (h.placed i).sound.advances_step
  | surround i s => exact h.replace ((h.placed i).sound.advances_within s)
  | send i =>
    simp only [Exchange.step]
    split
    · exact h
    · next c cs hout => exact h.send hids hout
  | act =>
    simp only [Exchange.step]
    split
    · exact h
    · next c cs hchannel => exact h.carryOut hchannel
  | arrive =>
    simp only [Exchange.step]
    split
    · exact h
    · next d ds hflight => exact h.arrive hflight

theorem Inv.run [Engine σ] (h : Inv ids x) (hids : Function.Injective ids) (ms : List (Move σ n)) :
    Inv ids (x.run ms) := by
  induction ms generalizing x with
  | nil => exact h
  | cons m ms ih => exact ih (h.step hids m)

/-! ## What is read -/

/-- The interests that a delivery for the present inbox of a worker was made for were
    asked for in the session the worker is in. -/
theorem Inv.asked (h : Inv ids x) {i : Fin n} {m : Made} (hm : m ∈ x.made)
    (hinbox : m.delivery.inbox = (x.runners i).worker.address) :
    m.delivery.id = (x.runners i).worker.id ∧ m.interests ≠ [] ∧ ∀ j ∈ m.interests,
      j.covers m.delivery.event.route = true ∧ (x.runners i).Asked j := by
  obtain ⟨hne, i', k, hid, hinbox', hasked⟩ := h.made m hm
  have hplaced := h.placed i
  rw [hinbox', Worker.address, hplaced.index] at hinbox
  obtain ⟨hi, rfl⟩ : (i' : Nat) = i ∧ k = (x.runners i).worker.epoch := by simpa using hinbox
  obtain rfl := Fin.ext hi
  refine ⟨hid.trans hplaced.id.symm, hne, fun j hj => ⟨(hasked j hj).1, ?_⟩⟩
  refine hplaced.sound.asked j ?_
  rw [hplaced.id, Worker.address, hplaced.index]
  exact (hasked j hj).2

/-- A route event that waits in an inbox was delivered to this very inbox. -/
theorem Inv.delivered (h : Inv ids x) {i : Fin n} {e : Route.Event}
    (he : e ∈ (x.runners i).worker.routes) :
    ∃ m ∈ x.made, m.delivery.inbox = (x.runners i).worker.address ∧ m.delivery.event = e := by
  obtain ⟨taken, hflow⟩ := (h.placed i).flow
  have hmem : e ∈ eventsFor (x.runners i).worker.address x.deliveries := by
    rw [hflow]
    exact List.mem_append_left _ (List.mem_append_right _ he)
  obtain ⟨d, hd, rfl⟩ := List.mem_map.1 hmem
  obtain ⟨hdel, hin⟩ := List.mem_filter.1 hd
  obtain ⟨m, hm, rfl⟩ := List.mem_map.1 hdel
  exact ⟨m, hm, of_decide_eq_true hin, rfl⟩

theorem covers_iff (j : Subscription) (r : Route) : j.covers r = true ↔
    j.family = r.family ∧ (j.target = none ∨ ∃ t ∈ r.targets, j.target = some t) := by
  unfold Subscription.covers
  cases j.target with
  | none => simp
  | some t => simp

/-- Fresh workers with distinct names began to run, and some moves led here. -/
def Reachable [Engine σ] (x : Exchange σ n) : Prop :=
  ∃ (configs : Fin n → Config) (peers : Fin n → Ip) (engines : Fin n → σ) (ms : List (Move σ n)),
    Function.Injective (fun i => (Worker.new (configs i) (peers i) (engines i) i).id) ∧
      x = (start configs peers engines).run ms

theorem Reachable.inv [Engine σ] (h : x.Reachable) : ∃ ids, Inv ids x := by
  obtain ⟨configs, peers, engines, ms, hids, rfl⟩ := h
  exact ⟨_, (inv_start configs peers engines).run hids ms⟩

/-- **What a session reads.** Fresh workers with distinct names run on one bus, in
    any interleaving and any surroundings.  A route event that one of them takes from
    its inbox is in an active family; where constraints are in force and it is not
    about one, the peer announced in this session a constraint that asks for it; and
    it was delivered, like all that is delivered to the inbox of the session, for
    interests that were asked for in this session. -/
theorem read_in_session [Engine σ] (h : x.Reachable) (i : Fin n) (e : Route.Event)
    (hnext : (x.runners i).worker.nextEvent.1 = some (.route e)) :
    e.route.family ∈ (x.runners i).worker.activeFamilies ∧
    ((x.runners i).worker.rtcActive = true → e.route.family ≠ .ipv4Rtc →
      (x.runners i).worker.Announced none ∨
        ∃ t ∈ e.route.targets, (x.runners i).worker.Announced (some t)) ∧
    (∃ m ∈ x.made, m.delivery =
      ⟨(x.runners i).worker.id, (x.runners i).worker.address, e⟩ ∧ m.interests ≠ []) ∧
    ∀ m ∈ x.made, m.delivery.inbox = (x.runners i).worker.address → ∀ j ∈ m.interests,
      .called (.subscribe (x.runners i).worker.id (x.runners i).worker.address j) ∈
        (x.runners i).worker.session := by
  obtain ⟨ids, hinv⟩ := h.inv
  have hmem : e ∈ (x.runners i).worker.routes := by
    unfold Worker.nextEvent at hnext
    split at hnext
    · cases hnext
    · next f rest hinbox =>
      cases hnext
      rw [Worker.routes, hinbox]
      exact List.mem_cons_self
  obtain ⟨m, hm, hinbox, rfl⟩ := hinv.delivered hmem
  obtain ⟨hid, hne, hasked⟩ := hinv.asked hm hinbox
  obtain ⟨j, hj⟩ := List.exists_mem_of_ne_nil _ hne
  obtain ⟨hcovers, hsession⟩ := hasked j hj
  obtain ⟨hfamily, htarget⟩ := (covers_iff j m.delivery.event.route).1 hcovers
  refine ⟨hfamily ▸ hsession.active, fun hrtc hother => ?_, ⟨m, hm, ?_, hne⟩,
    fun m' hm' hinbox' j' hj' => ((hinv.asked hm' hinbox').2.2 j' hj').2.called⟩
  · have hannounced := hsession.announced hrtc (hfamily ▸ hother)
    rcases htarget with hnone | ⟨t, ht, hsome⟩
    · exact Or.inl (hnone ▸ hannounced)
    · exact Or.inr ⟨t, ht, hsome ▸ hannounced⟩
  · rw [← hid, ← hinbox]

/-! ## Two workers of which one asks for what the other publishes -/

/-- A route target that the first peer asks for. -/
def Sample.target : RouteTarget := .as2 65000 1

/-- A route with the route target, that the second peer sends. -/
def Sample.route : Route := .sample 8 [Sample.target]

/-- The first worker has constraints enabled. -/
def Sample.configs (i : Fin 2) : Config := .sample (i == 0)

def Sample.peers (i : Fin 2) : Ip := .sample (UInt8.ofNat (7 + i))

/-- Each peer sends one UPDATE once its session is established. -/
def Sample.engines (i : Fin 2) : Script :=
  let u : Update := if i = 0 then ⟨[.rtc .announced 65000 (some Sample.target)], ∅⟩
    else ⟨[Sample.route.nlri], Sample.route.attributes⟩
  ({ incoming := [.ok (.update u)] } : Script).negotiate [.ipv4MplsVpn, .ipv4Rtc] 180

/-- The first session is established and handles its UPDATE, then the second one; the
    bus carries out what each asks for, and the route is delivered. -/
def Sample.moves : List (Move Script 2) :=
  [.work 0, .work 0, .work 0, .work 0, .work 0, .send 0, .send 0, .send 0, .act, .act, .act,
    .work 1, .work 1, .work 1, .work 1, .send 1, .send 1, .act, .act, .arrive]

/-- The exchange after that. -/
def Sample.exchange : Exchange Script 2 :=
  (start Sample.configs Sample.peers Sample.engines).run Sample.moves

theorem sample_read_in_session :
    .ipv4MplsVpn ∈ (Sample.exchange.runners 0).worker.activeFamilies ∧
      ((Sample.exchange.runners 0).worker.Announced none ∨
        ∃ t ∈ Sample.route.targets, (Sample.exchange.runners 0).worker.Announced (some t)) := by
  have hids : Function.Injective fun i =>
      (Worker.new (Sample.configs i) (Sample.peers i) (Sample.engines i) i).id := by
    have : ∀ i j : Fin 2, "peer-" ++ (Sample.peers i).text = "peer-" ++ (Sample.peers j).text →
        i = j := by decide +kernel
    exact fun i j h => this i j h
  obtain ⟨hactive, hannounced, -, -⟩ := read_in_session
    ⟨Sample.configs, Sample.peers, Sample.engines, Sample.moves, hids, rfl⟩ 0
    ⟨.advertise, Sample.route, "peer-192.0.2.8"⟩
    (by decide +kernel : (Sample.exchange.runners 0).worker.nextEvent.1 = _)
  exact ⟨hactive, hannounced (by decide +kernel) (by decide)⟩

end RouteExchange.Exchange
