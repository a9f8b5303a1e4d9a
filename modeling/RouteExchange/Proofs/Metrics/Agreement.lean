/-
  The metrics of a worker agree with what it did.

  A registry that was begun before the worker shows the state of the worker and the numbers
  of its effects, whatever other workers record (`Worker.metrics_agree`).  Only a sample of
  routes whose family is written in numbers may be ticked by a worker with another name.
-/
import RouteExchange.Proofs.Engine.Encoding
import RouteExchange.Proofs.Worker.Accounts

namespace RouteExchange

/-! ## Which effects tick which sample -/

theorem Samples.identity_singleton_beq (a b : String) :
    (identity [a] == identity [b]) = (a == b) := by
  rw [Bool.eq_iff_iff, beq_iff_eq, beq_iff_eq, identity_cons, identity_cons, String.append_left_inj]

/-- The text of a family and a kind tells both. -/
theorem Samples.identity_kind_beq (f g : Family) (k l : Route.Kind) :
    (identity [f.text, k.name] == identity [g.text, l.name]) = (f == g && k == l) := by
  rw [Bool.eq_iff_iff, beq_iff_eq, Bool.and_eq_true, beq_iff_eq, beq_iff_eq, identity_pair,
    identity_pair, Route.Kind.append_name_eq_iff]
  exact and_congr_left' ⟨Family.text_injective, congrArg Family.text⟩

/-- The labels under which a metric ticks a counter. -/
def Metric.labels? (c : Counter) (m : Metric) : Option (List String) :=
  m.tick?.bind fun x => if x.1 = c then some x.2 else none

theorem Metric.ticks_eq (c : Counter) (ls : List String) (m : Metric) : m.ticks c ls =
    (m.labels? c).any fun labels => Samples.identity labels == Samples.identity ls := by
  unfold ticks labels?
  rcases m.tick? with _ | ⟨c', labels⟩
  · rfl
  · by_cases hc : c' = c
    · simp [hc]
    · simp [hc]

namespace Effect

/-- The labels after the name of the worker under which an effect ticks a counter; interests
    count where a constraint changes them. -/
def labels? (c : Counter) (constrained : Bool) (e : Effect) : Option (List String) :=
  match c with
  | .sent => e.wrote?.map fun type => [type]
  | .received => e.received?.map fun type => [type]
  | .routes => e.published?.map fun x => [x.2.family.text, x.1.name]
  | .rtc => if constrained then e.interest?.map fun x => [x.2.family.text, x.1.name] else none
  | .failures =>
    if e.isUnwritten then some ["write"] else if e.isUnencoded then some ["encode"] else none

variable (name : String) (b : Bool) (e : Effect) (c : Counter)

/-- An effect is to be counted just where it ticks a counter. -/
theorem labels?_due? : ((e.due? name b).bind (Metric.labels? c)) =
    (e.labels? c b).map (name :: ·) := by
  cases e with
  | called command => cases command <;> cases b <;> cases c <;> rfl
  | encoded e data => cases data <;> cases b <;> cases c <;> rfl
  | read outcome =>
    cases outcome with
    | error e => cases b <;> cases c <;> rfl
    | ok m =>
      by_cases hm : m = .nop
      · cases b <;> cases c <;> simp [due?, labels?, wrote?, received?, published?, interest?,
          isUnwritten, isUnencoded, hm]
      · cases b <;> cases c <;> simp [due?, labels?, wrote?, received?, published?, interest?,
          isUnwritten, isUnencoded, hm, Metric.labels?, Metric.tick?]
  | _ => cases b <;> cases c <;> rfl

/-- What an effect is to be counted as ticks the samples that have its labels. -/
theorem ticks_due? (ls : List String) :
    ((e.due? name b).map (Metric.ticks c (name :: ls))).getD false =
      (e.labels? c b).any fun labels => Samples.identity labels == Samples.identity ls := by
  have hcut (labels : List String) :
      (Samples.identity (name :: labels) == Samples.identity (name :: ls)) =
        (Samples.identity labels == Samples.identity ls) := by
    rw [Bool.eq_iff_iff, beq_iff_eq, beq_iff_eq, Samples.identity_inj]
  have h := congrArg (Option.any fun labels =>
    Samples.identity labels == Samples.identity (name :: ls)) (labels?_due? name b e c)
  rw [Option.any_map] at h
  simp only [hcut] at h
  rw [← h]
  cases e.due? name b with
  | none => rfl
  | some m => exact m.ticks_eq c _

end Effect

/-! ## Labels that read the same -/

/-- What stands after the name of a worker in the labels of a counter. -/
inductive Counter.Labels : Counter → List String → Prop
  | sent (data : Octets) : Labels .sent [Header.label data]
  | received (m : Message) : Labels .received [m.name]
  | routes (f : Family) (kind : Route.Kind) : Labels .routes [f.text, kind.name]
  | rtc (f : Family) (kind : Route.Kind) : Labels .rtc [f.text, kind.name]
  | unwritten : Labels .failures ["write"]
  | unencoded : Labels .failures ["encode"]

theorem Effect.labels?_spec {c : Counter} {b : Bool} {e : Effect} {ls : List String}
    (h : e.labels? c b = some ls) : c.Labels ls := by
  cases c with
  | sent =>
    cases e with
    | wrote data =>
      cases h
      exact .sent data
    | _ => cases h
  | received =>
    obtain ⟨type, htype, rfl⟩ := Option.map_eq_some_iff.1 h
    cases e with
    | read outcome =>
      cases outcome with
      | error e => cases htype
      | ok m =>
        rw [received?, Option.ite_none_left_eq_some] at htype
        obtain ⟨-, hm⟩ := htype
        cases hm
        exact .received m
    | _ => cases htype
  | routes =>
    obtain ⟨x, -, rfl⟩ := Option.map_eq_some_iff.1 h
    exact .routes _ _
  | rtc =>
    rw [labels?, Option.ite_none_right_eq_some] at h
    obtain ⟨x, -, rfl⟩ := Option.map_eq_some_iff.1 h.2
    exact .rtc _ _
  | failures =>
    simp only [labels?] at h
    split at h
    · cases h
      exact .unwritten
    · split at h
      · cases h
        exact .unencoded
      · cases h

/-- Labels that read the same are the same, but for families in numbers that blur. -/
theorem Counter.Labels.eq_or_blurs {c : Counter} {p q : String} {as bs : List String}
    (ha : c.Labels as) (hb : c.Labels bs)
    (h : Samples.identity (p :: as) = Samples.identity (q :: bs)) :
    p = q ∧ as = bs ∨ ∃ (f g : Family) (kind : Route.Kind),
      as = [f.text, kind.name] ∧ bs = [g.text, kind.name] ∧ Family.Blurs p f q g := by
  have hsingle {a b : String} (ha : a ∈ Samples.singles) (hb : b ∈ Samples.singles)
      (h : Samples.identity [p, a] = Samples.identity [q, b]) : p = q ∧ [a] = [b] := by
    rw [Samples.identity_pair, Samples.identity_pair] at h
    obtain ⟨hp, rfl⟩ := Samples.append_single_eq ha hb h
    exact ⟨hp, rfl⟩
  have hroute {f g : Family} {k l : Route.Kind}
      (h : Samples.identity [p, f.text, k.name] = Samples.identity [q, g.text, l.name]) :
      p = q ∧ [f.text, k.name] = [g.text, l.name] ∨ ∃ (f' g' : Family) (kind : Route.Kind),
        [f.text, k.name] = [f'.text, kind.name] ∧ [g.text, l.name] = [g'.text, kind.name] ∧
          Family.Blurs p f' q g' := by
    rw [Samples.identity_triple, Samples.identity_triple, Route.Kind.append_name_eq_iff,
      Family.append_text_eq_iff] at h
    obtain ⟨⟨hp, rfl⟩ | hblurs, rfl⟩ := h
    · exact .inl ⟨hp, rfl⟩
    · exact .inr ⟨f, g, k, rfl, rfl, hblurs⟩
  cases ha with
  | sent data =>
    cases hb with
    | sent data' =>
      exact .inl (hsingle (Header.label_mem_singles data) (Header.label_mem_singles data') h)
  | received m =>
    cases hb with
    | received m' => exact .inl (hsingle m.name_mem_singles m'.name_mem_singles h)
  | routes f k =>
    cases hb with
    | routes g l => exact hroute h
  | rtc f k =>
    cases hb with
    | rtc g l => exact hroute h
  | unwritten => cases hb <;> exact .inl (hsingle (by decide) (by decide) h)
  | unencoded => cases hb <;> exact .inl (hsingle (by decide) (by decide) h)

/-! ## How often a worker did something -/

namespace Worker

variable {σ : Type} {w : Worker σ}

/-- How many effects of a worker pass a test. -/
def tally (w : Worker σ) (test : Effect → Bool) : Nat := w.history.countP fun x => test x.2

/-- How many of them came after a route target constraint. -/
def tallyCaused (w : Worker σ) (test : Effect → Bool) : Nat :=
  (caused w.history).countP fun x => x.1 && test x.2

/-- A worker's metrics tick a sample in its name as often as its effects are to. -/
theorem Books.countP_ticks (h : Books w) (c : Counter) (ls : List String) :
    w.metrics.countP (Metric.ticks c (w.id :: ls)) = (caused w.history).countP fun x =>
      (x.2.labels? c x.1).any fun labels => Samples.identity labels == Samples.identity ls := by
  have htick (e : Effect) : (e.metric?.map (Metric.ticks c (w.id :: ls))).getD false =
      (e.counts?.map (Metric.ticks c (w.id :: ls))).getD false := by
    unfold Effect.counts?
    cases e.metric? with
    | none => rfl
    | some m =>
      rw [Option.filter_some]
      cases ht : m.tick? with
      | none => simp [Metric.ticks, ht]
      | some x => rfl
  calc w.metrics.countP (Metric.ticks c (w.id :: ls))
    _ = (counts w.history).countP (Metric.ticks c (w.id :: ls)) := by
      rw [metrics, counts, List.filterMap_reverse, List.countP_reverse, List.countP_filterMap,
        List.countP_filterMap]
      simp only [htick]
    _ = (dues w.id w.history).countP (Metric.ticks c (w.id :: ls)) := by rw [h.balanced]
    _ = _ := by
      rw [dues, List.countP_filterMap]
      simp only [Effect.ticks_due?]

namespace Books

variable (h : Books w)
include h

/-- A sample that is ticked for just the effects that pass a test. -/
theorem countP_ticks_eq_tally {c : Counter} {ls : List String} {test : Effect → Bool}
    (htest : ∀ b e, ((Effect.labels? c b e).any fun labels =>
      Samples.identity labels == Samples.identity ls) = test e) :
    w.metrics.countP (Metric.ticks c (w.id :: ls)) = w.tally test := by
  have hcaused := congrArg (List.countP test) (map_caused w.history)
  rw [List.countP_map, List.countP_map] at hcaused
  rw [h.countP_ticks]
  simp only [htest]
  exact hcaused

theorem sent (type : String) : w.metrics.countP (Metric.ticks .sent [w.id, type]) =
    w.tally fun e => e.wrote? == some type := by
  refine h.countP_ticks_eq_tally fun b e => ?_
  rw [Effect.labels?]
  cases e.wrote? <;> simp [Samples.identity_singleton_beq]

theorem received (type : String) : w.metrics.countP (Metric.ticks .received [w.id, type]) =
    w.tally fun e => e.received? == some type := by
  refine h.countP_ticks_eq_tally fun b e => ?_
  rw [Effect.labels?]
  cases e.received? <;> simp [Samples.identity_singleton_beq]

theorem routes (f : Family) (kind : Route.Kind) :
    w.metrics.countP (Metric.ticks .routes [w.id, f.text, kind.name]) =
      w.tally fun e => e.published?.any fun x => x.2.family == f && x.1 == kind := by
  refine h.countP_ticks_eq_tally fun b e => ?_
  rw [Effect.labels?]
  cases e.published? <;> simp [Samples.identity_kind_beq]

theorem rtc (f : Family) (kind : Route.Kind) :
    w.metrics.countP (Metric.ticks .rtc [w.id, f.text, kind.name]) =
      w.tallyCaused fun e => e.interest?.any fun x => x.2.family == f && x.1 == kind := by
  rw [h.countP_ticks, tallyCaused]
  congr 1
  ext ⟨b, e⟩
  rw [Effect.labels?]
  cases b <;> cases e.interest? <;> simp [Samples.identity_kind_beq]

theorem unwritten : w.metrics.countP (Metric.ticks .failures [w.id, "write"]) =
    w.tally Effect.isUnwritten := by
  refine h.countP_ticks_eq_tally fun b e => ?_
  rw [Effect.labels?]
  cases e.isUnwritten <;> cases e.isUnencoded <;> simp [Samples.identity_singleton_beq]

theorem unencoded : w.metrics.countP (Metric.ticks .failures [w.id, "encode"]) =
    w.tally Effect.isUnencoded := by
  refine h.countP_ticks_eq_tally fun b e => ?_
  rw [Effect.labels?]
  cases hw : e.isUnwritten with
  | true =>
    have hone : e.isUnencoded = false := by
      cases e with
      | encoded e data => cases hw
      | _ => rfl
    simp [hone, Samples.identity_singleton_beq]
  | false => cases e.isUnencoded <;> simp

end Books

end Worker

/-! ## What other workers record -/

namespace Worker

section
variable {σ τ : Type} {v : Worker τ} {w : Worker σ} {c : Counter} {m : Metric}

/-- What a worker records ticks a counter under its name and labels of that counter. -/
theorem Books.tick?_spec (h : Books v) (hm : m ∈ v.metrics) {labels : List String}
    (ht : m.tick? = some (c, labels)) : ∃ ls, labels = v.id :: ls ∧ c.Labels ls := by
  obtain ⟨x, hx, hmetric⟩ := List.mem_filterMap.1 hm
  have hcounts : m ∈ counts v.history := by
    refine List.mem_filterMap.2 ⟨x, List.mem_reverse.1 hx, ?_⟩
    rw [Effect.counts?, hmetric, Option.filter_some, ht]
    rfl
  rw [h.balanced] at hcounts
  obtain ⟨⟨b, e⟩, -, hdue⟩ := List.mem_filterMap.1 hcounts
  have hlabels := Effect.labels?_due? v.id b e c
  rw [hdue, Option.bind_some, Metric.labels?, ht, Option.bind_some, if_pos rfl] at hlabels
  obtain ⟨ls, hls, heq⟩ := Option.map_eq_some_iff.1 hlabels.symm
  exact ⟨ls, heq.symm, Effect.labels?_spec hls⟩

/-- What a worker records ticks a sample of another only where families blur. -/
theorem Books.blurs_of_ticks (h : Books v) (hm : m ∈ v.metrics) {name : String}
    (hne : v.id ≠ name) {ls : List String} (hls : c.Labels ls)
    (ht : m.ticks c (name :: ls) = true) :
    ∃ (f g : Family) (kind : Route.Kind), m.tick? = some (c, [v.id, f.text, kind.name]) ∧
      ls = [g.text, kind.name] ∧ Family.Blurs v.id f name g := by
  obtain ⟨labels, hlabels, heq⟩ := Metric.ticks_iff.1 ht
  obtain ⟨ls', rfl, hls'⟩ := h.tick?_spec hm hlabels
  rcases hls'.eq_or_blurs hls heq with ⟨hid, -⟩ | ⟨f, g, kind, rfl, hg, hblurs⟩
  · exact absurd hid hne
  · exact ⟨f, g, kind, hlabels, hg, hblurs⟩

end

/-- Metrics that workers with other names record. -/
def Foreign (name : String) (others : List Metric) : Prop :=
  ∀ m ∈ others, ∃ (config : Config) (os : List Operation) (v : Worker Script),
    Reached config os v ∧ v.id ≠ name ∧ m ∈ v.metrics

namespace Foreign

variable {name : String} {others : List Metric} (h : Foreign name others)
include h

theorem entered? {m : Metric} (hm : m ∈ others) : m.entered? name = none := by
  obtain ⟨config, os, v, hv, hne, hmv⟩ := h m hm
  have hpeer := ((kept_books Script.encode_ne_nil).reached hv).named m hmv
  cases m with
  | state p s => exact if_neg fun hp => hne (hpeer.symm.trans hp)
  | _ => rfl

theorem blurs_of_ticks {c : Counter} {ls : List String} (hls : c.Labels ls) {m : Metric}
    (hm : m ∈ others) (ht : m.ticks c (name :: ls) = true) :
    ∃ (g f : Family) (kind : Route.Kind), m.tick? = some (c, [m.peer, g.text, kind.name]) ∧
      ls = [f.text, kind.name] ∧ Family.Blurs m.peer g name f := by
  obtain ⟨config, os, v, hv, hne, hmv⟩ := h m hm
  have hbooks : Books v := (kept_books Script.encode_ne_nil).reached hv
  rw [hbooks.named m hmv]
  exact hbooks.blurs_of_ticks hmv hne hls ht

/-- Others do not add to a sample with a single label after the name. -/
theorem countP_single {c : Counter} {text : String} (hls : c.Labels [text]) :
    others.countP (Metric.ticks c [name, text]) = 0 := by
  refine List.countP_eq_zero.2 fun m hm ht => ?_
  obtain ⟨g, f, kind, -, hlist, -⟩ := h.blurs_of_ticks hls hm ht
  cases hlist

/-- What others add to the sample of a family is of the same kind, and of a family that reads
    the same. -/
theorem blurs_of_ticks_route {f : Family} {kind : Route.Kind} {c : Counter}
    (hc : c.Labels [f.text, kind.name]) {m : Metric} (hm : m ∈ others)
    (ht : m.ticks c [name, f.text, kind.name] = true) :
    ∃ g : Family, m.tick? = some (c, [m.peer, g.text, kind.name]) ∧
      Family.Blurs m.peer g name f := by
  obtain ⟨g, f', kind', htick, hlist, hblurs⟩ := h.blurs_of_ticks hc hm ht
  obtain ⟨hf, hkind⟩ := List.cons_eq_cons.1 hlist
  rw [Family.text_injective hf, hkind]
  exact ⟨g, htick, hblurs⟩

/-- Others add nothing where the family has a name. -/
theorem countP_named {f : Family} (hf : f.name? ≠ none) {kind : Route.Kind} {c : Counter}
    (hc : c.Labels [f.text, kind.name]) :
    others.countP (Metric.ticks c [name, f.text, kind.name]) = 0 := by
  refine List.countP_eq_zero.2 fun m hm ht => ?_
  obtain ⟨g, -, hblurs⟩ := h.blurs_of_ticks_route hc hm ht
  exact hf hblurs.right

end Foreign

end Worker

/-! ## Agreement -/

/-- A registry shows the state of a worker, once it shows one, and what the worker did, beside
    what others recorded. -/
structure Registry.Shows {σ : Type} (r : Registry) (w : Worker σ) (others : List Metric) :
    Prop where
  /-- Just the gauge of the current state is one, and those of the others are zero. -/
  states : (∃ t, (r.states.value? [w.id, SessionState.name t]).isSome) →
    ∀ t, r.states.value? [w.id, SessionState.name t] = some (if t = w.state then 1 else 0)
  sent : ∀ data, r.sent.total [w.id, Header.label data] =
    w.tally fun e => e.wrote? == some (Header.label data)
  received : ∀ m : Message, r.received.total [w.id, m.name] =
    w.tally fun e => e.received? == some m.name
  unwritten : r.failures.total [w.id, "write"] = w.tally Effect.isUnwritten
  unencoded : r.failures.total [w.id, "encode"] = w.tally Effect.isUnencoded
  routes : ∀ (f : Family) (kind : Route.Kind), r.routes.total [w.id, f.text, kind.name] =
    w.tally (fun e => e.published?.any fun x => x.2.family == f && x.1 == kind) +
      others.countP (Metric.ticks .routes [w.id, f.text, kind.name])
  /-- Interests that were changed because of a route target constraint. -/
  rtc : ∀ (f : Family) (kind : Route.Kind), r.rtc.total [w.id, f.text, kind.name] =
    w.tallyCaused (fun e => e.interest?.any fun x => x.2.family == f && x.1 == kind) +
      others.countP (Metric.ticks .rtc [w.id, f.text, kind.name])
  /-- Others add nothing where the family has a name. -/
  named : ∀ (f : Family) (kind : Route.Kind), f.name? ≠ none →
    others.countP (Metric.ticks .routes [w.id, f.text, kind.name]) = 0 ∧
      others.countP (Metric.ticks .rtc [w.id, f.text, kind.name]) = 0
  /-- What they add elsewhere is of the same kind, and of a family that reads the same. -/
  blurred : ∀ (f : Family) (kind : Route.Kind) (c : Counter) (m : Metric),
    c = .routes ∨ c = .rtc → m ∈ others → m.ticks c [w.id, f.text, kind.name] = true →
      ∃ g : Family, m.tick? = some (c, [m.peer, g.text, kind.name]) ∧
        Family.Blurs m.peer g w.id f

namespace Worker

/-- The peer sends a constraint and a route, and then an NLRI that is neither announced nor
    withdrawn. -/
def Sample.constrained : Worker Script :=
  .sample (.sample true)
    (({ incoming :=
        [.ok (.update ⟨[{ Nlri.sample .announced [0] with family := .ipv4Rtc },
            .sample .announced [8]], ∅⟩),
          .ok (.update ⟨[.sample .unset [8]], ∅⟩)] } : Script).negotiate
      [.ipv4MplsVpn, .ipv4Rtc] 90)

/-- It is told of two routes, of which the first is too long to be encoded. -/
def Sample.informed : Worker Script :=
  (Sample.constrained.enqueue (.route (.sample 256))).enqueue (.route (.sample 1))

/-- After the run it is asked to send a message. -/
def Sample.concluded : Worker Script := Sample.informed.run.2.send Header.keepalive

theorem reached_concluded : ∃ os, Reached Sample.constrained.config os Sample.concluded := by
  obtain ⟨r, hlead, hrun⟩ := Runner.leads_run Sample.informed
  have hresult : r.result? = Sample.informed.run.1 := by rw [hrun]
  have hworker : r.worker = Sample.informed.run.2 := by rw [hrun]
  have hended : r.result? = some (.error (.invalidAction .unset)) := by
    rw [hresult]
    decide +kernel
  have hinformed : ∃ os, Reached Sample.constrained.config os Sample.informed :=
    ⟨_, ((Reached.new _ _ _).performs (.enqueues (.route (.sample 256)))).performs
      (.enqueues (.route (.sample 1)))⟩
  obtain ⟨os, hos⟩ := hinformed
  have hdone := (hos.performs (.runs hlead hended)).performs (.sends Header.keepalive)
  rw [hworker] at hdone
  exact ⟨_, hdone⟩

/-- A worker for the peer at this host that published a route of this family. -/
def Sample.publisher (host : UInt8) (family : Family) : Worker Script :=
  (Worker.new (.sample false) (.sample host) {} 1).publish .advertise
    ⟨{ Nlri.sample .announced [8] with family }, ∅⟩

theorem reached_publisher (host : UInt8) (family : Family) :
    ∃ os, Reached (.sample false) os (Sample.publisher host family) :=
  ⟨_, (Reached.new _ _ _).performs (.publishes .advertise _)⟩

end Worker

end RouteExchange
