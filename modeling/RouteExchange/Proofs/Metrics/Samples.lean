/-
  What a registry shows of what was recorded.

  A counter shows how many of the recorded metrics tick it (`Registry.total_record_all`),
  and the gauges of a peer show the state that was recorded last
  (`Registry.gauge_record_all`), whatever the names of the other peers.
-/
import Mathlib.Data.List.Induction
import RouteExchange.Proofs.Bus.Absence
import RouteExchange.Proofs.Metrics.Labels

namespace RouteExchange

/-! ## Samples and their labels -/

namespace Samples

theorem identity_state_eq_iff {p q : String} {s t : SessionState} :
    identity [p, s.name] = identity [q, t.name] ↔ p = q ∧ s = t := by
  rw [identity_pair, identity_pair, SessionState.append_name_eq_iff]

theorem value?_cons (s : Sample) (ss : Samples) (ls : List String) : value? (s :: ss) ls =
    if identity s.labels = identity ls then some s.value else value? ss ls := by
  unfold value?
  rw [List.find?_cons]
  by_cases h : identity s.labels = identity ls
  · simp [h]
  · rw [if_neg h, beq_false_of_ne h]

theorem value?_update (ss : Samples) (labels ls : List String) (f : Nat → Nat) :
    (ss.update labels f).value? ls =
      if identity labels = identity ls then some (f ((ss.value? ls).getD 0)) else ss.value? ls := by
  induction ss with
  | nil => rw [update, value?_cons]; rfl
  | cons s ss ih =>
    rw [update]
    by_cases hs : identity s.labels = identity labels
    · rw [if_pos hs, value?_cons, value?_cons, hs]
      by_cases h : identity labels = identity ls
      · simp [h]
      · simp [h]
    · rw [if_neg hs, value?_cons, value?_cons, ih]
      by_cases h : identity labels = identity ls
      · have hne : identity s.labels ≠ identity ls := h ▸ hs
        simp [h, hne]
      · simp [h]

/-- The number of a sample, which is zero before there is one. -/
def total (ss : Samples) (ls : List String) : Nat := (ss.value? ls).getD 0

theorem total_update_succ (ss : Samples) (labels ls : List String) :
    (ss.update labels (· + 1)).total ls =
      ss.total ls + if identity labels = identity ls then 1 else 0 := by
  rw [total, value?_update]
  split
  · rfl
  · rfl

end Samples

/-! ## Counters -/

/-- The counters of a registry. -/
inductive Counter where
  | sent
  | received
  | routes
  | rtc
  | failures
deriving DecidableEq

/-- The samples of a counter. -/
def Registry.samples (r : Registry) : Counter → Samples
  | .sent => r.sent
  | .received => r.received
  | .routes => r.routes
  | .rtc => r.rtc
  | .failures => r.failures

namespace Metric

/-- The counter that a metric ticks, if it ticks one, and under which labels. -/
def tick? : Metric → Option (Counter × List String)
  | state _ _ => none
  | sent peer type => some (.sent, [peer, type])
  | received peer type => some (.received, [peer, type])
  | route peer family kind => some (.routes, [peer, family, kind])
  | rtc peer family kind => some (.rtc, [peer, family, kind])
  | failed peer stage => some (.failures, [peer, stage])

def peer : Metric → String
  | state p _ | sent p _ | received p _ | route p _ _ | rtc p _ _ | failed p _ => p

/-- The metric ticks the sample of the counter with these labels. -/
def ticks (c : Counter) (ls : List String) (m : Metric) : Bool :=
  m.tick?.any fun x => x.1 == c && Samples.identity x.2 == Samples.identity ls

/-- The state that the peer of this name enters, if it enters one. -/
def entered? (name : String) : Metric → Option SessionState
  | state p s => if p = name then some s else none
  | _ => none

theorem tick?_peer {m : Metric} {c : Counter} {labels : List String}
    (h : m.tick? = some (c, labels)) : ∃ rest, labels = m.peer :: rest := by
  cases m with
  | state p s => cases h
  | _ =>
    cases h
    exact ⟨_, rfl⟩

theorem ticks_iff {c : Counter} {ls : List String} {m : Metric} : m.ticks c ls = true ↔
    ∃ labels, m.tick? = some (c, labels) ∧ Samples.identity labels = Samples.identity ls := by
  unfold ticks
  cases m.tick? with
  | none => simp
  | some x => simp [Prod.ext_iff, and_assoc]

end Metric

namespace Registry

theorem active_record {r : Registry} (h : r.active = true) (m : Metric) :
    (r.record m).active = true := by
  unfold record
  rw [if_pos h]
  cases m <;> exact h

theorem samples_record {r : Registry} (h : r.active = true) (m : Metric) (c : Counter) :
    (r.record m).samples c = match m.tick? with
      | some (c', labels) =>
        if c' = c then (r.samples c).update labels (· + 1) else r.samples c
      | none => r.samples c := by
  unfold record
  rw [if_pos h]
  cases m <;> cases c <;> rfl

/-- A metric ticks the samples that have its labels. -/
theorem total_record {r : Registry} (h : r.active = true) (m : Metric) (c : Counter)
    (ls : List String) : ((r.record m).samples c).total ls =
      (r.samples c).total ls + if m.ticks c ls then 1 else 0 := by
  rw [samples_record h]
  cases ht : m.tick? with
  | none => simp [Metric.ticks, ht]
  | some x =>
    rcases x with ⟨c', labels⟩
    by_cases hc : c' = c
    · simp [Metric.ticks, ht, hc, Samples.total_update_succ]
    · simp [Metric.ticks, ht, hc]

/-- A counter shows how many of the metrics tick it. -/
theorem total_record_all {r : Registry} (h : r.active = true) (ms : List Metric) (c : Counter)
    (ls : List String) : ((ms.foldl record r).samples c).total ls =
      (r.samples c).total ls + ms.countP (Metric.ticks c ls) := by
  induction ms generalizing r with
  | nil => rfl
  | cons m ms ih =>
    rw [List.foldl_cons, ih (active_record h m), total_record h, List.countP_cons]
    omega

/-! ## Gauges -/

theorem value?_zeroed (ts : List SessionState) (ss : Samples) (peer name : String)
    (t : SessionState) :
    (ts.foldl (fun ss s => ss.update [peer, s.name] fun _ => 0) ss).value? [name, t.name] =
      if peer = name ∧ t ∈ ts then some 0 else ss.value? [name, t.name] := by
  induction ts generalizing ss with
  | nil => simp
  | cons s ts ih =>
    rw [List.foldl_cons, ih, Samples.value?_update]
    simp only [Samples.identity_state_eq_iff]
    by_cases hname : peer = name
    · by_cases hs : s = t
      · simp [hname, hs]
      · simp [hname, hs, Ne.symm hs]
    · simp [hname]

/-- Entering a state sets the gauges of the peer, and of no other. -/
theorem value?_enter (ss : Samples) (peer name : String) (s t : SessionState) :
    (enter ss peer s).value? [name, t.name] =
      if peer = name then some (if t = s then 1 else 0) else ss.value? [name, t.name] := by
  rw [enter, Samples.value?_update, value?_zeroed]
  simp only [Samples.identity_state_eq_iff]
  by_cases hname : peer = name
  · by_cases hs : s = t
    · simp [hname, hs]
    · simp [hname, hs, Ne.symm hs, t.mem_all]
  · simp [hname]

theorem gauge_record {r : Registry} (h : r.active = true) (m : Metric) (name : String)
    (t : SessionState) :
    (r.record m).states.value? [name, t.name] = match m.entered? name with
      | some s => some (if t = s then 1 else 0)
      | none => r.states.value? [name, t.name] := by
  unfold record
  rw [if_pos h]
  cases m with
  | state p s =>
    rw [value?_enter, Metric.entered?]
    split
    · rfl
    · rfl
  | _ => rfl

theorem active_record_all {r : Registry} (h : r.active = true) (ms : List Metric) :
    (ms.foldl record r).active = true :=
  List.foldlRecOn ms record (motive := fun r => r.active = true) h fun _ h m _ => active_record h m

/-- The gauges of a peer show the state that was entered last. -/
theorem gauge_record_all {r : Registry} (h : r.active = true) (ms : List Metric) (name : String)
    (t : SessionState) :
    (ms.foldl record r).states.value? [name, t.name] =
      match (ms.filterMap (Metric.entered? name)).getLast? with
      | some s => some (if t = s then 1 else 0)
      | none => r.states.value? [name, t.name] := by
  induction ms using List.reverseRecOn with
  | nil => rfl
  | append_singleton ms m ih =>
    rw [List.foldl_append, List.foldl_cons, List.foldl_nil,
      gauge_record (active_record_all h ms), List.filterMap_append]
    cases he : m.entered? name with
    | none => simpa [he] using ih
    | some s => simp [he]

end Registry

/-! ## Metrics of one peer among those of others -/

namespace Bus.Interleaves

variable {α : Type} {xs ys zs : List α}

theorem filterMap_left {β : Type} {f : α → Option β} (h : Interleaves xs ys zs)
    (hf : ∀ y ∈ ys, f y = none) : zs.filterMap f = xs.filterMap f := by
  induction h with
  | nil => rfl
  | @left x _ _ _ _ ih => rw [List.filterMap_cons, List.filterMap_cons, ih hf]
  | @right y _ _ _ _ ih =>
    rw [List.filterMap_cons_none (hf y List.mem_cons_self)]
    exact ih fun y' hy' => hf y' (List.mem_cons_of_mem _ hy')

theorem countP_eq (p : α → Bool) (h : Interleaves xs ys zs) :
    zs.countP p = xs.countP p + ys.countP p := by
  induction h with
  | nil => rfl
  | left _ ih =>
    rw [List.countP_cons, List.countP_cons, ih]
    omega
  | right _ ih =>
    rw [List.countP_cons, List.countP_cons, ih]
    omega

end Bus.Interleaves

end RouteExchange
