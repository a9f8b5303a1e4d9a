/-
  The bus as its commands tell it.

  `Since` is the past-time operator: some command started a thing, and none ended
  it since.  Each command starts or ends what it names and leaves all else alone
  (`stored?_step_iff`, `mem_interestsOf_step_iff`, `inbox_of_step`), so that the
  table and the records of a bus can be read off the commands it carried out
  (`state_iff_since`).
-/
import Mathlib.Data.List.Induction
import RouteExchange.Proofs.Bus.Keyed

namespace RouteExchange.Bus

/-! ## What was started and not ended since -/

/-- A command started it, and no later one ended it. -/
def Since (starts ends : Command → Prop) (cs : List Command) : Prop :=
  ∃ before c after, cs = before ++ c :: after ∧ starts c ∧ ∀ d ∈ after, ¬ ends d

theorem not_since_nil (starts ends : Command → Prop) : ¬ Since starts ends [] := by
  rintro ⟨before, c, after, h, -⟩
  simp at h

/-- The last command started it, or did not end it. -/
theorem since_concat_iff (starts ends : Command → Prop) (cs : List Command) (c : Command) :
    Since starts ends (cs ++ [c]) ↔ starts c ∨ (Since starts ends cs ∧ ¬ ends c) := by
  constructor
  · rintro ⟨before, d, after, h, hd, hafter⟩
    rcases List.eq_nil_or_concat' after with rfl | ⟨after, a, rfl⟩
    · obtain ⟨-, hcd⟩ := List.append_inj' h rfl
      exact Or.inl (List.singleton_inj.1 hcd ▸ hd)
    · rw [← List.cons_append, ← List.append_assoc] at h
      obtain ⟨rfl, hca⟩ := List.append_inj' h rfl
      obtain rfl := List.singleton_inj.1 hca
      exact Or.inr ⟨⟨before, d, after, rfl, hd, fun x hx => hafter x (List.mem_append_left _ hx)⟩,
        hafter c (List.mem_append_right _ List.mem_cons_self)⟩
  · rintro (hc | ⟨⟨before, d, after, rfl, hd, hafter⟩, hc⟩)
    · exact ⟨cs, c, [], rfl, hc, List.forall_mem_nil _⟩
    · refine ⟨before, d, after ++ [c], by simp, hd, fun x hx => ?_⟩
      rcases List.mem_append.1 hx with hx | hx
      · exact hafter x hx
      · exact List.mem_singleton.1 hx ▸ hc

/-! ## The commands that matter to a key and to a name -/

namespace Command

/-- Ends that the route of a source is stored under a key. -/
def Displaces (k : Nlri.Key) (p : String) : Command → Prop
  | advertise _ route => route.key = k
  | withdraw source route => source = p ∧ route.key = k
  | cleanup id => id = p
  | subscribe _ _ _ | unsubscribe _ _ => False

/-- Asks for an interest in a name. -/
def Asks (id : String) (i : Subscription) : Command → Prop
  | subscribe name _ j => name = id ∧ j = i
  | _ => False

/-- Ends an interest of a name. -/
def Drops (id : String) (i : Subscription) : Command → Prop
  | unsubscribe name j => name = id ∧ j = i
  | cleanup name => name = id
  | _ => False

/-- Names the inbox to which the events of a name are to go. -/
def Directs (id : String) (inbox : Inbox) : Command → Prop
  | subscribe name box _ => name = id ∧ box = inbox
  | _ => False

/-- Names any inbox for the events of a name. -/
def Redirects (id : String) (c : Command) : Prop := ∃ inbox, c.Directs id inbox

end Command

/-! ## One command -/

/-- A route is stored after a command that publishes it, or that does not displace it. -/
theorem stored?_step_iff {b : Bus} (hb : b.Keyed) (c : Command) (k : Nlri.Key) (p : String)
    (e : Route) : (b.step c).1.stored? k = some ⟨p, e⟩ ↔
      (c = .advertise p e ∧ e.key = k) ∨ (b.stored? k = some ⟨p, e⟩ ∧ ¬ c.Displaces k p) := by
  cases c with
  | advertise source route =>
    simp only [Bus.step, stored?_advertise, Command.Displaces, Command.advertise.injEq]
    by_cases hk : route.key = k
    · grind
    · grind
  | withdraw source route =>
    simp only [Bus.step, stored?_withdraw, Command.Displaces]
    by_cases hk : k = route.key
    · rw [if_pos hk, Option.filter_eq_some_iff]
      grind
    · rw [if_neg hk]
      grind
  | subscribe name inbox i =>
    simp [Bus.step, stored?_subscribe, Command.Displaces]
  | unsubscribe name i =>
    simp [Bus.step, stored?_unsubscribe, Command.Displaces]
  | cleanup name =>
    simp only [Bus.step, stored?_cleanup hb, Command.Displaces, Option.filter_eq_some_iff]
    grind

section
variable (b : Bus) (c : Command) (id : String)

/-- An interest is held after a command that asks for it, or that does not drop it. -/
theorem mem_interestsOf_step_iff (i : Subscription) :
    i ∈ (b.step c).1.interestsOf id ↔
      c.Asks id i ∨ (i ∈ b.interestsOf id ∧ ¬ c.Drops id i) := by
  cases c with
  | advertise source route =>
    rw [show (b.step (.advertise source route)).1.interestsOf id = b.interestsOf id from rfl]
    simp [Command.Asks, Command.Drops]
  | withdraw source route =>
    simp [Bus.step, interestsOf_withdraw, Command.Asks, Command.Drops]
  | subscribe name inbox j =>
    simp only [Bus.step, interestsOf_subscribe, Command.Asks, Command.Drops, not_false_iff,
      and_true]
    by_cases hn : id = name
    · subst hn
      rw [if_pos rfl, List.mem_insert_iff]
      grind
    · grind
  | unsubscribe name j =>
    simp only [Bus.step, interestsOf_unsubscribe, Command.Asks, Command.Drops, false_or]
    by_cases hn : id = name
    · subst hn
      rw [if_pos rfl, List.mem_filter, bne_iff_ne]
      grind
    · grind
  | cleanup name =>
    simp only [Bus.step, interestsOf_cleanup, Command.Asks, Command.Drops, false_or]
    by_cases hn : id = name
    · simp [hn]
    · grind

/-- A record leads to the inbox that the command names for it, or else to the one
    it led to before. -/
theorem inbox_of_step {s : Subscriber} (h : (b.step c).1.subscriber? id = some s) :
    c.Directs id s.inbox ∨
      ((∃ s₀, b.subscriber? id = some s₀ ∧ s₀.inbox = s.inbox) ∧ ¬ c.Redirects id) := by
  have hkept (hc : ¬ c.Redirects id) (hs : b.subscriber? id = some s) :
      c.Directs id s.inbox ∨
        ((∃ s₀, b.subscriber? id = some s₀ ∧ s₀.inbox = s.inbox) ∧ ¬ c.Redirects id) :=
    Or.inr ⟨⟨s, hs, rfl⟩, hc⟩
  cases c with
  | advertise source route => exact hkept (by rintro ⟨_, ⟨⟩⟩) h
  | withdraw source route =>
    exact hkept (by rintro ⟨_, ⟨⟩⟩) ((subscriber?_withdraw b source route id).symm.trans h)
  | subscribe name inbox i =>
    simp only [Bus.step, subscriber?_subscribe] at h
    by_cases hn : id = name
    · rw [if_pos hn, Option.some.injEq] at h
      exact Or.inl ⟨hn.symm, by rw [← h]⟩
    · rw [if_neg hn] at h
      refine hkept ?_ h
      rintro ⟨_, hname, -⟩
      exact hn hname.symm
  | unsubscribe name i =>
    have hc : ¬ Command.Redirects id (.unsubscribe name i) := by rintro ⟨_, ⟨⟩⟩
    simp only [Bus.step, subscriber?_unsubscribe] at h
    by_cases hn : id = name
    · subst hn
      rw [if_pos rfl] at h
      obtain ⟨s₀, hs₀, hs⟩ := Option.bind_eq_some_iff.1 h
      refine Or.inr ⟨⟨s₀, hs₀, ?_⟩, hc⟩
      split at hs
      · split at hs
        · cases hs
        · cases hs
          rfl
      · cases hs
        rfl
    · rw [if_neg hn] at h
      exact hkept hc h
  | cleanup name =>
    simp only [Bus.step, subscriber?_cleanup] at h
    by_cases hn : id = name
    · simp [hn] at h
    · rw [if_neg hn] at h
      exact hkept (by rintro ⟨_, ⟨⟩⟩) h

/-- There is a record only of what holds an interest. -/
theorem interests_ne_nil_of_step (hb : ∀ s, b.subscriber? id = some s → s.interests ≠ [])
    {s : Subscriber} (h : (b.step c).1.subscriber? id = some s) : s.interests ≠ [] := by
  cases c with
  | advertise source route => exact hb s h
  | withdraw source route => exact hb s ((subscriber?_withdraw b source route id).symm.trans h)
  | subscribe name inbox i =>
    simp only [Bus.step, subscriber?_subscribe] at h
    split at h
    · rw [Option.some.injEq] at h
      rw [← h]
      exact List.ne_nil_of_mem List.mem_insert_self
    · exact hb s h
  | unsubscribe name i =>
    simp only [Bus.step, subscriber?_unsubscribe] at h
    split at h
    · next hn =>
      obtain ⟨s₀, hs₀, hs⟩ := Option.bind_eq_some_iff.1 h
      split at hs
      · split at hs
        · cases hs
        · next he =>
          cases hs
          simpa using he
      · cases hs
        exact hb s (hn ▸ hs₀)
    · exact hb s h
  | cleanup name =>
    simp only [Bus.step, subscriber?_cleanup] at h
    split at h
    · cases h
    · exact hb s h

end

/-! ## Runs -/

section
variable (cs : List Command) (id : String)

theorem stored?_run_iff (k : Nlri.Key) (p : String) (e : Route) :
    (Bus.run {} cs).1.stored? k = some ⟨p, e⟩ ↔
      e.key = k ∧ Since (· = .advertise p e) (·.Displaces k p) cs := by
  induction cs using List.reverseRecOn with
  | nil =>
    refine iff_of_false ?_ fun h => not_since_nil _ _ h.2
    rintro ⟨⟩
  | append_singleton cs c ih =>
    rw [run_concat, stored?_step_iff (keyed_empty.run cs), ih, since_concat_iff]
    tauto

theorem mem_interestsOf_run_iff (i : Subscription) :
    i ∈ (Bus.run {} cs).1.interestsOf id ↔ Since (·.Asks id i) (·.Drops id i) cs := by
  induction cs using List.reverseRecOn with
  | nil => exact iff_of_false List.not_mem_nil (not_since_nil _ _)
  | append_singleton cs c ih => rw [run_concat, mem_interestsOf_step_iff, ih, since_concat_iff]

theorem interests_ne_nil {s : Subscriber} (h : (Bus.run {} cs).1.subscriber? id = some s) :
    s.interests ≠ [] := by
  induction cs using List.reverseRecOn generalizing s with
  | nil => cases h
  | append_singleton cs c ih =>
    rw [run_concat] at h
    exact interests_ne_nil_of_step _ c id (fun _ => ih) h

theorem since_directs {s : Subscriber} (h : (Bus.run {} cs).1.subscriber? id = some s) :
    Since (·.Directs id s.inbox) (·.Redirects id) cs := by
  induction cs using List.reverseRecOn generalizing s with
  | nil => cases h
  | append_singleton cs c ih =>
    rw [run_concat] at h
    rw [since_concat_iff]
    rcases inbox_of_step _ c id h with hc | ⟨⟨s₀, hs₀, hinbox⟩, hc⟩
    · exact Or.inl hc
    · exact Or.inr ⟨hinbox ▸ ih hs₀, hc⟩

end

/-- The name has a record just while it holds an interest. -/
theorem isSome_subscriber?_run_iff (cs : List Command) (id : String) :
    ((Bus.run {} cs).1.subscriber? id).isSome ↔ ∃ i, Since (·.Asks id i) (·.Drops id i) cs := by
  simp only [← mem_interestsOf_run_iff]
  cases hs : (Bus.run {} cs).1.subscriber? id with
  | none => simp [interestsOf_of_none hs]
  | some s =>
    rw [interestsOf_of_some hs]
    exact iff_of_true rfl (List.exists_mem_of_ne_nil _ (interests_ne_nil cs id hs))

theorem exists_interest_iff (b : Bus) (id : String) (i : Subscription) :
    (∃ s, b.subscriber? id = some s ∧ i ∈ s.interests) ↔ i ∈ b.interestsOf id := by
  cases hs : b.subscriber? id with
  | none => simp [interestsOf_of_none hs]
  | some s => simp [interestsOf_of_some hs]

theorem table_withdraw_of_ne {b : Bus} {source : String} {route : Route}
    (h : ∀ r, b.stored? route.key = some r → r.source ≠ source) :
    (b.withdraw source route).1.table = b.table := by
  unfold withdraw
  split
  · rfl
  · next gone hgone => rw [if_neg (h gone hgone)]

theorem table_subscribe (b : Bus) (id : String) (inbox : Inbox) (i : Subscription) :
    (b.subscribe id inbox i).1.table = b.table := by
  unfold subscribe
  simp only
  split <;> rfl

theorem table_unsubscribe (b : Bus) (id : String) (i : Subscription) :
    (b.unsubscribe id i).1.table = b.table := by
  unfold unsubscribe
  split
  · rfl
  · split <;> rfl

/-- **The state of a bus is what its commands say.** A route is stored under a key
    just when it was the last to be advertised there, and its source neither withdrew
    the key nor was cleaned up since; a withdrawal by another and a change of interests
    leave the table as it is.  A name holds the interests that it asked for and neither
    dropped nor lost by a clean-up since, it has a record just when it holds one, and
    the record leads to the inbox that was named last. -/
theorem state_iff_since (cs : List Command) :
    (∀ k p e, (Bus.run {} cs).1.stored? k = some ⟨p, e⟩ ↔
      e.key = k ∧ Since (· = .advertise p e) (·.Displaces k p) cs) ∧
    (∀ source route, (∀ r, (Bus.run {} cs).1.stored? route.key = some r → r.source ≠ source) →
      ((Bus.run {} cs).1.step (.withdraw source route)).1.table = (Bus.run {} cs).1.table) ∧
    (∀ id inbox i,
      ((Bus.run {} cs).1.step (.subscribe id inbox i)).1.table = (Bus.run {} cs).1.table) ∧
    (∀ id i, ((Bus.run {} cs).1.step (.unsubscribe id i)).1.table = (Bus.run {} cs).1.table) ∧
    (∀ id i, (∃ s, (Bus.run {} cs).1.subscriber? id = some s ∧ i ∈ s.interests) ↔
      Since (·.Asks id i) (·.Drops id i) cs) ∧
    (∀ id, ((Bus.run {} cs).1.subscriber? id).isSome ↔
      ∃ i, Since (·.Asks id i) (·.Drops id i) cs) ∧
    ∀ id s, (Bus.run {} cs).1.subscriber? id = some s →
      Since (·.Directs id s.inbox) (·.Redirects id) cs := by
  refine ⟨stored?_run_iff cs, fun _ _ h => table_withdraw_of_ne h,
    fun _ _ _ => table_subscribe _ _ _ _, fun _ _ => table_unsubscribe _ _ _, fun id i => ?_,
    isSome_subscriber?_run_iff cs, fun id _ hs => since_directs cs id hs⟩
  rw [exists_interest_iff]
  exact mem_interestsOf_run_iff cs id i

end RouteExchange.Bus
