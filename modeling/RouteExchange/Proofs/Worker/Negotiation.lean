/-
  The active families of a worker, whatever was asked of it.

  They are those that were agreed in the last attempt, if that succeeded and no clean-up
  followed (`agreed?`), and otherwise there are none.  `Worker.Settled` is the invariant
  of all operations that says so; `families_of_reached` draws the conclusions, also for
  valid configurations.
-/
import RouteExchange.Proofs.Config.Valid
import RouteExchange.Proofs.Sample
import RouteExchange.Proofs.Worker.Operations
import RouteExchange.Proofs.Worker.Teardown

namespace RouteExchange

/-- What was agreed in the last attempt, if it succeeded and no clean-up followed; the
    operations stand with the latest first.  A run ends with a clean-up of its own. -/
def agreed? : List Operation → Option Negotiated
  | [] => none
  | .connect (.ok n) :: _ => some n
  | .connect (.error _) :: _ | .clean :: _ | .run _ :: _ => none
  | _ :: os => agreed? os

namespace Config

/-- The families offered that the peer offers too, in the order of the former. -/
def shared (c : Config) (n : Negotiated) : List Family :=
  c.offered.filter fun f => n.peerFamilies.contains f

/-- The families that an agreement makes active. -/
def activated (c : Config) : Option Negotiated → List Family
  | none => []
  | some n => c.shared n

variable {c : Config} (h : c.validate = .ok ())
include h

theorem nodup_activated (n : Option Negotiated) : (c.activated n).Nodup := by
  cases n with
  | none => exact List.nodup_nil
  | some n => exact (nodup_offered h).filter _

/-- The family of route target constraints can only be the last one. -/
theorem activated_eq_append (n : Option Negotiated) : ∃ fs, .ipv4Rtc ∉ fs ∧
    c.activated n = fs ++
      if c.rtcEnabled && (c.activated n).contains .ipv4Rtc then [.ipv4Rtc] else [] := by
  have hlisted := ipv4Rtc_notMem_families h
  cases n with
  | none => exact ⟨[], List.not_mem_nil, by simp [activated]⟩
  | some n =>
    refine ⟨c.families.filter fun f => n.peerFamilies.contains f,
      fun hmem => hlisted (List.mem_filter.1 hmem).1, ?_⟩
    cases hrtc : c.rtcEnabled with
    | false => simp [activated, shared, offered, hrtc]
    | true =>
      simp only [activated, shared, offered, hrtc, if_true, Bool.true_and, List.filter_append]
      by_cases hpeer : .ipv4Rtc ∈ n.peerFamilies
      · simp [hpeer]
      · simp [hpeer, hlisted]

end Config

namespace Runner

variable {σ : Type} [Engine σ]

theorem config_step (r : Runner σ) : r.step.worker.config = r.worker.config := by
  cases r.step_moves with
  | goesOn h _ => exact h.config
  | begins u h hw _ _ =>
    rw [hw]
    exact h.config
  | establishes u h hw _ _ =>
    rcases h with h | ⟨fs, h⟩
    · exact hw.config.trans h.config
    · exact hw.config.trans h.config
  | hears u h _ _ _ => exact h.config
  | takes e rest _ h _ _ => exact h.config
  | cleans u h hw _ =>
    obtain ⟨v, hv, hclean⟩ := u.stopAndClean_cases
    rw [hclean] at hw
    exact hw.config.trans (hv.config.trans h.config)

theorem config_of_leads {w : Worker σ} {r : Runner σ} (h : Leads Running (start w) r) :
    r.worker.config = w.config := by
  induction h with
  | refl => rfl
  | tail _ hmove ih =>
    obtain ⟨s, events, -⟩ := hmove
    exact (config_step _).trans ih

end Runner

namespace Worker

variable {σ : Type}

/-- The families of the worker are those that the operations leave it with. -/
structure Settled (c : Config) (os : List Operation) (w : Worker σ) : Prop where
  config : w.config = c
  active : w.activeFamilies = c.activated (agreed? os)
  rtc : w.rtcActive = (c.rtcEnabled && w.activeFamilies.contains .ipv4Rtc)
  connected : (agreed? os).isSome → w.connection.isSome

variable {config : Config} {os os' : List Operation} {w w' : Worker σ}

theorem Settled.keeps (h : Settled config os w) (hw : w.Keeps w') (ho : agreed? os' = agreed? os) :
    Settled config os' w' := by
  refine ⟨hw.config.trans h.config, ?_, ?_, fun hsome => ?_⟩
  · rw [hw.active, ho, h.active]
  · rw [hw.rtc, hw.active, h.rtc]
  · rw [hw.connection]
    exact h.connected (ho ▸ hsome)

/-- Without an agreement nothing is active. -/
theorem settled_of_none (hconfig : w.config = config) (hactive : w.activeFamilies = [])
    (hrtc : w.rtcActive = false) (ho : agreed? os = none) : Settled config os w := by
  refine ⟨hconfig, ?_, ?_, fun hsome => ?_⟩
  · rw [hactive, ho]
    rfl
  · rw [hrtc, hactive]
    simp
  · rw [ho] at hsome
    cases hsome

variable [Engine σ]

/-- What an attempt begins with. -/
theorem beginAttempt_families (w : Worker σ) : w.beginAttempt.config = w.config ∧
    w.beginAttempt.activeFamilies = [] ∧ w.beginAttempt.rtcActive = false ∧
    w.beginAttempt.connection.isSome := by
  obtain ⟨u, hu, hw⟩ := w.beginAttempt_cases
  rw [hw]
  exact ⟨hu.config, hu.active, hu.rtc, rfl⟩

/-- Every operation leaves the worker with the families that it should. -/
theorem Settled.performs (h : Settled config os w) {o : Operation} (ho : Performs w o w') :
    Settled config (o :: os) w' := by
  obtain ⟨hconfig, hactive, hrtc, hconnection⟩ := w.beginAttempt_families
  cases ho with
  | @connects _ n hattempt hn =>
    rcases hattempt.cases (by simp) with ⟨m, -, hm, hagree⟩ | ⟨hne, -⟩
    · -- what was agreed is what the engine still holds
      cases hm.symm.trans hn
      have hsame : w.beginAttempt.config = config := hconfig.trans h.config
      refine ⟨hagree.config.trans hsame, ?_, ?_, fun _ => ?_⟩
      · rw [hagree.active, agree, hsame]
        rfl
      · rw [hagree.rtc, hagree.active]
        simp only [agree, hsame]
      · rw [hagree.connection]
        exact hconnection
    · exact absurd rfl hne
  | fails hattempt =>
    rcases hattempt.cases (by simp) with ⟨n, hok, -⟩ | ⟨-, hgives⟩
    · cases hok
    · exact settled_of_none ((hgives.config.trans hconfig).trans h.config)
        (hgives.active.trans hactive) (hgives.rtc.trans hrtc) rfl
  | establishes => exact h.keeps w.gives_toEstablished.keeps rfl
  | receives s _ hread =>
    have hcases := (w.within s).readMessage_cases
    rw [hread] at hcases
    rcases hcases with hg | ⟨u, -, hg, -⟩
    · exact h.keeps ((w.gives_within s).trans hg).keeps rfl
    · exact h.keeps ((w.gives_within s).trans hg).keeps rfl
  | receivesNothing => exact h.keeps (Gives.refl w).keeps rfl
  | publishes kind route => exact h.keeps (w.gives_publish kind route).keeps rfl
  | encodes e => exact h.keeps (w.gives_encodeEvent e).keeps rfl
  | sends data => exact h.keeps (w.gives_send data).keeps rfl
  | enqueues e => exact h.keeps ⟨rfl, rfl, rfl, rfl⟩ rfl
  | takes =>
    refine h.keeps ?_ rfl
    unfold nextEvent
    split
    · exact (Gives.refl w).keeps
    · exact ⟨rfl, rfl, rfl, rfl⟩
  | cleans =>
    obtain ⟨u, hu, hw⟩ := w.stopAndClean_cases
    obtain ⟨hclean, -⟩ := w.stopAndClean_spec
    refine settled_of_none ?_ hclean.families hclean.rtc rfl
    rw [hw]
    exact hu.config.trans h.config
  | runs hleads hresult =>
    obtain ⟨_, _, htidy⟩ := Runner.exists_tidy hleads
    obtain ⟨hclean, -⟩ := htidy.ended _ hresult
    exact settled_of_none ((Runner.config_of_leads hleads).trans h.config) hclean.families
      hclean.rtc rfl

theorem settled_of_reached (h : Reached config os w) : Settled config os w := by
  induction h with
  | new peer engine index => exact settled_of_none rfl rfl rfl rfl
  | around _ s outbox ih => exact ih.keeps ⟨rfl, rfl, rfl, rfl⟩ rfl
  | performs _ ho ih => exact ih.performs ho

/-- **The active families reflect the last negotiation.** Whatever was asked of a worker,
    its active families are the offered ones, in order, that the peer offered in the OPEN
    of the last attempt, if that attempt succeeded and no clean-up followed; otherwise,
    and always without a connection, there are none.  Constraints are in force just when
    they are enabled and their family is active.  With a valid configuration no family is
    active twice, and that of constraints stands last, just when they are in force. -/
theorem families_of_reached (config : Config) (os : List Operation) (w : Worker σ)
    (h : Reached config os w) :
    w.activeFamilies = ((agreed? os).elim [] fun n =>
      config.offered.filter fun f => n.peerFamilies.contains f) ∧
    (w.rtcActive = true ↔ config.rtcEnabled = true ∧ .ipv4Rtc ∈ w.activeFamilies) ∧
    (w.connection = none → w.activeFamilies = [] ∧ w.rtcActive = false) ∧
    (config.validate = .ok () → w.activeFamilies.Nodup ∧
      ∃ fs, .ipv4Rtc ∉ fs ∧
        w.activeFamilies = fs ++ if w.rtcActive then [.ipv4Rtc] else []) := by
  obtain ⟨-, hactive, hrtc, hconnected⟩ := settled_of_reached h
  refine ⟨?_, ?_, fun hnone => ?_, fun hvalid => ?_⟩
  · rw [hactive]
    cases agreed? os with
    | none => rfl
    | some n => rfl
  · rw [hrtc, Bool.and_eq_true, List.contains_iff_mem]
  · have hagreed : agreed? os = none := by
      cases hn : agreed? os with
      | none => rfl
      | some n =>
        have hsome := hconnected (by rw [hn]; rfl)
        rw [hnone] at hsome
        cases hsome
    have hempty : w.activeFamilies = [] := by
      rw [hactive, hagreed]
      rfl
    refine ⟨hempty, ?_⟩
    rw [hrtc, hempty]
    simp
  · rw [hrtc, hactive]
    exact ⟨Config.nodup_activated hvalid _, Config.activated_eq_append hvalid _⟩

/-! ## A peer that repeats its families -/

def Sample.repeated : List Family := [.ipv4Rtc, .ipv4MplsVpn, .ipv4Rtc, .ipv4MplsVpn]

/-- The peer offers each family twice; the first attempt to reach it fails. -/
def Sample.repeating : Worker Script :=
  .sample (.sample true)
    (({ steps := [.error (.lostConnection "reset")] } : Script).negotiate Sample.repeated 90)

/-- The worker makes an attempt that takes a single move. -/
def Sample.attempted (w : Worker Script) : Worker Script := (w.beginAttempt.attemptStep .asking).1

theorem sample_families_of_reached : ∃ os,
    Reached Sample.repeating.config os (Sample.attempted (Sample.attempted Sample.repeating)) ∧
    Sample.repeating.config.validate = .ok () ∧
    (Sample.attempted (Sample.attempted Sample.repeating)).activeFamilies =
      [.ipv4MplsVpn, .ipv4Rtc] ∧
    (Sample.attempted (Sample.attempted Sample.repeating)).activeFamilies.Nodup ∧
    (Sample.attempted (Sample.attempted Sample.repeating)).rtcActive = true := by
  have hvalid : Sample.repeating.config.validate = .ok () :=
    (Config.validate_eq_ok_iff _).2 (by decide)
  have hfirst : Performs Sample.repeating (.connect (.error (.lostConnection "reset")))
      (Sample.attempted Sample.repeating) :=
    .fails (.moves ⟨Sample.repeating.beginAttempt.engine, 0, {}⟩ (by simp) .ends)
  have hsecond : Performs (Sample.attempted Sample.repeating)
      (.connect (.ok ⟨90, ⟨4, 65000, 90, ⟨192, 0, 2, 254⟩, Sample.repeated⟩⟩))
      (Sample.attempted (Sample.attempted Sample.repeating)) :=
    .connects (.moves ⟨(Sample.attempted Sample.repeating).beginAttempt.engine, 0, {}⟩ (by simp)
      .ends) rfl
  have hreached := ((Reached.new _ _ _).performs hfirst).performs hsecond
  obtain ⟨hactive, hrtc, -, hdistinct⟩ := families_of_reached _ _ _ hreached
  have hfamilies : (Sample.attempted (Sample.attempted Sample.repeating)).activeFamilies =
      [.ipv4MplsVpn, .ipv4Rtc] := by
    rw [hactive]
    decide
  refine ⟨_, hreached, hvalid, hfamilies, (hdistinct hvalid).1, hrtc.2 ⟨rfl, ?_⟩⟩
  rw [hfamilies]
  exact List.mem_cons_of_mem _ List.mem_cons_self

end Worker

end RouteExchange
