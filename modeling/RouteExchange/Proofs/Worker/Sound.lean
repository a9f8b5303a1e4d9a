/-
  What a running worker asks for, and when.

  `Runner.Sound` is the invariant of a worker that runs: its commands name its
  inboxes epoch by epoch, and what it asked for in the present epoch was asked for
  in the session it is in (`Runner.Asked`), in an active family, and where
  constraints are in force, because the peer announced one.  Every move keeps it
  (`Sound.step`).
-/
import RouteExchange.Proofs.Bus.Epochs
import RouteExchange.Proofs.Worker.Moves

namespace RouteExchange

namespace Worker

variable {σ : Type}

/-- The peer announced a constraint on this route target in the present session. -/
def Announced (w : Worker σ) (target : Option RouteTarget) : Prop :=
  ∃ u n, .read (.ok (.update u)) ∈ w.session ∧ n ∈ u.nlris ∧ n.family.isRtc = true ∧
    n.action = .announced ∧ n.target = target

theorem Gives.announced {w u : Worker σ} {cs : List Bus.Command} (h : Gives w cs u)
    {target : Option RouteTarget} (ha : w.Announced target) : u.Announced target := by
  obtain ⟨x, n, hread, hn⟩ := ha
  exact ⟨x, n, h.mem_session hread, hn⟩

/-! ## The commands of an UPDATE -/

section
variable (w : Worker σ)

theorem from_constraintCall (kind : Route.Kind) (target : Option RouteTarget) (f : Family) :
    (w.constraintCall kind target f).From w.id w.address := by
  cases kind with
  | advertise => exact ⟨rfl, rfl⟩
  | withdraw => exact rfl

theorem from_routeCalls (kind : Route.Kind) (route : Route) :
    ∀ c ∈ w.routeCalls kind route, c.From w.id w.address := by
  intro c hc
  rcases List.mem_cons.1 hc with rfl | hc
  · cases kind with
    | advertise => exact rfl
    | withdraw => exact rfl
  · split at hc
    · obtain ⟨f, -, rfl⟩ := List.mem_map.1 hc
      exact w.from_constraintCall _ _ f
    · cases hc

theorem from_updateCalls (u : Update) : ∀ c ∈ w.updateCalls u, c.From w.id w.address := by
  intro c hc
  obtain ⟨x, -, hx⟩ := List.mem_flatMap.1 hc
  exact w.from_routeCalls _ _ c hx

theorem from_firstCalls : ∀ c ∈ w.firstCalls, c.From w.id w.address := by
  intro c hc
  obtain ⟨f, -, rfl⟩ := List.mem_map.1 hc
  exact w.from_constraintCall _ _ f

theorem mem_of_kinds? {ns : List Nlri} {ks : List (Route.Kind × Nlri)} (h : kinds? ns = some ks)
    {x : Route.Kind × Nlri} (hx : x ∈ ks) :
    x.2 ∈ ns ∧ Route.Kind.ofAction? x.2.action = some x.1 := by
  induction ns generalizing ks with
  | nil =>
    cases h
    cases hx
  | cons n ns ih =>
    rw [kinds?] at h
    split at h
    · next k ks' hk hks =>
      cases h
      rcases List.mem_cons.1 hx with rfl | hx
      · exact ⟨List.mem_cons_self, hk⟩
      · obtain ⟨hmem, haction⟩ := ih hks hx
        exact ⟨List.mem_cons_of_mem n hmem, haction⟩
    · cases h

/-- An UPDATE asks for routes only where it announces a constraint. -/
theorem announced_of_subscribe {u : Update} {name : String} {inbox : Inbox} {i : Subscription}
    (h : .subscribe name inbox i ∈ w.updateCalls u) : i.family ∈ w.activeFamilies ∧
      ∃ n ∈ u.nlris, n.family.isRtc = true ∧ n.action = .announced ∧ n.target = i.target := by
  obtain ⟨⟨kind, n⟩, hx, hc⟩ := List.mem_flatMap.1 h
  obtain ⟨ks, hks⟩ : ∃ ks, kinds? u.nlris = some ks := by
    cases hk : kinds? u.nlris with
    | none =>
      rw [hk] at hx
      cases hx
    | some ks => exact ⟨ks, rfl⟩
  rw [hks, Option.getD_some] at hx
  obtain ⟨hn, haction⟩ := mem_of_kinds? hks hx
  cases kind with
  | withdraw =>
    rcases List.mem_cons.1 hc with hc | hc
    · cases hc
    · split at hc
      · obtain ⟨f, -, hf⟩ := List.mem_map.1 hc
        cases hf
      · cases hc
  | advertise =>
    rcases List.mem_cons.1 hc with hc | hc
    · cases hc
    · split at hc
      · next hrtc =>
        obtain ⟨f, hf, heq⟩ := List.mem_map.1 hc
        cases heq
        refine ⟨(List.mem_filter.1 hf).1, n, hn, hrtc, ?_, rfl⟩
        cases ha : n.action with
        | announced => rfl
        | unset => simp [ha, Route.Kind.ofAction?] at haction
        | withdrawn => simp [ha, Route.Kind.ofAction?] at haction
      · cases hc

end

end Worker

namespace Runner

open Worker (Gives)

variable {σ : Type}

/-- The interest was asked for in the session the worker is in: it is one in an
    active family, and if constraints are in force and it is not one in these, the
    peer announced its route target. -/
structure Asked (r : Runner σ) (i : Subscription) : Prop where
  inSession : r.phase.inSession = true
  called : .called (.subscribe r.worker.id r.worker.address i) ∈ r.worker.session
  active : i.family ∈ r.worker.activeFamilies
  announced : r.worker.rtcActive = true → i.family ≠ .ipv4Rtc → r.worker.Announced i.target

/-- The commands of a running worker fit its sessions. -/
structure Sound (r : Runner σ) : Prop where
  epochs : Bus.Epochs r.worker.id r.worker.index r.worker.calls r.worker.epoch
  rtc : r.worker.rtcActive = true → .ipv4Rtc ∈ r.worker.activeFamilies
  asked : ∀ i, .subscribe r.worker.id r.worker.address i ∈ r.worker.calls → r.Asked i

theorem Asked.gives {r r' : Runner σ} {i : Subscription} (h : r.Asked i) {cs : List Bus.Command}
    (hg : Gives r.worker cs r'.worker) (hp : r'.phase.inSession = true) : r'.Asked i := by
  refine ⟨hp, ?_, hg.active ▸ h.active, fun hrtc hi => ?_⟩
  · rw [hg.id, hg.address]
    exact hg.mem_session h.called
  · exact hg.announced (h.announced (hg.rtc ▸ hrtc) hi)

/-- A fresh worker asked for nothing yet. -/
theorem sound_start (config : Config) (peer : Ip) (engine : σ) (index : Nat) :
    (start (.new config peer engine index)).Sound := by
  refine ⟨.nil, ?_, ?_⟩
  · intro hrtc
    cases hrtc
  · intro i hi
    cases hi

/-- The two queues of a worker do not matter. -/
theorem Sound.with_queues {r : Runner σ} (h : r.Sound) (inbox : List WorkerEvent)
    (outbox : List Bus.Command) : Sound ⟨{ r.worker with inbox, outbox }, r.phase⟩ := by
  refine ⟨h.epochs, h.rtc, fun i hi => ?_⟩
  obtain ⟨hin, hcalled, hactive, hannounced⟩ := h.asked i hi
  exact ⟨hin, hcalled, hactive, hannounced⟩

theorem Sound.gives {r r' : Runner σ} (h : r.Sound) (hg : Gives r.worker [] r'.worker)
    (hp : r'.phase.inSession = r.phase.inSession) : r'.Sound := by
  refine ⟨?_, fun hrtc => ?_, fun i hi => ?_⟩
  · rw [hg.id, hg.index, hg.epoch, hg.calls_eq]
    exact h.epochs
  · rw [hg.active]
    exact h.rtc (hg.rtc ▸ hrtc)
  · rw [hg.id, hg.address, hg.calls_eq] at hi
    have hasked := h.asked i hi
    exact hasked.gives hg (hp.trans hasked.inSession)

section
variable {r r' : Runner σ} (h : r.Sound)
include h

theorem Sound.establishes {u : Worker σ}
    (hg : Gives r.worker [] u ∨ ∃ fs, Gives (r.worker.agree fs) [] u)
    (hw : Gives u u.firstCalls r'.worker) (hp : r.phase.inSession = false)
    (hp' : r'.phase.inSession = true) : r'.Sound := by
  -- the worker before the first commands: it asked for nothing yet
  have hu : u.id = r.worker.id ∧ u.address = r.worker.address ∧ u.index = r.worker.index ∧
      u.epoch = r.worker.epoch ∧ u.calls = r.worker.calls ∧
      (u.rtcActive = true → .ipv4Rtc ∈ u.activeFamilies) := by
    rcases hg with hg | ⟨fs, hg⟩
    · refine ⟨hg.id, hg.address, hg.index, hg.epoch, hg.calls_eq, ?_⟩
      rw [hg.rtc, hg.active]
      exact h.rtc
    · refine ⟨hg.id, hg.address, hg.index, hg.epoch, hg.calls_eq, ?_⟩
      rw [hg.rtc, hg.active]
      intro hrtc
      exact List.contains_iff_mem.1 ((Bool.and_eq_true _ _).mp hrtc).2
  obtain ⟨hid, haddress, hindex, hepoch, hcalls, hrtcActive⟩ := hu
  refine ⟨?_, fun hrtc => ?_, fun i hi => ?_⟩
  · rw [hw.id, hid, hw.index, hindex, hw.epoch, hepoch, hw.calls, hcalls]
    refine h.epochs.append fun c hc => ?_
    have := u.from_firstCalls c hc
    rwa [hid, haddress] at this
  · rw [hw.active]
    exact hrtcActive (hw.rtc ▸ hrtc)
  · rw [hw.id, hw.address, hw.calls, hcalls] at hi
    rcases List.mem_append.1 hi with hi | hi
    · rw [hid, haddress] at hi
      exact absurd ((h.asked i hi).inSession.symm.trans hp) (by simp)
    · refine ⟨hp', ?_, ?_, fun hrtc hne => ?_⟩
      · rw [hw.id, hw.address]
        exact hw.called_mem_session hi
      · obtain ⟨f, hf, heq⟩ := List.mem_map.1 hi
        cases heq
        rw [hw.active]
        split at hf
        · next hrtc =>
          rw [List.mem_singleton.1 hf]
          exact hrtcActive hrtc
        · exact hf
      · obtain ⟨f, hf, heq⟩ := List.mem_map.1 hi
        cases heq
        rw [if_pos (hw.rtc ▸ hrtc)] at hf
        exact absurd (List.mem_singleton.1 hf) hne

theorem Sound.hears {u : Update} (hg : Gives r.worker (r.worker.updateCalls u) r'.worker)
    (hread : .read (.ok (.update u)) ∈ r'.worker.session) (hp' : r'.phase.inSession = true) :
    r'.Sound := by
  refine ⟨?_, fun hrtc => ?_, fun i hi => ?_⟩
  · rw [hg.id, hg.index, hg.epoch, hg.calls]
    exact h.epochs.append (r.worker.from_updateCalls u)
  · rw [hg.active]
    exact h.rtc (hg.rtc ▸ hrtc)
  · rw [hg.id, hg.address, hg.calls] at hi
    rcases List.mem_append.1 hi with hi | hi
    · exact (h.asked i hi).gives hg hp'
    · obtain ⟨hactive, n, hn, hrtc, haction, htarget⟩ := r.worker.announced_of_subscribe hi
      refine ⟨hp', ?_, hg.active ▸ hactive, fun _ _ => ⟨u, n, hread, hn, hrtc, haction, htarget⟩⟩
      rw [hg.id, hg.address]
      exact hg.called_mem_session hi

theorem Sound.begins (hw : Worker.Opened r.worker r'.worker) (hp : r.phase.inSession = false) :
    r'.Sound := by
  refine ⟨?_, fun hrtc => ?_, fun i hi => ?_⟩
  · rw [hw.id, hw.index, hw.epoch, hw.calls]
    exact h.epochs
  · exact absurd (hw.rtc.symm.trans hrtc) (by simp)
  · -- nothing is asked for outside of a session
    rw [hw.id, Worker.address, hw.index, hw.epoch, hw.calls] at hi
    exact absurd ((h.asked i hi).inSession.symm.trans hp) (by simp)

theorem Sound.cleans (hw : Worker.Cleaned r.worker r'.worker) : r'.Sound := by
  refine ⟨?_, fun hrtc => ?_, fun i hi => ?_⟩
  · rw [hw.id, hw.index, hw.epoch, hw.calls]
    exact h.epochs.cleans
  · exact absurd (hw.rtc.symm.trans hrtc) (by simp)
  · -- the new inbox was never named
    rw [hw.calls, Worker.address, hw.epoch, hw.index] at hi
    rcases List.mem_append.1 hi with hi | hi
    · exact absurd (h.epochs.le_of_mem hi) (Nat.not_succ_le_self _)
    · simp at hi

variable [Engine σ]

/-- **Every move keeps a worker sound.** -/
theorem Sound.step : r.step.Sound := by
  cases r.step_moves with
  | goesOn hg hp => exact h.gives hg hp
  | begins u hg hw hp _ => exact h.begins (hw ▸ hg.opened) hp
  | establishes u hg hw hp hp' => exact h.establishes hg hw hp hp'
  | hears u hg hread _ hp' => exact h.hears hg hread hp'
  | takes e rest _ hg hp hp' =>
    exact (h.with_queues rest r.worker.outbox).gives hg (hp'.trans hp.symm)
  | cleans u hg hw _ => exact h.cleans (hg.cleaned hw)

end

/-! ## What others see of a move -/

/-- A worker that stays sound gives some commands, and takes events from its inbox
    or gets a new one. -/
structure Advances (r r' : Runner σ) : Prop where
  sound : r'.Sound
  id : r'.worker.id = r.worker.id
  index : r'.worker.index = r.worker.index
  gives : ∃ cs, r'.worker.calls = r.worker.calls ++ cs ∧ r'.worker.outbox = r.worker.outbox ++ cs
  takes : (r'.worker.epoch = r.worker.epoch ∧ ∃ es, r.worker.routes = es ++ r'.worker.routes) ∨
    (r'.worker.epoch = r.worker.epoch + 1 ∧ r'.worker.routes = [])

theorem Advances.of_gives {r r' : Runner σ} {w : Worker σ} {cs : List Bus.Command}
    (hsound : r'.Sound) (hg : Gives w cs r'.worker) (hid : w.id = r.worker.id)
    (hindex : w.index = r.worker.index) (hepoch : w.epoch = r.worker.epoch)
    (hcalls : w.calls = r.worker.calls) (houtbox : w.outbox = r.worker.outbox)
    (es : List Route.Event) (hroutes : r.worker.routes = es ++ w.routes) : Advances r r' :=
  ⟨hsound, hg.id.trans hid, hg.index.trans hindex,
    ⟨cs, hg.calls.trans (congrArg (· ++ cs) hcalls), hg.outbox.trans (congrArg (· ++ cs) houtbox)⟩,
    Or.inl ⟨hg.epoch.trans hepoch, es, hroutes.trans (congrArg (es ++ ·) hg.routes.symm)⟩⟩

theorem Sound.advances_within {r : Runner σ} (h : r.Sound) (s : Surroundings σ) :
    Advances r ⟨r.worker.within s, r.phase⟩ :=
  have hg := r.worker.gives_within s
  .of_gives (h.gives hg rfl) hg rfl rfl rfl rfl rfl [] rfl

theorem Sound.advances_step [Engine σ] {r : Runner σ} (h : r.Sound) : Advances r r.step := by
  have hsound := h.step
  cases r.step_moves with
  | goesOn hg _ => exact .of_gives hsound hg rfl rfl rfl rfl rfl [] rfl
  | begins u hg hw _ _ =>
    have hopened : Worker.Opened r.worker r.step.worker := hw ▸ hg.opened
    exact ⟨hsound, hopened.id, hopened.index,
      ⟨[], by simpa using hopened.calls, by simpa using hopened.outbox⟩,
      Or.inl ⟨hopened.epoch, [], hopened.routes.symm⟩⟩
  | establishes u hg hw _ _ =>
    rcases hg with hg | ⟨fs, hg⟩
    · exact .of_gives hsound (hg.trans hw) rfl rfl rfl rfl rfl [] rfl
    · exact .of_gives hsound (hg.trans hw) rfl rfl rfl rfl rfl [] rfl
  | hears u hg _ _ _ => exact .of_gives hsound hg rfl rfl rfl rfl rfl [] rfl
  | takes e rest hin hg _ _ =>
    refine .of_gives hsound hg rfl rfl rfl rfl rfl [e] ?_
    rw [Worker.routes, hin]
    rfl
  | cleans u hg hw _ =>
    have hcleaned := hg.cleaned hw
    exact ⟨hsound, hcleaned.id, hcleaned.index, ⟨_, hcleaned.calls, hcleaned.outbox⟩,
      Or.inr ⟨hcleaned.epoch, hcleaned.routes⟩⟩

end Runner

end RouteExchange
