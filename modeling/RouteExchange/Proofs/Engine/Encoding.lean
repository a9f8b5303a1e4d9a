/-
  Encoded UPDATEs.

  `Script.encodeUpdate_eq_ok_iff` says when an UPDATE can be encoded, and to which octets.
  The NLRIs can be read off them again, one record after another (`Script.readNlris?`), and the
  messages of a stream off their headers.  A route event is encoded as the UPDATE with its one
  NLRI.
-/
import Mathlib.Algebra.Ring.Nat
import RouteExchange.Engine.Script
import RouteExchange.Proofs.Message.Framing
import RouteExchange.Proofs.Sample
import RouteExchange.Worker.Send

namespace RouteExchange

namespace Script

/-! ## NLRIs -/

/-- The action with this code. -/
def ofActionCode? (code : UInt8) : Option Action :=
  match code.toNat with
  | 0 => some .unset
  | 1 => some .announced
  | 2 => some .withdrawn
  | _ => none

theorem ofActionCode?_actionCode (a : Action) : ofActionCode? (actionCode a) = some a := by
  cases a with
  | unset => rfl
  | announced => rfl
  | withdrawn => rfl

/-- What a body says of its NLRIs, one record after another, if nothing is left over: the
    family, the action, and the destination behind its length. -/
def readNlris? : Octets → Option (List (Family × Action × Octets))
  | [] => some []
  | hi :: lo :: safi :: code :: length :: rest =>
    match ofActionCode? code with
    | none => none
    | some action =>
      if length.toNat ≤ rest.length then
        (readNlris? (rest.drop length.toNat)).map
          ((⟨Octets.ofBe16 hi lo, safi⟩, action, rest.take length.toNat) :: ·)
      else none
  | _ => none
termination_by body => body.length
decreasing_by
  simp only [List.length_drop, List.length_cons]
  omega

/-- What there is to say of an NLRI on the wire. -/
def content (n : Nlri) : Family × Action × Octets := (n.family, n.action, n.network)

theorem length_encodeNlri (n : Nlri) : (encodeNlri n).length = 5 + n.network.length := by
  simp only [encodeNlri, List.length_append, Octets.length_be16, List.length_cons,
    List.length_nil]

theorem length_flatMap_encodeNlri (ns : List Nlri) :
    (ns.flatMap encodeNlri).length = (ns.map fun n => 5 + n.network.length).sum := by
  rw [List.length_flatMap]
  simp only [length_encodeNlri]

theorem readNlris?_append {n : Nlri} (hn : n.network.length ≤ 255) (rest : Octets) :
    readNlris? (encodeNlri n ++ rest) = (readNlris? rest).map (content n :: ·) := by
  obtain ⟨hi, lo, hbe, hafi⟩ := Octets.be16_eq n.family.afi
  have hlength : (UInt8.ofNat n.network.length).toNat = n.network.length := by
    rw [UInt8.toNat_ofNat', Nat.mod_eq_of_lt (by omega)]
  have hfront : encodeNlri n ++ rest = hi :: lo :: n.family.safi :: actionCode n.action ::
      UInt8.ofNat n.network.length :: (n.network ++ rest) := by
    simp only [encodeNlri, hbe, List.cons_append, List.nil_append]
  rw [hfront, readNlris?, ofActionCode?_actionCode]
  simp only [hlength, hafi]
  rw [if_pos (by simp), List.drop_left, List.take_left]
  rfl

/-- The NLRIs are read back from their octets. -/
theorem readNlris?_flatMap {ns : List Nlri} (h : ∀ n ∈ ns, n.network.length ≤ 255) :
    readNlris? (ns.flatMap encodeNlri) = some (ns.map content) := by
  induction ns with
  | nil => rw [List.flatMap_nil, readNlris?, List.map_nil]
  | cons n ns ih =>
    rw [List.flatMap_cons, readNlris?_append (h n List.mem_cons_self),
      ih fun m hm => h m (List.mem_cons_of_mem n hm), Option.map_some, List.map_cons]

/-! ## UPDATEs -/

/-- An UPDATE can be encoded: the engine is in a state to, each destination fits behind a
    length of one octet, and the whole into one of two. -/
structure Encodes (s : Script) (u : Update) : Prop where
  allowed : s.failEncoding = false
  negotiated : s.negotiated.isSome = true
  networks : ∀ n ∈ u.nlris, n.network.length ≤ 255
  total : Header.size + (u.nlris.map fun n => 5 + n.network.length).sum ≤ 65535

theorem any_tooLong_eq_false_iff (ns : List Nlri) :
    ns.any tooLong = false ↔ ∀ n ∈ ns, n.network.length ≤ 255 := by
  rw [List.any_eq_false]
  refine forall₂_congr fun n _ => ?_
  rw [tooLong, decide_eq_true_eq]
  omega

/-- When an UPDATE is encoded, and to which octets. -/
theorem encodeUpdate_eq_ok_iff {s : Script} {u : Update} {bs : Octets} :
    s.encodeUpdate u = .ok bs ↔ s.Encodes u ∧ ∃ h : Header,
      Header.ofBody? .update (u.nlris.flatMap encodeNlri).length = some h ∧
        bs = h.octets ++ u.nlris.flatMap encodeNlri := by
  constructor
  · intro h
    unfold encodeUpdate at h
    split at h
    · cases h
    · next hallowed =>
      split at h
      · cases h
      · next hnegotiated =>
        split at h
        · cases h
        · next hnetworks =>
          simp only at h
          split at h
          · next header hheader =>
            cases h
            obtain ⟨htotal, -⟩ := Header.ofBody?_eq_some_iff.1 hheader
            rw [length_flatMap_encodeNlri] at htotal
            refine ⟨⟨?_, ?_, ?_, htotal⟩, header, hheader, rfl⟩
            · exact Bool.eq_false_iff.2 hallowed
            · exact Option.isSome_iff_ne_none.2 (mt Option.isNone_iff_eq_none.2 hnegotiated)
            · exact (any_tooLong_eq_false_iff _).1 (Bool.eq_false_iff.2 hnetworks)
          · cases h
  · rintro ⟨⟨hallowed, hnegotiated, hnetworks, -⟩, header, hheader, rfl⟩
    have hsome : s.negotiated.isNone = false := by
      rw [← Option.not_isSome, hnegotiated]
      rfl
    unfold encodeUpdate
    simp only [hallowed, hsome, (any_tooLong_eq_false_iff _).2 hnetworks, hheader,
      Bool.false_eq_true, if_false]

theorem exists_encodeUpdate_iff {s : Script} {u : Update} :
    (∃ bs, s.encodeUpdate u = .ok bs) ↔ s.Encodes u := by
  constructor
  · rintro ⟨bs, hbs⟩
    exact (encodeUpdate_eq_ok_iff.1 hbs).1
  · intro h
    have htotal := h.total
    rw [← length_flatMap_encodeNlri] at htotal
    exact ⟨_, encodeUpdate_eq_ok_iff.2
      ⟨h, _, Header.ofBody?_eq_some_iff.2 ⟨htotal, rfl⟩, rfl⟩⟩

theorem frames_of_encodeUpdate {s : Script} {u : Update} {bs : Octets}
    (h : s.encodeUpdate u = .ok bs) : Header.Frames bs := by
  obtain ⟨-, header, hheader, rfl⟩ := encodeUpdate_eq_ok_iff.1 h
  exact Header.frames_of_ofBody? hheader

/-- The octets of an UPDATE: the marker, their number, the type, and the NLRIs. -/
theorem layout_of_encodeUpdate {s : Script} {u : Update} {bs : Octets}
    (h : s.encodeUpdate u = .ok bs) : ∃ hi lo body,
      bs = List.replicate 16 0xFF ++ [hi, lo, 2] ++ body ∧
      hi.toNat * 256 + lo.toNat = bs.length ∧
      readNlris? body = some (u.nlris.map fun n => (n.family, n.action, n.network)) := by
  obtain ⟨henc, header, hheader, rfl⟩ := encodeUpdate_eq_ok_iff.1 h
  obtain ⟨hi, lo, hoctets, hlength⟩ := Header.octets_of_ofBody? hheader
  exact ⟨hi, lo, _, hoctets, hlength, readNlris?_flatMap henc.networks⟩

/-- A script encodes no UPDATE to nothing. -/
theorem encode_ne_nil (u : Update) (s : Script) : Engine.encode u s ≠ .ok [] :=
  fun h => absurd (Header.size_le_of_frames (frames_of_encodeUpdate h)) (by decide)

/-- An UPDATE has another type than a KEEPALIVE. -/
theorem encode_ne_keepalive (u : Update) (s : Script) :
    Engine.encode u s ≠ .ok Header.keepalive := by
  intro h
  obtain ⟨hi, lo, body, hlayout, -⟩ := layout_of_encodeUpdate h
  have htype : Header.keepalive[18]? = some 2 := by rw [hlayout]; rfl
  cases htype

end Script

namespace Worker

/-! ## Route events -/

theorem encodeEvent_of_none {w : Worker Script} (h : w.connection = none) (e : Route.Event) :
    (w.encodeEvent e).1 = [] := by
  rw [encodeEvent, h]
  rfl

theorem encodeEvent_of_error {w : Worker Script} {e : Route.Event} {err : EngineError}
    (h : w.engine.encodeUpdate (updateFor e) = .error err) : (w.encodeEvent e).1 = [] := by
  unfold encodeEvent
  split
  · rfl
  · simp only [Engine.encode, h]
    rfl

theorem encodeEvent_of_ok {w : Worker Script} (hw : w.connection.isSome) {e : Route.Event}
    {bs : Octets} (h : w.engine.encodeUpdate (updateFor e) = .ok bs) :
    (w.encodeEvent e).1 = bs := by
  obtain ⟨n, hn⟩ := Option.isSome_iff_exists.1 hw
  unfold encodeEvent
  simp only [hn, Engine.encode, h]

/-- A route event is encoded to nothing just where its UPDATE cannot be encoded. -/
theorem encodeEvent_eq_nil_iff (w : Worker Script) (e : Route.Event) :
    (w.encodeEvent e).1 = [] ↔ w.connection = none ∨ ¬ w.engine.Encodes (updateFor e) := by
  cases hc : w.connection with
  | none => simp [encodeEvent_of_none hc]
  | some n =>
    rw [← Script.exists_encodeUpdate_iff]
    cases h : w.engine.encodeUpdate (updateFor e) with
    | error err => simp [encodeEvent_of_error h]
    | ok bs =>
      have hne : bs ≠ [] := by
        rintro rfl
        exact Script.encode_ne_nil _ _ h
      rw [encodeEvent_of_ok (by simp [hc]) h]
      simp [hne]

/-- **UPDATEs can be read back.** An UPDATE is encoded just where encoding is not made to
    fail, something was agreed with the peer, each destination has at most 255 octets, and the
    message at most 65535.  The octets are the marker, their number, the type, and a body off
    which the families, actions and destinations are read in order.  A stream of encoded
    UPDATEs and KEEPALIVEs is taken apart into them by their lengths.  A route event is encoded
    to nothing just without a connection or where encoding fails, and otherwise to the UPDATE
    of its NLRI with the action of the event, whatever the action of the NLRI was. -/
theorem encoding_readable :
    (∀ (s : Script) (u : Update),
      ((∃ bs, s.encodeUpdate u = .ok bs) ↔
        s.failEncoding = false ∧ s.negotiated.isSome = true ∧
        (∀ n ∈ u.nlris, n.network.length ≤ 255) ∧
        19 + (u.nlris.map fun n => 5 + n.network.length).sum ≤ 65535) ∧
      ∀ bs, s.encodeUpdate u = .ok bs → ∃ hi lo body,
        bs = List.replicate 16 0xFF ++ [hi, lo, 2] ++ body ∧
        hi.toNat * 256 + lo.toNat = bs.length ∧
        Script.readNlris? body =
          some (u.nlris.map fun n => (n.family, n.action, n.network))) ∧
    (∀ ms : List Octets,
      (∀ m ∈ ms, m = Header.keepalive ∨ ∃ (s : Script) (u : Update), s.encodeUpdate u = .ok m) →
      Header.split? ms.flatten = some ms) ∧
    ∀ (w : Worker Script) (n : Nlri) (as : Attributes) (kind : Route.Kind) (source : String),
      ((w.encodeEvent ⟨kind, ⟨n, as⟩, source⟩).1 = [] ↔ w.connection = none ∨
        ∀ bs, w.engine.encodeUpdate ⟨[{ n with action := kind.action }], as⟩ ≠ .ok bs) ∧
      (w.connection.isSome → ∀ bs,
        w.engine.encodeUpdate ⟨[{ n with action := kind.action }], as⟩ = .ok bs →
        ∀ a : Action,
          (w.encodeEvent ⟨kind, ⟨{ n with action := a }, as⟩, source⟩).1 = bs) := by
  refine ⟨fun s u => ⟨?_, fun bs => Script.layout_of_encodeUpdate⟩, fun ms hms => ?_,
    fun w n as kind source => ⟨?_, fun hw bs hbs a => encodeEvent_of_ok hw hbs⟩⟩
  · rw [Script.exists_encodeUpdate_iff]
    constructor
    · intro h
      exact ⟨h.allowed, h.negotiated, h.networks, h.total⟩
    · rintro ⟨hallowed, hnegotiated, hnetworks, htotal⟩
      exact ⟨hallowed, hnegotiated, hnetworks, htotal⟩
  · refine Header.split?_flatten fun m hm => ?_
    rcases hms m hm with rfl | ⟨s, u, hu⟩
    · exact Header.frames_keepalive
    · exact Script.frames_of_encodeUpdate hu
  · rw [encodeEvent_eq_nil_iff, ← Script.exists_encodeUpdate_iff, not_exists]
    rfl

/-- An NLRI of one octet. -/
def Sample.short : Nlri := .sample .unset [0xAA]

/-- A worker whose engine agreed with the peer. -/
def Sample.speaking : Worker Script :=
  { Worker.sample (.sample false) (Script.negotiate {} [.ipv4MplsVpn] 90) with
    connection := some 0 }

/-- The UPDATE that withdraws it. -/
def Sample.withdrawal : Octets :=
  List.replicate 16 0xFF ++ [0x00, 0x19, 0x02, 0x00, 0x01, 0x80, 0x02, 0x01, 0xAA]

theorem sample_encoding_readable :
    Sample.speaking.engine.encodeUpdate ⟨[{ Sample.short with action := .withdrawn }], ∅⟩ =
      .ok Sample.withdrawal ∧
    (∃ hi lo body, Sample.withdrawal = List.replicate 16 0xFF ++ [hi, lo, 2] ++ body ∧
      hi.toNat * 256 + lo.toNat = Sample.withdrawal.length ∧
      Script.readNlris? body = some [(.ipv4MplsVpn, .withdrawn, [0xAA])]) ∧
    Header.split? [Header.keepalive, Sample.withdrawal, Header.keepalive].flatten =
      some [Header.keepalive, Sample.withdrawal, Header.keepalive] ∧
    (Sample.speaking.encodeEvent ⟨.withdraw, ⟨Sample.short, ∅⟩, "p"⟩).1 = Sample.withdrawal := by
  have hencoded : Sample.speaking.engine.encodeUpdate
      ⟨[{ Sample.short with action := .withdrawn }], ∅⟩ = .ok Sample.withdrawal := rfl
  obtain ⟨hupdates, hstreams, hevents⟩ := encoding_readable
  refine ⟨hencoded, (hupdates _ _).2 _ hencoded, hstreams _ fun m hm => ?_, ?_⟩
  · simp only [List.mem_cons, List.not_mem_nil, or_false] at hm
    rcases hm with rfl | rfl | rfl
    · exact .inl rfl
    · exact .inr ⟨_, _, hencoded⟩
    · exact .inl rfl
  · exact (hevents _ Sample.short ∅ .withdraw "p").2 rfl _ hencoded .unset

end Worker

end RouteExchange
