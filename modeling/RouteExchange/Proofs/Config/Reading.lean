/-
  What is read of a configuration.

  A value is read as a configuration just if it says, field by field, what the configuration
  has there (`ofNode_eq_ok_iff`): no field is read from a wrong place, and none that may be
  missing is demanded.  For the families this means that they are accepted if all their texts
  denote families, distinct ones, and not that of route target constraints.
-/
import Mathlib.Data.List.Forall2
import RouteExchange.Config.Reader
import RouteExchange.Proofs.Config.Valid
import RouteExchange.Proofs.Text.Families
import RouteExchange.Proofs.Toml.Keys

namespace RouteExchange.Config

open Toml

/-! ## Fields -/

/-- The name of a field in a table. -/
def Field.name : Field → String
  | localAddress => "local_address"
  | peers => "peers"
  | port => "bgp_port"
  | localAs => "my_as"
  | rtcEnabled => "enable_rtc"
  | holdTime => "hold_time"
  | connectRetry => "connect_retry_secs"
  | families => "enabled_families"

/-- The place of a field in an array. -/
def Field.place : Field → Nat
  | localAddress => 0
  | peers => 1
  | port => 2
  | localAs => 3
  | rtcEnabled => 4
  | holdTime => 5
  | connectRetry => 6
  | families => 7

/-- The value of a field in a table, by its name, or in an array, by its place. -/
def field? (f : Field) : Node → Option Node
  | .table _ es => es.lookup f.name
  | v => (items? v).bind fun vs => vs[f.place]?

/-- An array of texts that are each read as the item at their place. -/
def Lists {α : Type} (Reads : String → α → Prop) (v : Node) (as : List α) : Prop :=
  ∃ vs, items? v = some vs ∧ List.Forall₂ (fun w a => ∃ s, w = .text s ∧ Reads s a) vs as

/-- The value says what the configuration has in the field. -/
def Says (v : Node) (c : Config) : Field → Prop
  | .localAddress => ∃ s, v = .text s ∧ V4.parse? s.toList = some c.localAddress
  | .peers => Lists (fun s a => Ip.parse? s.toList = some a) v c.peers
  | .port => v = .integer c.port.toNat
  | .localAs => v = .integer c.localAs.toNat
  | .rtcEnabled => v = .boolean c.rtcEnabled
  | .holdTime => v = .integer c.holdTime.toNat
  | .connectRetry => v = .integer c.connectRetry.toNat
  | .families => Lists Family.Denotes v c.families

/-- The field may be missing, and the configuration has its default. -/
def Defaults (c : Config) : Field → Prop
  | .localAddress | .localAs => False
  | .peers => c.peers = []
  | .port => c.port = 179
  | .rtcEnabled => c.rtcEnabled = false
  | .holdTime => c.holdTime = 180
  | .connectRetry => c.connectRetry = 10
  | .families => c.families = [.ipv4MplsVpn, .l2vpnEvpn, .ipv4FlowVpn]

/-- The configuration has in the field what the value of all fields gives it. -/
def Fits (v : Node) (c : Config) (f : Field) : Prop :=
  (field? f v).elim (Defaults c f) fun w => Says w c f

theorem lookup_fields {k : String} {f : Field} : fields.lookup k = some f ↔ k = f.name := by
  constructor
  · intro h
    obtain ⟨l, r, h, -⟩ := List.lookup_eq_some_iff.1 h
    have hnames : ∀ p ∈ fields, p.1 = p.2.name := by decide
    exact hnames (k, f) (by simp [h])
  · rintro rfl
    cases f <;> decide

/-! ## Values -/

theorem bind_eq_ok_iff {ε α β : Type} {x : Except ε α} {f : α → Except ε β} {b : β} :
    x >>= f = .ok b ↔ ∃ a, x = .ok a ∧ f a = .ok b := by
  cases x with
  | error e => exact iff_of_false (by rintro ⟨⟩) (by rintro ⟨a, ⟨⟩, -⟩)
  | ok a => exact ⟨fun h => ⟨a, rfl, h⟩, by rintro ⟨_, ⟨⟩, h⟩; exact h⟩

theorem expect_eq_ok_iff {α : Type} {x : Option α} {a : α} : expect x = .ok a ↔ x = some a := by
  cases x <;> simp [expect]

theorem text?_eq_some_iff {v : Node} {s : String} : text? v = some s ↔ v = .text s := by
  cases v <;> simp [text?]

theorem boolean?_eq_some_iff {v : Node} {b : Bool} : boolean? v = some b ↔ v = .boolean b := by
  cases v <;> simp [boolean?]

theorem number?_eq_some_iff {bound n : Nat} {v : Node} :
    number? bound v = some n ↔ v = .integer n ∧ n < bound := by
  cases v with
  | integer i =>
    simp only [number?, Node.integer.injEq]
    split <;> simp <;> omega
  | _ => simp [number?]

/-- A number that is read as a word is the number of that word. -/
theorem exists_number?_iff {α : Type} {size : Nat} {ofNat : Nat → α} {toNat : α → Nat}
    (hlt : ∀ x, toNat x < size) (hof : ∀ x, ofNat (toNat x) = x)
    (hto : ∀ n < size, toNat (ofNat n) = n) {v : Node} {x : α} :
    (∃ n, number? size v = some n ∧ ofNat n = x) ↔ v = .integer (toNat x) := by
  simp only [number?_eq_some_iff]
  constructor
  · rintro ⟨n, ⟨hv, hn⟩, rfl⟩
    rw [hto n hn, hv]
  · intro hv
    exact ⟨toNat x, ⟨hv, hlt x⟩, hof x⟩

theorem mapM_eq_some_iff {α β : Type} {f : α → Option β} {as : List α} {bs : List β} :
    as.mapM f = some bs ↔ List.Forall₂ (fun a b => f a = some b) as bs := by
  induction as generalizing bs with
  | nil => simp [eq_comm]
  | cons a as ih =>
    simp only [List.mapM_cons, Option.bind_eq_bind, Option.bind_eq_some_iff, ih, pure,
      Option.some.injEq, List.forall₂_cons_left_iff]
    simp [eq_comm]

theorem mapM_eq_ok_iff {ε α β : Type} {f : α → Except ε β} {as : List α} {bs : List β} :
    as.mapM f = .ok bs ↔ List.Forall₂ (fun a b => f a = .ok b) as bs := by
  induction as generalizing bs with
  | nil => simp [pure, Except.pure, eq_comm]
  | cons a as ih =>
    simp only [List.mapM_cons, bind_eq_ok_iff, ih, pure, Except.pure, Except.ok.injEq,
      List.forall₂_cons_left_iff]
    simp [eq_comm]

theorem ip?_eq_some_iff {v : Node} {a : Ip} :
    ip? v = some a ↔ ∃ s, v = .text s ∧ Ip.parse? s.toList = some a := by
  simp only [ip?, Option.bind_eq_some_iff, text?_eq_some_iff]

theorem v4?_eq_some_iff {v : Node} {a : V4} :
    v4? v = some a ↔ ∃ s, v = .text s ∧ V4.parse? s.toList = some a := by
  simp only [v4?, Option.bind_eq_some_iff, text?_eq_some_iff]

theorem family_eq_ok_iff {v : Node} {f : Family} :
    family v = .ok f ↔ ∃ s, v = .text s ∧ Family.Denotes s f := by
  simp only [family, bind_eq_ok_iff, expect_eq_ok_iff, text?_eq_some_iff,
    ← Family.parse_eq_ok_iff]
  refine exists_congr fun s => and_congr_right fun _ => ?_
  cases Family.parse s <;> simp

theorem peers_eq_some_iff {v : Node} {as : List Ip} :
    ((items? v).bind fun vs => vs.mapM ip?) = some as ↔
      Lists (fun s a => Ip.parse? s.toList = some a) v as := by
  simp only [Option.bind_eq_some_iff, mapM_eq_some_iff, ip?_eq_some_iff, Lists]

theorem familyList_eq_ok_iff {v : Node} {fs : List Family} :
    familyList v = .ok fs ↔ Lists Family.Denotes v fs := by
  simp only [familyList, bind_eq_ok_iff, expect_eq_ok_iff, mapM_eq_ok_iff, family_eq_ok_iff, Lists]

/-! ## Drafts -/

/-- The draft has in the field what the configuration has. -/
def Draft.Holds (d : Draft) (c : Config) : Field → Prop
  | .localAddress => d.localAddress = some c.localAddress
  | .peers => d.config.peers = c.peers
  | .port => d.config.port = c.port
  | .localAs => d.localAs = some c.localAs
  | .rtcEnabled => d.config.rtcEnabled = c.rtcEnabled
  | .holdTime => d.config.holdTime = c.holdTime
  | .connectRetry => d.config.connectRetry = c.connectRetry
  | .families => d.config.families = c.families

variable {d d' : Draft} {c : Config} {v : Node} {f g : Field}

/-- A field is set to what is read, if anything is. -/
theorem exists_read_iff {α : Type} {x : Except ConfigError α} {put : α → Draft}
    {P : Draft → Prop} :
    (∃ d', (x >>= fun a => pure (put a)) = .ok d' ∧ P d') ↔ ∃ a, x = .ok a ∧ P (put a) := by
  simp only [bind_eq_ok_iff, pure, Except.pure, Except.ok.injEq]
  constructor
  · rintro ⟨d', ⟨a, hx, rfl⟩, h⟩
    exact ⟨a, hx, h⟩
  · rintro ⟨a, hx, h⟩
    exact ⟨put a, ⟨a, hx, rfl⟩, h⟩

theorem exists_set_iff : (∃ d', d.set v f = .ok d' ∧ d'.Holds c f) ↔ Says v c f := by
  cases f with
  | localAddress =>
    refine exists_read_iff.trans ?_
    simp [expect_eq_ok_iff, Draft.Holds, Says, v4?_eq_some_iff]
  | peers =>
    refine exists_read_iff.trans ?_
    simp [expect_eq_ok_iff, Draft.Holds, Says, peers_eq_some_iff]
  -- the numbers differ in the words that they are read as
  | port =>
    refine exists_read_iff.trans ?_
    simp only [expect_eq_ok_iff]
    exact exists_number?_iff UInt16.toNat_lt (fun _ => UInt16.ofNat_toNat)
      fun _ => UInt16.toNat_ofNat_of_lt'
  | localAs =>
    refine exists_read_iff.trans ?_
    simp only [expect_eq_ok_iff, Draft.Holds, Option.some.injEq]
    exact exists_number?_iff UInt32.toNat_lt (fun _ => UInt32.ofNat_toNat)
      fun _ => UInt32.toNat_ofNat_of_lt'
  | rtcEnabled =>
    refine exists_read_iff.trans ?_
    simp [expect_eq_ok_iff, Draft.Holds, Says, boolean?_eq_some_iff]
  | holdTime =>
    refine exists_read_iff.trans ?_
    simp only [expect_eq_ok_iff]
    exact exists_number?_iff UInt16.toNat_lt (fun _ => UInt16.ofNat_toNat)
      fun _ => UInt16.toNat_ofNat_of_lt'
  | connectRetry =>
    refine exists_read_iff.trans ?_
    simp only [expect_eq_ok_iff]
    exact exists_number?_iff UInt64.toNat_lt (fun _ => UInt64.ofNat_toNat)
      fun _ => UInt64.toNat_ofNat_of_lt'
  | families =>
    refine exists_read_iff.trans ?_
    simp [Draft.Holds, Says, familyList_eq_ok_iff]

theorem holds_set_of_ne (h : d.set v f = .ok d') (hg : g ≠ f) : d'.Holds c g ↔ d.Holds c g := by
  cases f
  all_goals
    obtain ⟨a, -, h⟩ := bind_eq_ok_iff.1 h
    cases h
    cases g <;> first | rfl | exact absurd rfl hg

theorem holds_default : Draft.Holds {} c f ↔ Defaults c f := by
  cases f with
  | localAddress | localAs => exact iff_of_false (by simp [Draft.Holds]) id
  | _ => exact eq_comm

theorem finish_eq_ok_iff : d.finish = .ok c ↔ ∀ f, d.Holds c f := by
  simp only [Draft.finish, bind_eq_ok_iff, expect_eq_ok_iff, pure, Except.pure, Except.ok.injEq]
  constructor
  · rintro ⟨a, ha, n, hn, rfl⟩ f
    cases f with
    | localAddress => exact ha
    | localAs => exact hn
    | _ => rfl
  · intro h
    refine ⟨_, h .localAddress, _, h .localAs, ?_⟩
    cases c
    simp only [Config.mk.injEq, true_and]
    exact ⟨h .peers, h .port, h .rtcEnabled, h .holdTime, h .connectRetry, h .families⟩

/-! ## Values of all fields -/

/-- Reads the values of fields, one after the other. -/
def Draft.setAll (d : Draft) : List (Field × Node) → Except ConfigError Draft
  | [] => .ok d
  | (f, v) :: ps => do (← d.set v f).setAll ps

/-- The values in a table, with the fields that their keys name. -/
def byName (es : Entries) : List (Field × Node) :=
  es.filterMap fun e => (fields.lookup e.1).map fun f => (f, e.2)

/-- The values in an array, with the fields in whose places they stand. -/
def byPlace (vs : List Node) : List (Field × Node) := (fields.map Prod.snd).zip vs

theorem ofEntries_eq (d : Draft) (es : Entries) : d.ofEntries es = d.setAll (byName es) := by
  induction es generalizing d with
  | nil => rfl
  | cons e es ih =>
    obtain ⟨k, v⟩ := e
    rw [Draft.ofEntries, byName]
    cases hf : fields.lookup k with
    | none => simp [hf, ih, byName]
    | some f => simp [hf, Draft.setAll, ih, byName]

theorem ofItems_eq (d : Draft) (fs : List (String × Field)) (vs : List Node) :
    d.ofItems fs vs = d.setAll ((fs.map Prod.snd).zip vs) := by
  induction fs generalizing d vs with
  | nil => simp [Draft.ofItems, Draft.setAll]
  | cons f fs ih =>
    cases vs with
    | nil => simp [Draft.ofItems, Draft.setAll]
    | cons v vs => simp [Draft.ofItems, Draft.setAll, ih]

/-- Where no field is set twice, each has in the end what its value says, or what it had. -/
theorem exists_setAll_iff {ps : List (Field × Node)} (hps : (ps.map Prod.fst).Nodup) :
    (∃ d', d.setAll ps = .ok d' ∧ ∀ f, d'.Holds c f) ↔
      ∀ f, (ps.lookup f).elim (d.Holds c f) fun v => Says v c f := by
  -- for any draft: the first value is set in it, and later ones leave that field alone
  induction ps generalizing d with
  | nil => simp [Draft.setAll]
  | cons p ps ih =>
    obtain ⟨f, v⟩ := p
    rw [List.map_cons, List.nodup_cons] at hps
    have hself : ps.lookup f = none := by
      rw [List.lookup_eq_none_iff]
      intro q hq
      have hne : f ≠ q.1 := fun hf => hps.1 (List.mem_map.2 ⟨q, hq, hf.symm⟩)
      simpa using hne
    have hother {d₁ : Draft} (hset : d.set v f = .ok d₁) {g : Field} (hg : g ≠ f) :
        ((((f, v) :: ps).lookup g).elim (d.Holds c g) fun w => Says w c g) ↔
          (ps.lookup g).elim (d₁.Holds c g) fun w => Says w c g := by
      rw [List.lookup_cons, beq_false_of_ne hg]
      cases ps.lookup g with
      | none => exact (holds_set_of_ne hset hg).symm
      | some w => exact Iff.rfl
    constructor
    · rintro ⟨d', h, hd'⟩ g
      obtain ⟨d₁, hset, h⟩ := bind_eq_ok_iff.1 h
      have hall := (ih hps.2).1 ⟨d', h, hd'⟩
      by_cases hg : g = f
      · subst hg
        have hholds := hall g
        rw [hself] at hholds
        rw [List.lookup_cons_self]
        exact exists_set_iff.1 ⟨d₁, hset, hholds⟩
      · exact (hother hset hg).2 (hall g)
    · intro h
      have hf := h f
      rw [List.lookup_cons_self] at hf
      obtain ⟨d₁, hset, hholds⟩ := exists_set_iff.2 hf
      obtain ⟨d', h', hd'⟩ := (ih (d := d₁) hps.2).2 fun g => by
        by_cases hg : g = f
        · subst hg
          rw [hself]
          exact hholds
        · exact (hother hset hg).1 (h g)
      exact ⟨d', bind_eq_ok_iff.2 ⟨d₁, hset, h'⟩, hd'⟩

theorem setAll_finish_iff {ps : List (Field × Node)} (hps : (ps.map Prod.fst).Nodup) :
    (d.setAll ps >>= Draft.finish) = .ok c ↔
      ∀ f, (ps.lookup f).elim (d.Holds c f) fun v => Says v c f := by
  rw [bind_eq_ok_iff, ← exists_setAll_iff hps]
  simp only [finish_eq_ok_iff]

theorem nodup_byName {es : Entries} (hes : (es.map Prod.fst).Nodup) :
    ((byName es).map Prod.fst).Nodup := by
  have hfields : (byName es).map Prod.fst =
      (es.map Prod.fst).filterMap fun k => fields.lookup k := by
    rw [byName, List.map_filterMap, List.filterMap_map]
    simp [Function.comp_def]
  rw [hfields]
  refine hes.filterMap fun k k' f hk hk' => ?_
  rw [lookup_fields.1 hk, lookup_fields.1 hk']

theorem lookup_byName (es : Entries) (f : Field) : (byName es).lookup f = es.lookup f.name := by
  induction es with
  | nil => rfl
  | cons e es ih =>
    obtain ⟨k, v⟩ := e
    rw [byName] at ih
    rw [byName, List.filterMap_cons, List.lookup_cons]
    by_cases hk : f.name = k
    · simp [← hk, lookup_fields.2 rfl]
    · rw [beq_false_of_ne hk]
      cases hg : fields.lookup k with
      | none => simpa using ih
      | some g =>
        have hne : f ≠ g := fun hfg => hk (by rw [hfg, lookup_fields.1 hg])
        simpa only [Option.map_some, List.lookup_cons, beq_false_of_ne hne] using ih

theorem fst_zip_sublist (fs : List Field) (vs : List Node) :
    ((fs.zip vs).map Prod.fst).Sublist fs := by
  induction fs generalizing vs with
  | nil => simp
  | cons f fs ih =>
    cases vs with
    | nil => simp
    | cons v vs => simpa using ih vs

theorem lookup_zip {fs : List Field} (hfs : fs.Nodup) {i : Nat} (hi : fs[i]? = some f)
    (vs : List Node) : (fs.zip vs).lookup f = vs[i]? := by
  induction fs generalizing i vs with
  | nil => simp at hi
  | cons g fs ih =>
    rw [List.nodup_cons] at hfs
    cases vs with
    | nil => simp
    | cons v vs =>
      cases i with
      | zero =>
        obtain rfl : g = f := by simpa using hi
        simp
      | succ i =>
        have hi' : fs[i]? = some f := by simpa using hi
        have hne : f ≠ g := fun hfg => hfs.1 (hfg ▸ List.mem_of_getElem? hi')
        rw [List.zip_cons_cons, List.lookup_cons, beq_false_of_ne hne]
        simpa using ih hfs.2 hi' vs

theorem nodup_byPlace (vs : List Node) : ((byPlace vs).map Prod.fst).Nodup :=
  (fst_zip_sublist _ vs).nodup (by decide)

theorem lookup_byPlace (vs : List Node) (f : Field) : (byPlace vs).lookup f = vs[f.place]? :=
  lookup_zip (by decide) (by cases f <;> rfl) vs

theorem ofNode_of_items {v : Node} {vs : List Node} (hv : items? v = some vs) :
    ofNode v = Draft.setAll {} (byPlace vs) >>= Draft.finish := by
  cases v with
  | array items =>
    cases hv
    exact congrArg (· >>= Draft.finish) (ofItems_eq {} fields _)
  | tables items =>
    cases hv
    exact congrArg (· >>= Draft.finish) (ofItems_eq {} fields _)
  | _ => cases hv

/-- A value is read as the configurations that it fits in every field. -/
theorem ofNode_eq_ok_iff (hv : v.Tidy) : ofNode v = .ok c ↔ ∀ f, Fits v c f := by
  have hitems {vs : List Node} (hvs : items? v = some vs) (hv : ∀ f, field? f v = vs[f.place]?) :
      ofNode v = .ok c ↔ ∀ f, Fits v c f := by
    rw [ofNode_of_items hvs, setAll_finish_iff (nodup_byPlace vs)]
    refine forall_congr' fun f => ?_
    rw [Fits, hv, lookup_byPlace, holds_default]
  have hnone (hnode : ofNode v = .error .malformed) (hv : field? .localAddress v = none) :
      ofNode v = .ok c ↔ ∀ f, Fits v c f := by
    refine iff_of_false (by simp [hnode]) fun h => ?_
    have hfits := h .localAddress
    rw [Fits, hv] at hfits
    exact hfits
  cases v with
  | table o es =>
    have hread : ofNode (.table o es) = Draft.setAll {} (byName es) >>= Draft.finish :=
      congrArg (· >>= Draft.finish) (ofEntries_eq {} es)
    rw [hread, setAll_finish_iff (nodup_byName (Entries.tidy_of_table hv).keys)]
    refine forall_congr' fun f => ?_
    rw [Fits, lookup_byName, holds_default]
    rfl
  | array items => exact hitems rfl fun f => rfl
  | tables items => exact hitems rfl fun f => rfl
  | _ => exact hnone rfl rfl

end RouteExchange.Config
