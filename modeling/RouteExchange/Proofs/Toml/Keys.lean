/-
  The keys of TOML documents.

  A document in which a key would stand twice has no tree: in the tree of any other, no table
  at any depth has two entries with one key (`Node.Tidy`, `tidy_of_parse?`).
-/
import Mathlib.Data.List.Nodup
import RouteExchange.Toml.Document

namespace RouteExchange.Toml

/-- No table in the value has two entries with one key. -/
inductive Node.Tidy : Node → Prop
  | text (s : String) : Tidy (.text s)
  | integer (i : Int) : Tidy (.integer i)
  | float : Tidy .float
  | boolean (b : Bool) : Tidy (.boolean b)
  | moment : Tidy .moment
  | array {items : List Node} (values : ∀ v ∈ items, v.Tidy) : Tidy (.array items)
  | table {origin : Origin} {es : Entries} (keys : (es.map Prod.fst).Nodup)
      (values : ∀ e ∈ es, e.2.Tidy) : Tidy (.table origin es)
  | tables {items : List Entries} (keys : ∀ es ∈ items, (es.map Prod.fst).Nodup)
      (values : ∀ es ∈ items, ∀ e ∈ es, e.2.Tidy) : Tidy (.tables items)

namespace Entries

/-- No key stands twice among the entries, nor in a table in their values. -/
structure Tidy (es : Entries) : Prop where
  keys : (es.map Prod.fst).Nodup
  values : ∀ e ∈ es, e.2.Tidy

/-- Entries stay tidy when they are changed in this way. -/
def Keeps (f : Entries → Option Entries) : Prop := ∀ es es', es.Tidy → f es = some es' → es'.Tidy

variable {f : Entries → Option Entries} {es es' sub sub' : Entries} {items items' : List Entries}
  {k p : String} {v : Node} {o : Origin}

theorem tidy_nil : Tidy [] := ⟨by simp, by simp⟩

theorem Tidy.table (h : es.Tidy) : (Node.table o es).Tidy := .table h.keys h.values

theorem tidy_of_table (h : (Node.table o es).Tidy) : es.Tidy := by
  cases h with
  | table keys values => exact ⟨keys, values⟩

theorem tidy_of_tables (h : (Node.tables items).Tidy) : ∀ es ∈ items, es.Tidy := by
  cases h with
  | tables keys values => exact fun es hes => ⟨keys es hes, values es hes⟩

theorem tidy_tables (h : ∀ es ∈ items, es.Tidy) : (Node.tables items).Tidy :=
  .tables (fun es hes => (h es hes).keys) fun es hes => (h es hes).values

theorem Tidy.of_lookup (h : es.Tidy) (hk : es.lookup k = some v) : v.Tidy := by
  obtain ⟨l, r, rfl, -⟩ := List.lookup_eq_some_iff.1 hk
  exact h.values (k, v) (by simp)

theorem notMem_keys (hk : es.lookup k = none) : k ∉ es.map Prod.fst := by
  intro hmem
  obtain ⟨e, he, rfl⟩ := List.mem_map.1 hmem
  simpa using List.lookup_eq_none_iff.1 hk e he

/-! ## Changes of entries -/

theorem Tidy.concat (h : es.Tidy) (hk : k ∉ es.map Prod.fst) (hv : v.Tidy) :
    Tidy (es ++ [(k, v)]) := by
  constructor
  · rw [List.map_append, List.nodup_append]
    refine ⟨h.keys, List.nodup_singleton _, fun a ha b hb hab => hk ?_⟩
    rw [hab, List.mem_singleton.1 hb] at ha
    exact ha
  · intro e he
    rcases List.mem_append.1 he with he | he
    · exact h.values e he
    · rw [List.mem_singleton.1 he]
      exact hv

theorem keys_replace (es : Entries) (k : String) (v : Node) :
    (es.replace k v).map Prod.fst = es.map Prod.fst := by
  rw [replace, List.map_map]
  refine List.map_congr_left fun e he => ?_
  by_cases hk : e.1 = k
  · simp [hk]
  · simp [hk]

theorem Tidy.replace (h : es.Tidy) (hv : v.Tidy) : (es.replace k v).Tidy := by
  constructor
  · rw [keys_replace]
    exact h.keys
  · intro e he
    obtain ⟨d, hd, rfl⟩ := List.mem_map.1 he
    split
    · exact hv
    · exact h.values d hd

theorem Tidy.erase (h : es.Tidy) : (es.erase k).Tidy :=
  ⟨h.keys.sublist (List.filter_sublist.map _), fun e he => h.values e (List.mem_filter.1 he).1⟩

theorem notMem_keys_erase (es : Entries) (k : String) : k ∉ (es.erase k).map Prod.fst := by
  simp [Entries.erase]

/-! ## Tables inside -/

/-- A table that a change makes, behind a key that was not there. -/
theorem Keeps.new (hf : Keeps f) (h : es.Tidy) (hk : es.lookup p = none) (hsub : f [] = some sub) :
    Tidy (es ++ [(p, .table o sub)]) :=
  h.concat (notMem_keys hk) (hf [] sub tidy_nil hsub).table

/-- A table that a change is made in. -/
theorem Keeps.table (hf : Keeps f) (h : es.Tidy) (hk : es.lookup p = some (.table o sub))
    (hsub : f sub = some sub') : (es.replace p (.table o sub')).Tidy :=
  h.replace (hf sub sub' (tidy_of_table (h.of_lookup hk)) hsub).table

theorem Keeps.changeLast (hf : Keeps f) (h : ∀ es ∈ items, es.Tidy)
    (hlast : changeLast f items = some items') : ∀ es ∈ items', es.Tidy := by
  fun_induction Entries.changeLast f items generalizing items' with
  | case1 => cases hlast
  | case2 es =>
    obtain ⟨es', hes, rfl⟩ := Option.map_eq_some_iff.1 hlast
    simpa using hf es es' (h es (by simp)) hes
  | case3 es rest hrest ih =>
    obtain ⟨rest', htail, rfl⟩ := Option.map_eq_some_iff.1 hlast
    rw [List.forall_mem_cons] at h ⊢
    exact ⟨h.1, ih h.2 htail⟩

/-- An array of tables in whose last one a change is made. -/
theorem Keeps.tables (hf : Keeps f) (h : es.Tidy) (hk : es.lookup p = some (.tables items))
    (hlast : Entries.changeLast f items = some items') : (es.replace p (.tables items')).Tidy :=
  h.replace (tidy_tables (hf.changeLast (tidy_of_tables (h.of_lookup hk)) hlast))

/-! ## What the lines of a document do -/

theorem keeps_insert (hv : v.Tidy) (ps : List String) : Keeps (insert k v ps) := by
  induction ps with
  | nil =>
    intro es es' h hi
    simp only [insert, Option.isSome_iff_ne_none, ne_eq, ite_not] at hi
    split at hi
    · next hk =>
      cases hi
      exact h.concat (notMem_keys hk) hv
    · cases hi
  | cons p ps ih =>
    intro es es' h hi
    simp only [insert] at hi
    split at hi
    · next hk =>
      obtain ⟨sub, hsub, rfl⟩ := Option.map_eq_some_iff.1 hi
      exact ih.new h hk hsub
    · next sub hk =>
      obtain ⟨sub', hsub, rfl⟩ := Option.map_eq_some_iff.1 hi
      exact ih.table h hk hsub
    · next sub hk =>
      split at hi
      · cases hi
      · obtain ⟨sub', hsub, rfl⟩ := Option.map_eq_some_iff.1 hi
        exact ih.table h hk hsub
    · next items hk =>
      split at hi
      · cases hi
      · obtain ⟨items', hlast, rfl⟩ := Option.map_eq_some_iff.1 hi
        exact ih.tables h hk hlast
    · cases hi

theorem Keeps.changeAt (hf : Keeps f) (ps : List String) : Keeps (changeAt f ps) := by
  induction ps with
  | nil => exact hf
  | cons p ps ih =>
    intro es es' h hi
    simp only [Entries.changeAt] at hi
    split at hi
    · next hk =>
      obtain ⟨sub, hsub, rfl⟩ := Option.map_eq_some_iff.1 hi
      exact ih.new h hk hsub
    · cases hi
    · next sub hk =>
      obtain ⟨sub', hsub, rfl⟩ := Option.map_eq_some_iff.1 hi
      exact ih.table h hk hsub
    · next items hk =>
      obtain ⟨items', hlast, rfl⟩ := Option.map_eq_some_iff.1 hi
      exact ih.tables h hk hlast
    · cases hi

theorem keeps_openTable (k : String) : Keeps (openTable k) := by
  intro es es' h hi
  simp only [openTable] at hi
  split at hi
  · next hk =>
    cases hi
    exact h.concat (notMem_keys hk) tidy_nil.table
  · next sub hk =>
    cases hi
    exact h.erase.concat (notMem_keys_erase es k) (tidy_of_table (h.of_lookup hk)).table
  · cases hi

theorem keeps_openItem (k : String) : Keeps (openItem k) := by
  intro es es' h hi
  simp only [openItem] at hi
  split at hi
  · next hk =>
    cases hi
    exact h.concat (notMem_keys hk) (tidy_tables (by simp [tidy_nil]))
  · next items hk =>
    cases hi
    refine h.replace (tidy_tables fun sub hsub => ?_)
    rcases List.mem_append.1 hsub with hsub | hsub
    · exact tidy_of_tables (h.of_lookup hk) sub hsub
    · rw [List.mem_singleton.1 hsub]
      exact tidy_nil
  · cases hi

end Entries

open Entries (Keeps tidy_nil)

/-! ## Values -/

/-- The values that a reader reads are tidy. -/
def ReadsTidy (value : Reader Node) : Prop := ∀ cs v r, value cs = some (v, r) → v.Tidy

variable {cs r : List Char} {v : Node} {value : Reader Node}

theorem tidy_of_bounded {i : Int} (h : Number.bounded i = some v) : v.Tidy := by
  unfold Number.bounded at h
  split at h <;> cases h
  exact .integer i

theorem tidy_of_based {base : Nat} {isDigit : Char → Bool}
    (h : Number.based base isDigit cs = some (v, r)) : v.Tidy := by
  simp only [Number.based, Option.bind_eq_bind, Option.bind_eq_some_iff, Prod.exists] at h
  obtain ⟨ds, rest, -, w, hw, h⟩ := h
  cases h
  exact tidy_of_bounded hw

theorem readsTidy_decimal : ReadsTidy Number.decimal := by
  intro cs v r h
  have hfloat {whole rest : List Char} (h : ((Number.afterWhole whole rest).bind fun x =>
      if (Number.sign cs).1 || Number.fitsDouble x.1.1 x.1.2 then some (.float, x.2) else none) =
        some (v, r)) : v.Tidy := by
    obtain ⟨x, -, h⟩ := Option.bind_eq_some_iff.1 h
    split at h <;> cases h
    exact .float
  obtain ⟨⟨whole, rest⟩, -, h⟩ := Option.bind_eq_some_iff.1 h
  dsimp only at h
  split at h
  · exact hfloat h
  · exact hfloat h
  · exact hfloat h
  · obtain ⟨w, hw, h⟩ := Option.bind_eq_some_iff.1 h
    cases h
    exact tidy_of_bounded hw

theorem readsTidy_number : ReadsTidy Number.read := by
  intro cs v r h
  unfold Number.read at h
  split at h
  · exact tidy_of_based h
  · exact tidy_of_based h
  · exact tidy_of_based h
  · cases h
    exact .float
  · cases h
    exact .float
  · exact readsTidy_decimal _ _ _ h

theorem ReadsTidy.arrayItems (hvalue : ReadsTidy value) {limit : Nat} {vs : List Node}
    (h : arrayItems value limit cs = some (vs, r)) : ∀ v ∈ vs, v.Tidy := by
  induction limit generalizing cs vs r with
  | zero => cases h
  | succ limit ih =>
    obtain ⟨cs', -, h⟩ := Option.bind_eq_some_iff.1 h
    split at h
    · cases h
      simp
    · obtain ⟨⟨v, r'⟩, hv, h⟩ := Option.bind_eq_some_iff.1 h
      obtain ⟨r'', -, h⟩ := Option.bind_eq_some_iff.1 h
      split at h
      · cases h
        simpa using hvalue _ _ _ hv
      · obtain ⟨⟨vs', rest⟩, hvs, h⟩ := Option.bind_eq_some_iff.1 h
        cases h
        rw [List.forall_mem_cons]
        exact ⟨hvalue _ _ _ hv, ih hvs⟩
      · cases h

theorem ReadsTidy.keyValue (hvalue : ReadsTidy value) {k : List String × String}
    (h : keyValue value cs = some ((k, v), r)) : v.Tidy := by
  obtain ⟨⟨k', r'⟩, -, h⟩ := Option.bind_eq_some_iff.1 h
  dsimp only at h
  split at h
  · obtain ⟨⟨w, rest⟩, hw, h⟩ := Option.bind_eq_some_iff.1 h
    cases h
    exact hvalue _ _ _ hw
  · cases h

theorem ReadsTidy.inlineEntries (hvalue : ReadsTidy value) {limit : Nat} {es es' : Entries}
    (hes : es.Tidy) (h : inlineEntries value es limit cs = some (es', r)) : es'.Tidy := by
  induction limit generalizing cs es with
  | zero => cases h
  | succ limit ih =>
    obtain ⟨⟨⟨k, v⟩, r'⟩, hv, h⟩ := Option.bind_eq_some_iff.1 h
    obtain ⟨es'', hinsert, h⟩ := Option.bind_eq_some_iff.1 h
    have hnew := Entries.keeps_insert (hvalue.keyValue hv) _ _ _ hes hinsert
    split at h
    · cases h
      exact hnew
    · exact ih hnew h
    · cases h

/-- A value is tidy if the values in it are. -/
theorem readsTidy_value_of {depth : Nat}
    (hinner : ∀ d, depth = d + 1 → ReadsTidy (Toml.value d)) : ReadsTidy (Toml.value depth) := by
  intro cs v r h
  unfold Toml.value at h
  -- texts in either quotes, arrays, inline tables, the two booleans, and then times and numbers
  split at h
  · obtain ⟨x, -, h⟩ := Option.map_eq_some_iff.1 h
    cases h
    exact .text _
  · obtain ⟨x, -, h⟩ := Option.map_eq_some_iff.1 h
    cases h
    exact .text _
  · split at h
    · cases h
    · next d =>
      obtain ⟨x, hx, h⟩ := Option.map_eq_some_iff.1 h
      cases h
      exact .array ((hinner d rfl).arrayItems hx)
  · split at h
    · cases h
    · next d =>
      split at h
      · cases h
        exact tidy_nil.table
      · obtain ⟨x, hx, h⟩ := Option.map_eq_some_iff.1 h
        cases h
        exact ((hinner d rfl).inlineEntries tidy_nil hx).table
  · cases h
    exact .boolean _
  · cases h
    exact .boolean _
  · split at h
    · cases h
      exact .moment
    · exact readsTidy_number _ _ _ h

theorem readsTidy_value (depth : Nat) : ReadsTidy (Toml.value depth) := by
  induction depth with
  | zero => exact readsTidy_value_of fun d hd => by simp at hd
  | succ depth ih => exact readsTidy_value_of fun d hd => Nat.succ.inj hd ▸ ih

/-! ## Documents -/

/-- The value on the line, if there is one, is tidy. -/
def Statement.Tidy : Statement → Prop
  | .entry _ _ v => v.Tidy
  | _ => True

theorem tidy_of_statement {s : Statement} (h : statement cs = some (s, r)) : s.Tidy := by
  unfold statement at h
  split at h
  · obtain ⟨⟨k, r'⟩, -, h⟩ := Option.bind_eq_some_iff.1 h
    dsimp only at h
    split at h <;> cases h
    trivial
  · obtain ⟨⟨k, r'⟩, -, h⟩ := Option.bind_eq_some_iff.1 h
    dsimp only at h
    split at h <;> cases h
    trivial
  · obtain ⟨⟨⟨k, v⟩, r'⟩, hv, h⟩ := Option.bind_eq_some_iff.1 h
    cases h
    exact (readsTidy_value depthLimit).keyValue hv

theorem tidy_of_statements {limit : Nat} {ss : List Statement} (h : statements limit cs = some ss) :
    ∀ s ∈ ss, s.Tidy := by
  induction limit generalizing cs ss with
  | zero => cases h
  | succ limit ih =>
    unfold statements at h
    split at h
    · cases h
      simp
    · exact ih h
    · exact ih h
    · obtain ⟨r, -, h⟩ := Option.bind_eq_some_iff.1 h
      exact ih h
    · obtain ⟨⟨s, r⟩, hs, h⟩ := Option.bind_eq_some_iff.1 h
      obtain ⟨r', -, h⟩ := Option.bind_eq_some_iff.1 h
      obtain ⟨ss', hss, h⟩ := Option.bind_eq_some_iff.1 h
      cases h
      rw [List.forall_mem_cons]
      exact ⟨tidy_of_statement hs, ih hss⟩

theorem tidy_of_build {header : List String} {root root' : Entries} {ss : List Statement}
    (hroot : root.Tidy) (hss : ∀ s ∈ ss, s.Tidy) (h : build header root ss = some root') :
    root'.Tidy := by
  induction ss generalizing header root with
  | nil =>
    cases h
    exact hroot
  | cons s ss ih =>
    rw [List.forall_mem_cons] at hss
    have hnext {f : Entries → Option Entries} (hf : Keeps f) {path header : List String}
        (h : ((Entries.changeAt f path root).bind fun root => build header root ss) = some root') :
        root'.Tidy := by
      obtain ⟨root'', hroot', h⟩ := Option.bind_eq_some_iff.1 h
      exact ih (hf.changeAt path _ _ hroot hroot') hss.2 h
    cases s with
    | entry path key v => exact hnext (Entries.keeps_insert hss.1 path) h
    | table path key => exact hnext (Entries.keeps_openTable key) h
    | item path key => exact hnext (Entries.keeps_openItem key) h

/-- In the tree of a document, no table has two entries with one key. -/
theorem tidy_of_parse? {text : String} {root : Entries} (h : parse? text = some root) :
    root.Tidy := by
  obtain ⟨ss, hss, h⟩ := Option.bind_eq_some_iff.1 h
  exact tidy_of_build tidy_nil (tidy_of_statements hss) h

end RouteExchange.Toml
