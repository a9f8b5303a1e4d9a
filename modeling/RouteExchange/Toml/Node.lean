/-
  The tree that a TOML document denotes, and how its tables grow.

  Tables keep their entries in the order in which they were first written.  A
  table remembers how it was made, because that decides who may add to it: keys
  with dots add to tables that such keys or deeper headers made
  (`Entries.insert`), and a header opens each table once (`Entries.openTable`).
-/

namespace RouteExchange.Toml

/-- How a table was made. -/
inductive Origin where
  /-- By a header of its own, or at the top. -/
  | header
  /-- By the header of a table inside it. -/
  | implied
  /-- By a key with dots. -/
  | dotted
  /-- Between braces. -/
  | inline
deriving DecidableEq, Repr

/-- A value of a TOML document.  Floats, dates and times are only told apart. -/
inductive Node where
  | text (s : String)
  | integer (i : Int)
  | float
  | boolean (b : Bool)
  | moment
  | array (items : List Node)
  | table (origin : Origin) (entries : List (String × Node))
  /-- The tables of headers with two brackets. -/
  | tables (items : List (List (String × Node)))
deriving Repr, Inhabited

/-- The entries of a table. -/
abbrev Entries := List (String × Node)

namespace Entries

/-- The entries with the value of a key replaced, in its place. -/
def replace (es : Entries) (k : String) (v : Node) : Entries :=
  es.map fun e => if e.1 = k then (k, v) else e

/-- The entries without a key. -/
def erase (es : Entries) (k : String) : Entries := es.filter fun e => e.1 != k

/-- The tables with their last one changed. -/
def changeLast (f : Entries → Option Entries) : List Entries → Option (List Entries)
  | [] => none
  | [es] => (f es).map fun es => [es]
  | es :: rest => (changeLast f rest).map fun rest => es :: rest

/-- Adds the value of a key, behind a path of keys with dots. -/
def insert (k : String) (v : Node) : List String → Entries → Option Entries
  | [], es => if (es.lookup k).isSome then none else some (es ++ [(k, v)])
  | p :: ps, es =>
    match es.lookup p with
    | none => (insert k v ps []).map fun sub => es ++ [(p, .table .dotted sub)]
    | some (.table .dotted sub) =>
      (insert k v ps sub).map fun sub => es.replace p (.table .dotted sub)
    | some (.table .implied sub) =>
      if ps.isEmpty then none
      else (insert k v ps sub).map fun sub => es.replace p (.table .implied sub)
    | some (.tables items) =>
      if ps.isEmpty then none
      else (changeLast (insert k v ps) items).map fun items => es.replace p (.tables items)
    | some _ => none

/-- Changes the table at the end of a header's path, making the tables on the way. -/
def changeAt (f : Entries → Option Entries) : List String → Entries → Option Entries
  | [], es => f es
  | p :: ps, es =>
    match es.lookup p with
    | none => (changeAt f ps []).map fun sub => es ++ [(p, .table .implied sub)]
    | some (.table .inline _) => none
    | some (.table origin sub) =>
      (changeAt f ps sub).map fun sub => es.replace p (.table origin sub)
    | some (.tables items) =>
      (changeLast (changeAt f ps) items).map fun items => es.replace p (.tables items)
    | some _ => none

/-- Opens the table of a header.  It is a new one, or was implied so far; it
    comes last among the entries. -/
def openTable (k : String) (es : Entries) : Option Entries :=
  match es.lookup k with
  | none => some (es ++ [(k, .table .header [])])
  | some (.table .implied sub) => some (es.erase k ++ [(k, .table .header sub)])
  | some _ => none

/-- Opens a further table of a header with two brackets. -/
def openItem (k : String) (es : Entries) : Option Entries :=
  match es.lookup k with
  | none => some (es ++ [(k, .tables [[]])])
  | some (.tables items) => some (es.replace k (.tables (items ++ [[]])))
  | some _ => none

end Entries

end RouteExchange.Toml
