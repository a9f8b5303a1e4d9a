/-
  TOML documents.

  A document is a list of lines: headers, and keys with their values
  (`Statement`).  `parse?` reads the lines and builds the tree they denote; a
  document that breaks any rule has none.
-/
import RouteExchange.Toml.Value

namespace RouteExchange.Toml

/-- A line of a document. -/
inductive Statement where
  /-- A key and its value. -/
  | entry (path : List String) (key : String) (value : Node)
  /-- The header of a table. -/
  | table (path : List String) (key : String)
  /-- The header of a further table of an array. -/
  | item (path : List String) (key : String)

/-! ## Lines -/

/-- What follows a line end; the end of the text is one. -/
def lineEnd : List Char → Option (List Char)
  | [] => some []
  | '\n' :: r | '\r' :: '\n' :: r => some r
  | _ => none

/-- What follows the rest of a line: blanks, and possibly a comment. -/
def restOfLine (cs : List Char) : Option (List Char) :=
  match skipBlanks cs with
  | '#' :: r => lineEnd (r.dropWhile Quoted.isPrintable)
  | r => lineEnd r

/-- A line that says something. -/
def statement : Reader Statement
  | '[' :: '[' :: r => do
    let (k, r) ← key r
    match r with
    | ']' :: ']' :: r => return (.item k.1 k.2, r)
    | _ => none
  | '[' :: r => do
    let (k, r) ← key r
    match r with
    | ']' :: r => return (.table k.1 k.2, r)
    | _ => none
  | cs => do
    let ((k, v), r) ← keyValue (value depthLimit) cs
    return (.entry k.1 k.2 v, r)

/-- The lines of a text, at most `limit`. -/
def statements : Nat → List Char → Option (List Statement)
  | 0, _ => none
  | limit + 1, cs =>
    match skipBlanks cs with
    | [] => some []
    | '\n' :: r | '\r' :: '\n' :: r => statements limit r
    | '#' :: r => do statements limit (← lineEnd (r.dropWhile Quoted.isPrintable))
    | cs => do
      let (s, r) ← statement cs
      let ss ← statements limit (← restOfLine r)
      return s :: ss

/-! ## The tree -/

/-- Adds what the lines say to a tree, where keys go to the table of the header
    before them. -/
def build (header : List String) (root : Entries) : List Statement → Option Entries
  | [] => some root
  | .entry path key v :: ss => do
    build header (← Entries.changeAt (Entries.insert key v path) header root) ss
  | .table path key :: ss => do
    build (path ++ [key]) (← Entries.changeAt (Entries.openTable key) path root) ss
  | .item path key :: ss => do
    build (path ++ [key]) (← Entries.changeAt (Entries.openItem key) path root) ss

/-- The text behind a byte order mark. -/
def skipMark : List Char → List Char
  | '\ufeff' :: r => r
  | r => r

/-- The tree that a document denotes. -/
def parse? (text : String) : Option Entries := do
  let cs := skipMark text.toList
  build [] [] (← statements (cs.length + 1) cs)

end RouteExchange.Toml
