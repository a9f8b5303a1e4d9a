/-
  Keys and values of TOML.

  Arrays may extend over several lines, with comments; tables between braces stay
  on one.  Values nest, and keys have parts, to a depth of less than eighty.
-/
import RouteExchange.Toml.Moment
import RouteExchange.Toml.Number

namespace RouteExchange.Toml

/-- The greatest depth of values in values, and the most parts of a key. -/
def depthLimit : Nat := 79

/-- The text behind the blanks at its front. -/
def skipBlanks (cs : List Char) : List Char := cs.dropWhile fun c => c = ' ' || c = '\t'

/-- The text behind blanks, line ends, and comments to the end of their line. -/
def skipGap (inComment : Bool) : List Char → Option (List Char)
  | [] => if inComment then none else some []
  | '\r' :: '\n' :: r => skipGap false r
  | c :: r =>
    if c = '\n' then skipGap false r
    else if inComment then if Quoted.isPrintable c then skipGap true r else none
    else if c = ' ' || c = '\t' then skipGap false r
    else if c = '#' then skipGap true r
    else some (c :: r)

/-! ## Keys -/

/-- A character of a key without quotes. -/
def isBare (c : Char) : Bool := c.isAlphanum || c = '-' || c = '_'

/-- One part of a key. -/
def simpleKey : Reader String
  | '"' :: r => (Quoted.basic r).map fun (s, r) => (.ofList s, r)
  | '\'' :: r => (Quoted.literal r).map fun (s, r) => (.ofList s, r)
  | r =>
    let k := r.takeWhile isBare
    if k.isEmpty then none else some (.ofList k, r.dropWhile isBare)

/-- The parts of a key, at most `limit`, with the blanks around them. -/
def keyParts : Nat → Reader (List String)
  | 0, _ => none
  | limit + 1, cs =>
    match simpleKey (skipBlanks cs) with
    | none => none
    | some (k, r) =>
      match skipBlanks r with
      | '.' :: r =>
        match keyParts limit r with
        | some (ks, r) => some (k :: ks, r)
        | none => none
      | r => some ([k], r)

/-- A key: its last part, and the path of the parts before it. -/
def key : Reader (List String × String) := fun cs => do
  let (ks, r) ← keyParts depthLimit cs
  let k ← ks.getLast?
  return ((ks.dropLast, k), r)

/-! ## Values -/

/-- The items of an array behind its opening bracket, at most `limit`. -/
def arrayItems (value : Reader Node) : Nat → Reader (List Node)
  | 0, _ => none
  | limit + 1, cs => do
    match ← skipGap false cs with
    | ']' :: r => return ([], r)
    | cs =>
      let (v, r) ← value cs
      match ← skipGap false r with
      | ']' :: r => return ([v], r)
      | ',' :: r =>
        let (vs, r) ← arrayItems value limit r
        return (v :: vs, r)
      | _ => none

/-- A key, an equals sign and a value. -/
def keyValue (value : Reader Node) : Reader ((List String × String) × Node) := fun cs => do
  let (k, r) ← key cs
  match r with
  | '=' :: r =>
    let (v, r) ← value (skipBlanks r)
    return ((k, v), r)
  | _ => none

/-- The entries of a table between braces, added to those before, at most `limit`. -/
def inlineEntries (value : Reader Node) (es : Entries) : Nat → Reader Entries
  | 0, _ => none
  | limit + 1, cs => do
    let ((k, v), r) ← keyValue value cs
    let es ← es.insert k.2 v k.1
    match skipBlanks r with
    | '}' :: r => return (es, r)
    | ',' :: r => inlineEntries value es limit r
    | _ => none

/-- A value in which values nest at most `depth` deep. -/
def value : Nat → Reader Node
  | depth, cs =>
    match cs with
    | '"' :: _ | '\'' :: _ => (Quoted.read cs).map fun (s, r) => (.text s, r)
    | '[' :: r =>
      match depth with
      | 0 => none
      | depth + 1 => (arrayItems (value depth) (r.length + 1) r).map fun (vs, r) => (.array vs, r)
    | '{' :: r =>
      match depth with
      | 0 => none
      | depth + 1 =>
        match skipBlanks r with
        | '}' :: r => some (.table .inline [], r)
        | _ => (inlineEntries (value depth) [] (r.length + 1) r).map fun (es, r) =>
          (.table .inline es, r)
    | 't' :: 'r' :: 'u' :: 'e' :: r => some (.boolean true, r)
    | 'f' :: 'a' :: 'l' :: 's' :: 'e' :: r => some (.boolean false, r)
    | _ =>
      match Moment.read cs with
      | some r => some (.moment, r)
      | none => Number.read cs

end RouteExchange.Toml
