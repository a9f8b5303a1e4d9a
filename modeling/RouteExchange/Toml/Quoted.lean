/-
  Quoted texts of TOML: basic and literal ones, on one line or on several.

  Each reader starts behind the opening quotes and gives the text and what
  follows the closing ones.
-/

namespace RouteExchange.Toml

/-- Reads from the front of a text, and gives the rest. -/
abbrev Reader (α : Type) := List Char → Option (α × List Char)

namespace Quoted

/-- A character that may stand in comments and literal texts: no control
    character but the tab. -/
def isPrintable (c : Char) : Bool := c = '\t' || (0x20 ≤ c.toNat && c.toNat ≠ 0x7F)

/-- The value of a hexadecimal digit of either case. -/
def hexValue? (c : Char) : Option Nat :=
  if c.isDigit then some (c.toNat - '0'.toNat)
  else if 'a' ≤ c ∧ c ≤ 'f' then some (c.toNat - 'a'.toNat + 10)
  else if 'A' ≤ c ∧ c ≤ 'F' then some (c.toNat - 'A'.toNat + 10)
  else none

/-- The number with these hexadecimal digits. -/
def hexNumber? (ds : List Char) : Option Nat :=
  ds.foldlM (fun n c => (hexValue? c).map (16 * n + ·)) 0

/-- The character with this code in hexadecimal, unless it is a surrogate or
    beyond the last one. -/
def scalar? (ds : List Char) : Option Char :=
  (hexNumber? ds).bind fun n => if n.isValidChar then some (Char.ofNat n) else none

/-- The character that a letter behind a backslash stands for. -/
def escaped? : Char → Option Char
  | 'b' => some '\x08'
  | 't' => some '\t'
  | 'n' => some '\n'
  | 'f' => some '\x0c'
  | 'r' => some '\r'
  | '"' => some '"'
  | '\\' => some '\\'
  | _ => none

/-- Puts a character in front of a text that was read. -/
def push (c : Option Char) (r : Option (List Char × List Char)) : Option (List Char × List Char) :=
  match c, r with
  | some c, some (s, rest) => some (c :: s, rest)
  | _, _ => none

/-- A basic text, up to its closing quote. -/
def basic : List Char → Option (List Char × List Char)
  | [] => none
  | '"' :: r => some ([], r)
  | '\\' :: 'u' :: a :: b :: c :: d :: r => push (scalar? [a, b, c, d]) (basic r)
  | '\\' :: 'U' :: a :: b :: c :: d :: e :: f :: g :: h :: r =>
    push (scalar? [a, b, c, d, e, f, g, h]) (basic r)
  | '\\' :: c :: r => push (escaped? c) (basic r)
  | c :: r => if isPrintable c then push c (basic r) else none

/-- A literal text, up to its closing quote. -/
def literal : List Char → Option (List Char × List Char)
  | [] => none
  | '\'' :: r => some ([], r)
  | c :: r => if isPrintable c then push c (literal r) else none

/-- A line ends here, apart from blanks. -/
def endsLine : List Char → Bool
  | ' ' :: r | '\t' :: r => endsLine r
  | '\n' :: _ | '\r' :: '\n' :: _ => true
  | _ => false

/-- A basic text on several lines, up to its three closing quotes; one or two
    more quotes before these belong to the text.  A backslash at the end of a
    line takes away the line's end and all blanks and line ends behind it, which
    `skipping` says is going on. -/
def basicLines (skipping : Bool) : List Char → Option (List Char × List Char)
  | [] => none
  | '"' :: '"' :: '"' :: '"' :: '"' :: r => some (['"', '"'], r)
  | '"' :: '"' :: '"' :: '"' :: r => some (['"'], r)
  | '"' :: '"' :: '"' :: r => some ([], r)
  | '\r' :: '\n' :: r => if skipping then basicLines true r else push '\n' (basicLines false r)
  | '\\' :: 'u' :: a :: b :: c :: d :: r =>
    push (scalar? [a, b, c, d]) (basicLines false r)
  | '\\' :: 'U' :: a :: b :: c :: d :: e :: f :: g :: h :: r =>
    push (scalar? [a, b, c, d, e, f, g, h]) (basicLines false r)
  | '\\' :: c :: r =>
    if endsLine (c :: r) then basicLines true (c :: r)
    else push (escaped? c) (basicLines false r)
  | c :: r =>
    if skipping && (c = ' ' || c = '\t' || c = '\n') then basicLines true r
    else if isPrintable c || c = '\n' then push c (basicLines false r)
    else none

/-- A literal text on several lines, up to its three closing quotes; one or two
    more quotes before these belong to the text. -/
def literalLines : List Char → Option (List Char × List Char)
  | [] => none
  | '\'' :: '\'' :: '\'' :: '\'' :: '\'' :: r => some (['\'', '\''], r)
  | '\'' :: '\'' :: '\'' :: '\'' :: r => some (['\''], r)
  | '\'' :: '\'' :: '\'' :: r => some ([], r)
  | '\r' :: '\n' :: r => push '\n' (literalLines r)
  | c :: r => if isPrintable c || c = '\n' then push c (literalLines r) else none

/-- The text behind a line end, which the first line of a text may be. -/
def skipNewline : List Char → List Char
  | '\n' :: r | '\r' :: '\n' :: r => r
  | r => r

/-- A quoted text of any kind, from its opening quotes on. -/
def read : Reader String
  | '"' :: '"' :: '"' :: r => (basicLines false (skipNewline r)).map fun (s, r) => (.ofList s, r)
  | '\'' :: '\'' :: '\'' :: r => (literalLines (skipNewline r)).map fun (s, r) => (.ofList s, r)
  | '"' :: r => (basic r).map fun (s, r) => (.ofList s, r)
  | '\'' :: r => (literal r).map fun (s, r) => (.ofList s, r)
  | _ => none

end Quoted

end RouteExchange.Toml
