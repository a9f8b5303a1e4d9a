/-
  Numbers of TOML.

  Digits may have single underscores between them.  Integers are decimal without
  leading zeros, or hexadecimal, octal or binary without a sign, and have to fit
  into 64 bits.  Floats are only checked: a positive one must not exceed what a
  double holds.
-/
import RouteExchange.Toml.Node
import RouteExchange.Toml.Quoted

namespace RouteExchange.Toml.Number

/-- The digits that continue a number, without their underscores. -/
def moreDigits (isDigit : Char → Bool) : Reader (List Char)
  | [] => some ([], [])
  | c :: r =>
    if isDigit c then
      match moreDigits isDigit r with
      | some (ds, rest) => some (c :: ds, rest)
      | none => none
    else if c = '_' then
      match r with
      | d :: _ => if isDigit d then moreDigits isDigit r else none
      | [] => none
    else some ([], c :: r)

/-- One digit or more, without their underscores. -/
def digits (isDigit : Char → Bool) : Reader (List Char)
  | [] => none
  | c :: r => if isDigit c then moreDigits isDigit (c :: r) else none

/-- The digits of a decimal integer: a zero, or digits that do not start with one. -/
def wholeDigits : Reader (List Char)
  | '0' :: r => some (['0'], r)
  | r => digits Char.isDigit r

/-- The number with these digits. -/
def value (base : Nat) (ds : List Char) : Nat :=
  ds.foldl (fun n c => base * n + (Quoted.hexValue? c).getD 0) 0

/-- An optional sign; whether it is a minus. -/
def sign : List Char → Bool × List Char
  | '+' :: r => (false, r)
  | '-' :: r => (true, r)
  | r => (false, r)

/-- The integer, where 64 bits hold it. -/
def bounded (i : Int) : Option Node :=
  if -9223372036854775808 ≤ i ∧ i ≤ 9223372036854775807 then some (.integer i) else none

/-- An integer with digits of another base. -/
def based (base : Nat) (isDigit : Char → Bool) (r : List Char) : Option (Node × List Char) := do
  let (ds, rest) ← digits isDigit r
  return (← bounded (value base ds), rest)

/-- Half a unit beyond the largest double. -/
def doubleLimit : Nat := Nat.pow 2 1024 - Nat.pow 2 970

/-- The number `m * 10 ^ e` rounds to a double. -/
def fitsDouble (m : Nat) (e : Int) : Bool :=
  if m = 0 then true
  else
    let size : Int := (Nat.toDigits 10 m).length
    if 310 < e + size then false
    else if e + size < 300 then true
    else if 0 ≤ e then decide (m * Nat.pow 10 e.toNat < doubleLimit)
    else decide (m < doubleLimit * Nat.pow 10 (-e).toNat)

/-- The exponent of a float. -/
def exponent : Reader Int
  | 'e' :: r | 'E' :: r => do
    let (negative, r) := sign r
    let (ds, rest) ← digits Char.isDigit r
    let n : Int := value 10 ds
    return (if negative then -n else n, rest)
  | _ => none

/-- What follows the whole part of a float: a fraction, an exponent, or both. -/
def afterWhole (whole : List Char) (r : List Char) : Option ((Nat × Int) × List Char) :=
  match r with
  | '.' :: r => do
    let (fraction, r) ← digits Char.isDigit r
    let m := value 10 (whole ++ fraction)
    let shift : Int := fraction.length
    match r with
    | 'e' :: _ | 'E' :: _ =>
      let (e, rest) ← exponent r
      return ((m, e - shift), rest)
    | _ => return ((m, -shift), r)
  | r => do
    let (e, rest) ← exponent r
    return ((value 10 whole, e), rest)

/-- A decimal number: an integer or a float. -/
def decimal (cs : List Char) : Option (Node × List Char) := do
  let (negative, r) := sign cs
  let (whole, r) ← wholeDigits r
  match r with
  | '.' :: _ | 'e' :: _ | 'E' :: _ =>
    let ((m, e), rest) ← afterWhole whole r
    if negative || fitsDouble m e then return (.float, rest) else none
  | _ =>
    let n : Int := value 10 whole
    return (← bounded (if negative then -n else n), r)

/-- A number of any kind. -/
def read (cs : List Char) : Option (Node × List Char) :=
  match cs, (sign cs).2 with
  | '0' :: 'x' :: r, _ => based 16 (fun c => (Quoted.hexValue? c).isSome) r
  | '0' :: 'o' :: r, _ => based 8 (fun c => decide ('0' ≤ c ∧ c ≤ '7')) r
  | '0' :: 'b' :: r, _ => based 2 (fun c => c = '0' || c = '1') r
  | _, 'i' :: 'n' :: 'f' :: r => some (.float, r)
  | _, 'n' :: 'a' :: 'n' :: r => some (.float, r)
  | _, _ => decimal cs

end RouteExchange.Toml.Number
