/-
  Dates and times of TOML: a date, a time of day, or both, the latter possibly
  with an offset.
-/
import RouteExchange.Toml.Quoted

namespace RouteExchange.Toml.Moment

/-- A number of exactly `n` digits. -/
def digits (n : Nat) : Reader Nat := fun cs =>
  let ds := cs.take n
  if ds.length = n && ds.all Char.isDigit then
    some (ds.foldl (fun m c => 10 * m + (c.toNat - '0'.toNat)) 0, cs.drop n)
  else none

/-- A number of two digits in a range. -/
def pair (low high : Nat) : Reader Nat := fun cs =>
  (digits 2 cs).filter fun p => low ≤ p.1 && p.1 ≤ high

/-- The text behind a given character. -/
def after (c : Char) : List Char → Option (List Char)
  | d :: r => if d = c then some r else none
  | [] => none

/-- The year is a leap year. -/
def isLeap (year : Nat) : Bool := year % 4 = 0 && (year % 100 ≠ 0 || year % 400 = 0)

/-- The number of days of a month. -/
def daysIn (year month : Nat) : Nat :=
  if month = 2 then if isLeap year then 29 else 28
  else if month = 4 ∨ month = 6 ∨ month = 9 ∨ month = 11 then 30
  else 31

/-- A date; what follows it. -/
def date (cs : List Char) : Option (List Char) := do
  let (year, r) ← digits 4 cs
  let (month, r) ← pair 1 12 (← after '-' r)
  let (_, r) ← pair 1 (daysIn year month) (← after '-' r)
  return r

/-- What follows the fraction of a second, if there is one. -/
def fraction : List Char → List Char
  | '.' :: r => if (r.takeWhile Char.isDigit).isEmpty then '.' :: r else r.dropWhile Char.isDigit
  | r => r

/-- A time of day; what follows it.  A minute may have a leap second. -/
def time (cs : List Char) : Option (List Char) := do
  let (_, r) ← pair 0 23 cs
  let (_, r) ← pair 0 59 (← after ':' r)
  let (_, r) ← pair 0 60 (← after ':' r)
  return fraction r

/-- What follows the hours and minutes of an offset. -/
def hoursAndMinutes (cs : List Char) : Option (List Char) := do
  let (_, r) ← pair 0 23 cs
  let (_, r) ← pair 0 59 (← after ':' r)
  return r

/-- What follows the offset of a time, if there is one. -/
def offset : List Char → List Char
  | 'Z' :: r | 'z' :: r => r
  | '+' :: r => (hoursAndMinutes r).getD ('+' :: r)
  | '-' :: r => (hoursAndMinutes r).getD ('-' :: r)
  | r => r

/-- What follows the time of a date, if there is one. -/
def timeOfDate : List Char → List Char
  | c :: r =>
    if c = 'T' || c = 't' || c = ' ' then
      match time r with
      | some r => offset r
      | none => c :: r
    else c :: r
  | [] => []

/-- A date or a time; what follows it. -/
def read (cs : List Char) : Option (List Char) :=
  match date cs with
  | some r => some (timeOfDate r)
  | none => time cs

end RouteExchange.Toml.Moment
