/-
  IPv6 addresses and their text.

  An address is eight groups of 16 bits.  `V6.parse?` reads groups of one to
  four hexadecimal digits between colons, at most one `::` for one or more zero
  groups, and a dotted IPv4 address in place of the last two groups.  `V6.text`
  writes `::` for the first of the longest runs of two or more zero groups, and
  the addresses that hold an IPv4 address as `::ffff:a.b.c.d`.
-/
import RouteExchange.Address.V4

namespace RouteExchange

/-- An IPv6 address: eight groups, the most significant first. -/
structure V6 where
  groups : List UInt16
  length_groups : groups.length = 8
deriving DecidableEq, Repr

namespace V6

/-- The value of a hexadecimal digit of either case. -/
def hexValue? (c : Char) : Option Nat :=
  if c.isDigit then some (c.toNat - '0'.toNat)
  else if 'a' ≤ c ∧ c ≤ 'f' then some (c.toNat - 'a'.toNat + 10)
  else if 'A' ≤ c ∧ c ≤ 'F' then some (c.toNat - 'A'.toNat + 10)
  else none

def isHexDigit (c : Char) : Bool := (hexValue? c).isSome

def ofHexDigits (ds : List Char) : Nat :=
  ds.foldl (fun n c => 16 * n + (hexValue? c).getD 0) 0

/-- A group of one to four hexadecimal digits, and the rest of the text. -/
def readGroup (cs : List Char) : Option (UInt16 × List Char) :=
  let ds := cs.takeWhile isHexDigit
  if 1 ≤ ds.length ∧ ds.length ≤ 4 then
    some (UInt16.ofNat (ofHexDigits ds), cs.dropWhile isHexDigit)
  else none

/-- The text where the next group starts: behind a colon, except for the first. -/
def groupStart (first : Bool) (cs : List Char) : Option (List Char) :=
  match first, cs with
  | true, cs => some cs
  | false, ':' :: cs => some cs
  | false, _ => none

/-- The two groups that an IPv4 address fills. -/
def ofV4Groups (v : V4) : List UInt16 := [Octets.ofBe16 v.a v.b, Octets.ofBe16 v.c v.d]

/-- At most `limit` groups from the front of a text, whether they end with an
    embedded IPv4 address (which needs room for two groups), and the rest. -/
def readGroups (first : Bool) : Nat → List Char → List UInt16 × Bool × List Char
  | 0, cs => ([], false, cs)
  | limit + 1, cs =>
    match if limit = 0 then none else (groupStart first cs).bind V4.read with
    | some (v, rest) => (ofV4Groups v, true, rest)
    | none =>
      match (groupStart first cs).bind readGroup with
      | some (g, rest) =>
        let (gs, embedded, rest) := readGroups false limit rest
        (g :: gs, embedded, rest)
      | none => ([], false, cs)

/-- The address with these groups, where there are eight. -/
def ofGroups? (gs : List UInt16) : Option V6 :=
  if h : gs.length = 8 then some ⟨gs, h⟩ else none

/-- The address a whole text denotes. -/
def parse? (cs : List Char) : Option V6 :=
  match readGroups true 8 cs with
  | (front, embedded, rest) =>
    if front.length = 8 then (if rest = [] then ofGroups? front else none)
    else if embedded then none
    else
      match rest with
      | ':' :: ':' :: rest =>
        match readGroups true (7 - front.length) rest with
        | (back, _, []) =>
          ofGroups? (front ++ List.replicate (8 - front.length - back.length) 0 ++ back)
        | _ => none
      | _ => none

/-- The hexadecimal digits of a group, without leading zeros. -/
def groupText (g : UInt16) : String := String.ofList (Nat.toDigits 16 g.toNat)

def joinGroups (gs : List UInt16) : String := String.intercalate ":" (gs.map groupText)

/-- The number of zero groups at the front. -/
def zeroRun (gs : List UInt16) : Nat := (gs.takeWhile (· == 0)).length

/-- Start and length of the first of the longest runs of zero groups, where the
    given groups start at position `start` and the best run so far is `best`. -/
def longestZeroRun (start : Nat) (best : Nat × Nat) : List UInt16 → Nat × Nat
  | [] => best
  | g :: gs =>
    let run := zeroRun (g :: gs)
    longestZeroRun (start + 1) (if best.2 < run then (start, run) else best) gs

/-- The IPv4 address that `::ffff:a.b.c.d` holds. -/
def mapped? (v : V6) : Option V4 :=
  match v.groups with
  | [0, 0, 0, 0, 0, 0xffff, g, h] =>
    some ⟨UInt8.ofNat (g.toNat / 256), UInt8.ofNat g.toNat,
      UInt8.ofNat (h.toNat / 256), UInt8.ofNat h.toNat⟩
  | _ => none

def text (v : V6) : String :=
  match v.mapped? with
  | some w => "::ffff:" ++ w.text
  | none =>
    let (start, run) := longestZeroRun 0 (0, 0) v.groups
    if 2 ≤ run then
      joinGroups (v.groups.take start) ++ "::" ++ joinGroups (v.groups.drop (start + run))
    else joinGroups v.groups

end V6

end RouteExchange
