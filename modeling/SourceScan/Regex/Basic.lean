import SourceScan.Text.Blank
import SourceScan.Text.Case
import SourceScan.Text.Word

/-!
# Regular expressions

The shape of a regular expression as the matcher runs it. Flags are resolved when
the expression is read, so that each node says by itself what it matches.
-/

namespace SourceScan

inductive CharKind where
  | digit
  | space
  | word
  deriving DecidableEq, Repr

/-- The members of a kind; `ascii` leaves out all characters beyond ASCII. -/
def CharKind.holds (kind : CharKind) (ascii : Bool) (c : Char) : Bool :=
  (!ascii || c.toNat < 0x80) &&
    match kind with
    | .digit => Text.isDecimalDigit c
    | .space =>
        if ascii then inRanges [(0x9, 0xD), (0x20, 0x20)] c.toNat else Text.isBlank c
    | .word => Text.isWordChar c

inductive ClassItem where
  | range (first last : Nat)
  | kind (kind : CharKind) (negated : Bool)
  deriving DecidableEq, Repr

structure CharSet where
  negated : Bool
  items : List ClassItem
  ignoreCase : Bool
  ascii : Bool
  deriving DecidableEq, Repr

/-- Small letters that have one capital letter together, by code point. -/
def sharedCapitals : List (List Nat) :=
  [[0x69, 0x131], [0x73, 0x17F], [0xB5, 0x3BC], [0x345, 0x3B9, 0x1FBE], [0x390, 0x1FD3], [0x3B0,
   0x1FE3], [0x3B2, 0x3D0], [0x3B5, 0x3F5], [0x3B8, 0x3D1], [0x3BA, 0x3F0], [0x3C0, 0x3D6],
   [0x3C1, 0x3F1], [0x3C2, 0x3C3], [0x3C6, 0x3D5], [0x432, 0x1C80], [0x434, 0x1C81], [0x43E,
   0x1C82], [0x441, 0x1C83], [0x442, 0x1C84, 0x1C85], [0x44A, 0x1C86], [0x463, 0x1C87], [0x1C88,
   0xA64B], [0x1E61, 0x1E9B], [0xFB05, 0xFB06]]

def foldCase (ascii : Bool) (c : Char) : Char :=
  if ascii then c.toLower else if c = 'İ' then 'i' else Text.lowerChar c

def withLower (low : Char) : List Char :=
  let capitals := Text.lowerShifts.filterMap fun r =>
    let n := ((low.toNat : Int) - r.shift).toNat
    if r.holds n then some (Char.ofNat n) else none
  low :: capitals ++ (if low = 'i' then ['İ'] else [])

/-- The characters that count as the given one when case is ignored. -/
def caseVariants (ascii : Bool) (c : Char) : List Char :=
  let low := foldCase ascii c
  if ascii then [low, low.toUpper]
  else
    match sharedCapitals.find? (·.contains low.toNat) with
    | some alike => alike.flatMap fun n => withLower (Char.ofNat n)
    | none => withLower low

namespace CharSet

def itemHolds (k : CharSet) (c : Char) : ClassItem → Bool
  | .range first last =>
      if k.ignoreCase then
        (caseVariants k.ascii c).any fun d => first ≤ d.toNat && d.toNat ≤ last
      else first ≤ c.toNat && c.toNat ≤ last
  | .kind kind negated =>
      kind.holds k.ascii (if k.ignoreCase then foldCase k.ascii c else c) != negated

def holds (k : CharSet) (c : Char) : Bool := k.negated != k.items.any (k.itemHolds c)

end CharSet

inductive Anchor where
  | textStart
  | lineStart
  | textEnd
  /-- At the end, or before a line feed that is the last character. -/
  | finalEnd
  | lineEnd
  | boundary (ascii negated : Bool)
  deriving DecidableEq, Repr

inductive RepeatMode where
  | greedy
  | lazy
  | possessive
  deriving DecidableEq, Repr

inductive Regex where
  | set (k : CharSet)
  | anchor (a : Anchor)
  | seq (items : List Regex)
  | alt (choices : List Regex)
  | rep (mode : RepeatMode) (least : Nat) (most : Option Nat) (body : Regex)
  | group (index : Nat) (body : Regex)
  | backref (index : Nat) (ignoreCase ascii : Bool)
  /-- Looks ahead, or behind by the given number of characters. -/
  | look (behind : Option Nat) (negated : Bool) (body : Regex)
  | atomic (body : Regex)
  | conditional (index : Nat) (whenSet otherwise : Regex)
  | fail
  deriving Repr, Inhabited

end SourceScan
