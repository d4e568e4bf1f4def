import SourceScan.Number.Binary64
import SourceScan.Text.Blank
import SourceScan.Text.Word

/-!
# Reading numerals

Integers and decimal fractions as people type them: blanks around, a sign, digits
of any script, and single low lines between digits.
-/

namespace SourceScan

namespace Numeral

def ofDigits (base : Nat) (ds : List Nat) : Nat :=
  ds.foldl (fun n d => base * n + d) 0

/-- The blanks that may surround a numeral; the information separators are not among them. -/
def isMargin (c : Char) : Bool :=
  if c.toNat < 0x7F then inRanges [(0x9, 0xD), (0x20, 0x20)] c.toNat else Text.isBlank c

def plainDigits (s : Text) : Text :=
  s.map fun c =>
    match Text.digitValue? c with
    | some d => Char.ofNat (0x30 + d)
    | none => c

/-- Drops the low lines, each of which has to stand between two ASCII digits. -/
def dropSeparators? (s : Text) : Option Text := go none s
where
  go (last : Option Char) : Text → Option Text
    | [] => if last = some '_' then none else some []
    | c :: cs =>
        if c = '_' then
          if last.any Char.isDigit then go (some c) cs else none
        else if last = some '_' && !c.isDigit then none
        else (go (some c) cs).map (c :: ·)

def splitSign : Text → Bool × Text
  | '-' :: s => (true, s)
  | '+' :: s => (false, s)
  | s => (false, s)

def bare? (s : Text) : Option Text :=
  dropSeparators? (plainDigits (Text.trim isMargin s))

def digitsValue (s : Text) : Nat := ofDigits 10 (s.map fun c => c.toNat - 0x30)

/-- No integer of more digits than this is read or written in base ten. -/
def digitLimit : Nat := 4300

inductive IntFault where
  | malformed
  | tooManyDigits (count : Nat)
  deriving DecidableEq, Repr

def tooManyDigitsMessage (count : Nat) : Text :=
  ("Exceeds the limit (" : Text) ++ Text.ofNat digitLimit ++
    (" digits) for integer string conversion: value has " : Text) ++ Text.ofNat count ++
    (" digits; use sys.set_int_max_str_digits() to increase the limit" : Text)

def readInt (s : Text) : Except IntFault Int :=
  match bare? s with
  | none => .error .malformed
  | some s =>
      let (negative, digits) := splitSign s
      if digits.isEmpty || !digits.all Char.isDigit then .error .malformed
      else if digitLimit < digits.length then .error (.tooManyDigits digits.length)
      else
        let n : Int := digitsValue digits
        .ok (if negative then -n else n)

def readUnsignedDecimal? (negative : Bool) (s : Text) : Option Binary64 :=
  let whole := s.takeWhile Char.isDigit
  let s := s.dropWhile Char.isDigit
  let (fraction, s) :=
    match s with
    | '.' :: t => (t.takeWhile Char.isDigit, t.dropWhile Char.isDigit)
    | _ => ([], s)
  if whole.isEmpty && fraction.isEmpty then none
  else
    let value (exponent : Int) : Binary64 :=
      Binary64.ofDecimal negative (digitsValue (whole ++ fraction)) (exponent - fraction.length)
    match s with
    | [] => some (value 0)
    | c :: t =>
        if c = 'e' || c = 'E' then
          let (minus, ds) := splitSign t
          if ds.isEmpty || !ds.all Char.isDigit then none
          else
            let e : Int := digitsValue ds
            some (value (if minus then -e else e))
        else none

def readDecimal? (s : Text) : Option Binary64 := do
  let (negative, s) := splitSign (← bare? s)
  let name := s.map Char.toLower
  if name = ("inf" : Text) || name = ("infinity" : Text) then some (.infinite negative)
  else if name = ("nan" : Text) then some .nan
  else readUnsignedDecimal? negative s

theorem ofDigits_append_singleton (base : Nat) (ds : List Nat) (d : Nat) :
    ofDigits base (ds ++ [d]) = base * ofDigits base ds + d := by
  simp [ofDigits]

end Numeral

end SourceScan
