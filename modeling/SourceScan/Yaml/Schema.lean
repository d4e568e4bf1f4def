import SourceScan.Text.Blank
import SourceScan.Yaml.Node

/-!
# What plain scalars stand for

A plain scalar without a tag is a truth value, a number, a date, null or a mark if
its text has the form of one, and a string otherwise. The forms are those of
YAML 1.1, with truth values such as `on`, numbers to base sixty, and low lines
between digits.
-/

namespace SourceScan.Yaml

def trueWords : List Text :=
  ["yes", "Yes", "YES", "true", "True", "TRUE", "on", "On", "ON"]

def falseWords : List Text :=
  ["no", "No", "NO", "false", "False", "FALSE", "off", "Off", "OFF"]

def nullWords : List Text := ["~", "null", "Null", "NULL", ""]

def isDigitOrLine (c : Char) : Bool := c.isDigit || c = '_'

def isSixty : Text → Bool
  | [a] => a.isDigit
  | [a, b] => '0' ≤ a && a ≤ '5' && b.isDigit
  | _ => false

def allOf (p : Char → Bool) (s : Text) : Bool := !s.isEmpty && s.all p

def startsWith (first later : Char → Bool) : Text → Bool
  | [] => false
  | c :: cs => first c && cs.all later

def isPositiveDigit (c : Char) : Bool := c.isDigit && c ≠ '0'

def areSixties (parts : List Text) : Bool := !parts.isEmpty && parts.all isSixty

def isUnsignedInt (s : Text) : Bool :=
  s = ['0'] ||
    (match s with
      | '0' :: 'b' :: r => allOf (fun c => c = '0' || c = '1' || c = '_') r
      | '0' :: 'x' :: r =>
          allOf (fun c => c.isDigit || ('a' ≤ c && c ≤ 'f') || ('A' ≤ c && c ≤ 'F') || c = '_') r
      | '0' :: r => allOf (fun c => ('0' ≤ c && c ≤ '7') || c = '_') r
      | s =>
          match Text.splitOn ':' s with
          | [] => false
          | whole :: sixties =>
              startsWith isPositiveDigit isDigitOrLine whole && sixties.all isSixty)

def isInt (s : Text) : Bool := isUnsignedInt (Numeral.splitSign s).2

def isExponent : Text → Bool
  | [] => true
  | e :: sign :: digits =>
      (e = 'e' || e = 'E') && (sign = '+' || sign = '-') && allOf Char.isDigit digits
  | _ => false

def isFraction (s : Text) : Bool := isExponent (s.dropWhile isDigitOrLine)

def infinityWords : List Text := [".inf", ".Inf", ".INF"]

def nanWords : List Text := [".nan", ".NaN", ".NAN"]

def isFloat (s : Text) : Bool :=
  let unsigned := (Numeral.splitSign s).2
  nanWords.contains s || infinityWords.contains unsigned ||
    (match s with
      | '.' :: c :: r => c.isDigit && isFraction r
      | _ => false) ||
    (match Text.cutWhere (· = '.') unsigned with
      | some (whole, _, fraction) =>
          match Text.splitOn ':' whole with
          | [whole] => startsWith Char.isDigit isDigitOrLine whole && isFraction fraction
          | whole :: sixties =>
              startsWith Char.isDigit isDigitOrLine whole && areSixties sixties &&
                fraction.all isDigitOrLine
          | [] => false
      | none => false)

/-! ## Dates and times -/

structure Stamp where
  year : Text
  month : Text
  day : Text
  /-- Hour, minute, second and the digits of the fraction. -/
  clock : Option (Text × Text × Text × Text)
  /-- Minutes away from universal time, if a zone is given. -/
  zone : Option Int
  deriving DecidableEq, Repr

def digits? (least most : Nat) (s : Text) : Option (Text × Text) :=
  let run := (s.take most).takeWhile Char.isDigit
  if run.length < least then none else some (run, s.drop run.length)

def char? (c : Char) : Text → Option Text
  | d :: s => if c = d then some s else none
  | [] => none

def zone? (s : Text) : Option Int :=
  match s with
  | ['Z'] => some 0
  | sign :: s =>
      if sign = '+' || sign = '-' then do
        let (hours, s) ← digits? 1 2 s
        let minutes ←
          match s with
          | [] => some []
          | _ => do
              let (minutes, s) ← digits? 2 2 (← char? ':' s)
              if s.isEmpty then some minutes else none
        let n : Int := Numeral.digitsValue hours * 60 + Numeral.digitsValue minutes
        return if sign = '-' then -n else n
      else none
  | [] => none

def clock? (s : Text) : Option ((Text × Text × Text × Text) × Option Int) := do
  let (hour, s) ← digits? 1 2 s
  let (minute, s) ← digits? 2 2 (← char? ':' s)
  let (second, s) ← digits? 2 2 (← char? ':' s)
  let (fraction, s) :=
    match s with
    | '.' :: s => (s.takeWhile Char.isDigit, s.dropWhile Char.isDigit)
    | s => ([], s)
  if s.isEmpty then return ((hour, minute, second, fraction), none)
  let zone ← zone? (s.dropWhile fun c => c = ' ' || c = '\t')
  return ((hour, minute, second, fraction), some zone)

def Stamp.read? (s : Text) : Option Stamp := do
  let (year, s) ← digits? 4 4 s
  let (month, s) ← digits? 1 2 (← char? '-' s)
  let (day, s) ← digits? 1 2 (← char? '-' s)
  match s with
  | [] => return ⟨year, month, day, none, none⟩
  | c :: rest =>
      let rest ←
        if c = 'T' || c = 't' then some rest
        else if c = ' ' || c = '\t' then some (rest.dropWhile fun c => c = ' ' || c = '\t')
        else none
      let (clock, zone) ← clock? rest
      return ⟨year, month, day, some clock, zone⟩

/-- A date by itself has two digits for month and day. -/
def isTimestamp (s : Text) : Bool :=
  match Stamp.read? s with
  | some stamp => stamp.clock.isSome || (stamp.month.length = 2 && stamp.day.length = 2)
  | none => false

def Tag.ofPlain (s : Text) : Tag :=
  if trueWords.contains s || falseWords.contains s then .bool
  else if isFloat s then .float
  else if isInt s then .int
  else if s = ("<<" : Text) then .merge
  else if nullWords.contains s then .null
  else if isTimestamp s then .timestamp
  else if s = ['='] then .value
  else .str

end SourceScan.Yaml
