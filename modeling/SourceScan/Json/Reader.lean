import SourceScan.Value

/-!
# Reading JSON

The grammar of JSON, with `NaN` and the two infinities as further numbers. A text
that is no JSON is refused at the first character that cannot continue it; the
fault carries the number of characters from there to the end, and `Error` turns
that into a line and a column.
-/

namespace SourceScan.Json

inductive Cause where
  | value
  | comma
  | colon
  | propertyName
  | extraData
  | controlCharacter
  | unterminatedString
  | escape
  | unicodeEscape
  | byteOrderMark
  deriving DecidableEq, Repr

def Cause.message : Cause → Text
  | .value => "Expecting value"
  | .comma => "Expecting ',' delimiter"
  | .colon => "Expecting ':' delimiter"
  | .propertyName => "Expecting property name enclosed in double quotes"
  | .extraData => "Extra data"
  | .controlCharacter => "Invalid control character at"
  | .unterminatedString => "Unterminated string starting at"
  | .escape => "Invalid \\escape"
  | .unicodeEscape => "Invalid \\uXXXX escape"
  | .byteOrderMark => "Unexpected UTF-8 BOM (decode using utf-8-sig)"

/-- A reason to stop: a fault of the grammar, with the number of characters left, or an integer that
is too long to be read. -/
inductive Stop where
  | fault (cause : Cause) (left : Nat)
  | tooManyDigits (count : Nat)
  deriving DecidableEq, Repr

def isSpace (c : Char) : Bool := c = ' ' || c = '\t' || c = '\n' || c = '\r'

def skipSpace (s : Text) : Text := s.dropWhile isSpace

/-! ## Strings -/

def hexDigit? (c : Char) : Option Nat :=
  if c.isDigit then some (c.toNat - 0x30)
  else if 'a' ≤ c && c ≤ 'f' then some (c.toNat - 0x61 + 10)
  else if 'A' ≤ c && c ≤ 'F' then some (c.toNat - 0x41 + 10)
  else none

def codeUnit? (a b c d : Char) : Option Nat := do
  return Numeral.ofDigits 16 [← hexDigit? a, ← hexDigit? b, ← hexDigit? c, ← hexDigit? d]

def isHighSurrogate (n : Nat) : Bool := 0xD800 ≤ n && n < 0xDC00

def isLowSurrogate (n : Nat) : Bool := 0xDC00 ≤ n && n < 0xE000

/-- The character of a code unit; half of a pair by itself is no character and gives the
replacement character. -/
def charOfUnit (n : Nat) : Char :=
  if isHighSurrogate n || isLowSurrogate n then '\uFFFD' else Char.ofNat n

def charOfPair (high low : Nat) : Char :=
  Char.ofNat (0x10000 + (high - 0xD800) * 0x400 + (low - 0xDC00))

def simpleEscape? : Char → Option Char
  | '"' => some '"'
  | '\\' => some '\\'
  | '/' => some '/'
  | 'b' => some '\x08'
  | 'f' => some '\x0c'
  | 'n' => some '\n'
  | 'r' => some '\r'
  | 't' => some '\t'
  | _ => none

/-- Reads a string after its opening quote. `start` counts the characters from that quote to the
end of the text, and `out` holds the characters read so far, the last one first. -/
def readString (start : Nat) (out : Text) : Text → Except Stop (Text × Text)
  | [] => .error (.fault .unterminatedString start)
  | '"' :: rest => .ok (out.reverse, rest)
  | ['\\'] => .error (.fault .unterminatedString start)
  | '\\' :: 'u' :: a :: b :: c :: d :: '\\' :: 'u' :: e :: f :: g :: h :: rest =>
      match codeUnit? a b c d with
      | none => .error (.fault .unicodeEscape (rest.length + 11))
      | some high =>
          if isHighSurrogate high && !rest.isEmpty then
            match codeUnit? e f g h with
            | none => .error (.fault .unicodeEscape (rest.length + 5))
            | some low =>
                if isLowSurrogate low then readString start (charOfPair high low :: out) rest
                else readString start (charOfUnit high :: out)
                  ('\\' :: 'u' :: e :: f :: g :: h :: rest)
          else
            readString start (charOfUnit high :: out) ('\\' :: 'u' :: e :: f :: g :: h :: rest)
  | '\\' :: 'u' :: a :: b :: c :: d :: rest =>
      match rest, codeUnit? a b c d with
      | [], _ | _, none => .error (.fault .unicodeEscape (rest.length + 5))
      | rest, some unit => readString start (charOfUnit unit :: out) rest
  | '\\' :: c :: rest =>
      if c = 'u' then .error (.fault .unicodeEscape (rest.length + 1))
      else
        match simpleEscape? c with
        | none => .error (.fault .escape (rest.length + 2))
        | some d => readString start (d :: out) rest
  | c :: rest =>
      if c.toNat < 0x20 then .error (.fault .controlCharacter (rest.length + 1))
      else readString start (c :: out) rest
termination_by s => s.length

/-! ## Numbers -/

def splitWhole? (s : Text) : Option (Text × Text) :=
  match s with
  | [] => none
  | c :: rest =>
      if c = '0' then some (['0'], rest)
      else if c.isDigit then some (s.takeWhile Char.isDigit, s.dropWhile Char.isDigit)
      else none

def splitFraction (s : Text) : Option Text × Text :=
  match s with
  | '.' :: c :: rest =>
      if c.isDigit then
        (some ((c :: rest).takeWhile Char.isDigit), (c :: rest).dropWhile Char.isDigit)
      else (none, s)
  | _ => (none, s)

def splitExponent (s : Text) : Option Int × Text :=
  match s with
  | c :: rest =>
      if c = 'e' || c = 'E' then
        let (negative, digits) := Numeral.splitSign rest
        let run := digits.takeWhile Char.isDigit
        if run.isEmpty then (none, s)
        else
          let e : Int := Numeral.digitsValue run
          (some (if negative then -e else e), digits.dropWhile Char.isDigit)
      else (none, s)
  | [] => (none, s)

def readNumber (s : Text) : Except Stop (Value × Text) :=
  let (negative, unsigned) :=
    match s with
    | '-' :: rest => (true, rest)
    | _ => (false, s)
  match splitWhole? unsigned with
  | none => .error (.fault .value s.length)
  | some (whole, rest) =>
      let (fraction, rest) := splitFraction rest
      let (exponent, rest) := splitExponent rest
      if fraction.isNone && exponent.isNone then
        if Numeral.digitLimit < whole.length then .error (.tooManyDigits whole.length)
        else
          let n : Int := Numeral.digitsValue whole
          .ok (.int (if negative then -n else n), rest)
      else
        let fraction := fraction.getD []
        .ok (.float (Binary64.ofDecimal negative (Numeral.digitsValue (whole ++ fraction))
          (exponent.getD 0 - fraction.length)), rest)

def words : List (Text × Value) :=
  [("null", .null), ("true", .bool true), ("false", .bool false), ("NaN", .float .nan),
   ("Infinity", .float (.infinite false)), ("-Infinity", .float (.infinite true))]

def readScalar (s : Text) : Except Stop (Value × Text) :=
  match words.findSome? fun w => (Text.dropPrefix? w.1 s).map fun rest => (w.2, rest) with
  | some found => .ok found
  | none => readNumber s

/-! ## Values -/

mutual

/-- Reads a value at the front of the text. Every call reads a character, so that a fuel of the
length of the text suffices. -/
def readValue (fuel : Nat) (s : Text) : Except Stop (Value × Text) :=
  match fuel with
  | 0 => .error (.fault .value s.length)
  | fuel + 1 =>
      match s with
      | '"' :: rest => do
          let (t, rest) ← readString s.length [] rest
          return (.str t, rest)
      | '[' :: rest =>
          match skipSpace rest with
          | ']' :: rest => .ok (.list [], rest)
          | rest => readItems fuel [] rest
      | '\x7b' :: rest =>
          match skipSpace rest with
          | '\x7d' :: rest => .ok (.map [], rest)
          | rest => readMembers fuel [] rest
      | s => readScalar s

def readItems (fuel : Nat) (done : List Value) (s : Text) : Except Stop (Value × Text) :=
  match fuel with
  | 0 => .error (.fault .value s.length)
  | fuel + 1 => do
      let (v, rest) ← readValue fuel s
      match skipSpace rest with
      | ']' :: rest => return (.list (v :: done).reverse, rest)
      | ',' :: rest => readItems fuel (v :: done) (skipSpace rest)
      | rest => throw (.fault .comma rest.length)

def readMembers (fuel : Nat) (done : List (Value × Value)) (s : Text) :
    Except Stop (Value × Text) :=
  match fuel with
  | 0 => .error (.fault .value s.length)
  | fuel + 1 =>
      match s with
      | '"' :: rest => do
          let (key, rest) ← readString s.length [] rest
          match skipSpace rest with
          | ':' :: rest =>
              let (v, rest) ← readValue fuel (skipSpace rest)
              let done := Value.putEntry (.str key) v done
              match skipSpace rest with
              | '\x7d' :: rest => return (.map done, rest)
              | ',' :: rest => readMembers fuel done (skipSpace rest)
              | rest => throw (.fault .comma rest.length)
          | rest => throw (.fault .colon rest.length)
      | s => .error (.fault .propertyName s.length)

end

/-! ## Whole texts -/

structure Error where
  cause : Cause
  line : Nat
  column : Nat
  position : Nat
  deriving DecidableEq, Repr

def Error.at (s : Text) (cause : Cause) (left : Nat) : Error :=
  let before := s.take (s.length - left)
  let lastLine := before.reverse.takeWhile (· ≠ '\n')
  ⟨cause, before.count '\n' + 1, lastLine.length + 1, before.length⟩

def Error.message (e : Error) : Text :=
  e.cause.message ++ (": line " : Text) ++ Text.ofNat e.line ++ (" column " : Text) ++
    Text.ofNat e.column ++ (" (char " : Text) ++ Text.ofNat e.position ++ [')']

inductive ReadError where
  | notJson (error : Error)
  | tooManyDigits (count : Nat)
  deriving DecidableEq, Repr

def Stop.toError (s : Text) : Stop → ReadError
  | .fault cause left => .notJson (.at s cause left)
  | .tooManyDigits count => .tooManyDigits count

def readDocument (s : Text) : Except Stop Value := do
  if s.head? = some '\uFEFF' then throw (.fault .byteOrderMark s.length)
  let (v, rest) ← readValue (2 * s.length + 1) (skipSpace s)
  match skipSpace rest with
  | [] => return v
  | rest => throw (.fault .extraData rest.length)

def read (s : Text) : Except ReadError Value := (readDocument s).mapError (·.toError s)

end SourceScan.Json
