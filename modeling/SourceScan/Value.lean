import SourceScan.Calendar.DateTime
import SourceScan.Number.Numeral
import SourceScan.Number.Shortest
import SourceScan.Text.Utf8

/-!
# Values of settings files

What a settings file can hold: scalars, lists, ordered maps and sets. Maps keep
the order in which their keys came first; two keys are the same if they compare
equal, so that `1`, `1.0` and `true` are one key, or if neither is a number.
-/

namespace SourceScan

inductive Value where
  | null
  | bool (b : Bool)
  | int (i : Int)
  | float (x : Binary64)
  | str (s : Text)
  | bytes (b : Bytes)
  | date (d : Calendar.Date)
  | dateTime (t : Calendar.DateTime)
  | list (vs : List Value)
  | pair (first second : Value)
  | map (entries : List (Value × Value))
  | set (vs : List Value)
  deriving Repr, Inhabited

inductive Kind where
  | null
  | bool
  | int
  | float
  | str
  | bytes
  | date
  | dateTime
  | list
  | pair
  | map
  | set
  deriving DecidableEq, Repr

def Kind.name : Kind → Text
  | .null => "NoneType"
  | .bool => "bool"
  | .int => "int"
  | .float => "float"
  | .str => "str"
  | .bytes => "bytes"
  | .date => "date"
  | .dateTime => "datetime"
  | .list => "list"
  | .pair => "tuple"
  | .map => "dict"
  | .set => "set"

def Kind.fullName : Kind → Text
  | .date => "datetime.date"
  | .dateTime => "datetime.datetime"
  | k => k.name

namespace Value

def kind : Value → Kind
  | .null => .null
  | .bool _ => .bool
  | .int _ => .int
  | .float _ => .float
  | .str _ => .str
  | .bytes _ => .bytes
  | .date _ => .date
  | .dateTime _ => .dateTime
  | .list _ => .list
  | .pair .. => .pair
  | .map _ => .map
  | .set _ => .set

/-- Empty, zero, false and null values do not count as true. -/
def isTruthy : Value → Bool
  | .null => false
  | .bool b => b
  | .int i => i ≠ 0
  | .float x => !x.isZero
  | .str s => !s.isEmpty
  | .bytes b => !b.isEmpty
  | .list vs => !vs.isEmpty
  | .map es => !es.isEmpty
  | .set vs => !vs.isEmpty
  | .date _ | .dateTime _ | .pair .. => true

def isHashable : Value → Bool
  | .list _ | .map _ | .set _ => false
  | _ => true

def int? : Value → Option Int
  | .int i => some i
  | .bool b => some b.toNat
  | _ => none

def sameKey : Value → Value → Bool
  | .null, .null => true
  | .str s, .str t => s = t
  | .bytes s, .bytes t => s = t
  | .date d, .date e => d = e
  | .dateTime t, .dateTime u => t.sameInstant u
  | .float .nan, .float .nan => true
  | .float x, .float y => x.compare? y = some .eq
  | .pair a b, .pair c d => sameKey a c && sameKey b d
  | v, .float y => v.int?.any fun i => Binary64.compareInt? i y = some .eq
  | .float x, w => w.int?.any fun i => Binary64.compareInt? i x = some .eq
  | v, w => v.int?.isSome && v.int? = w.int?

/-- Sets the value of a key; a key that is there already keeps its place. -/
def putEntry (key value : Value) : List (Value × Value) → List (Value × Value)
  | [] => [(key, value)]
  | e :: es =>
      if sameKey e.1 key then (e.1, value) :: es else e :: putEntry key value es

def entry? (key : Value) (entries : List (Value × Value)) : Option Value :=
  (entries.find? fun e => sameKey e.1 key).map (·.2)

def field? (key : String) (entries : List (Value × Value)) : Option Value :=
  entry? (.str key.toList) entries

/-- The elements that going through a value yields, if it can be gone through: a map yields its
keys, a text its characters and bytes their numbers. -/
def elements? : Value → Option (List Value)
  | .list vs => some vs
  | .set vs => some vs
  | .pair a b => some [a, b]
  | .map es => some (es.map (·.1))
  | .str s => some (s.map fun c => .str [c])
  | .bytes b => some (b.map fun x => .int x.toNat)
  | _ => none

def addElement (v : Value) (vs : List Value) : List Value :=
  if vs.any (sameKey · v) then vs else vs ++ [v]

structure TooLong where
  deriving DecidableEq, Repr

def TooLong.message : Text :=
  ("Exceeds the limit (" : Text) ++ Text.ofNat Numeral.digitLimit ++
    (" digits) for integer string conversion; use sys.set_int_max_str_digits() to increase " :
      Text) ++
    ("the limit" : Text)

def intText (i : Int) : Except TooLong Text :=
  if Nat.pow 10 Numeral.digitLimit ≤ i.natAbs then .error ⟨⟩ else .ok (Text.ofInt i)

def boolText (b : Bool) : Text := if b then "True" else "False"

def bytesText (b : Bytes) : Text :=
  let chars : Text := b.map fun x => Char.ofNat x.toNat
  let quote := Text.quoteFor chars
  let one (c : Char) : Text :=
    if c.toNat < 0x7F then Text.quotedChar quote c else Text.codeEscape c.toNat
  'b' :: quote :: chars.flatMap one ++ [quote]

def dateTimeFields (t : Calendar.DateTime) : Text :=
  let numbers : List Nat :=
    [t.date.year, t.date.month, t.date.day, t.hour, t.minute] ++
      (if t.second = 0 && t.microsecond = 0 then [] else [t.second]) ++
      (if t.microsecond = 0 then [] else [t.microsecond])
  let zone : List Text :=
    match t.offset with
    | none => []
    | some 0 => ["tzinfo=datetime.timezone.utc"]
    | some m =>
        [("tzinfo=datetime.timezone(" : Text) ++ Calendar.spanText m ++ (")" : Text)]
  ("datetime.datetime(" : Text) ++
    List.intercalate (", " : Text) (numbers.map Text.ofNat ++ zone) ++ (")" : Text)

def dateFields (d : Calendar.Date) : Text :=
  ("datetime.date(" : Text) ++
    List.intercalate (", " : Text) ([d.year, d.month, d.day].map Text.ofNat) ++ (")" : Text)

mutual

def inner : Value → Except TooLong Text
  | .null => .ok "None"
  | .bool b => .ok (boolText b)
  | .int i => intText i
  | .float x => .ok (x.toText Binary64.plainStyle)
  | .str s => .ok (Text.quoted s)
  | .bytes b => .ok (bytesText b)
  | .date d => .ok (dateFields d)
  | .dateTime t => .ok (dateTimeFields t)
  | .list vs => do
      return '[' :: List.intercalate (", " : Text) (← innerAll vs) ++ [']']
  | .pair a b => do
      return '(' :: (← inner a) ++ (", " : Text) ++ (← inner b) ++ [')']
  | .map es => do
      return '\x7b' :: List.intercalate (", " : Text) (← innerEntries es) ++ ['\x7d']
  | .set [] => .ok "set()"
  | .set vs => do
      return '\x7b' :: List.intercalate (", " : Text) (← innerAll vs) ++ ['\x7d']

def innerAll : List Value → Except TooLong (List Text)
  | [] => .ok []
  | v :: vs => do
      let t ← inner v
      return t :: (← innerAll vs)

def innerEntries : List (Value × Value) → Except TooLong (List Text)
  | [] => .ok []
  | (k, v) :: es => do
      let k ← inner k
      let v ← inner v
      return (k ++ (": " : Text) ++ v) :: (← innerEntries es)

end

def toText : Value → Except TooLong Text
  | .str s => .ok s
  | .date d => .ok d.toText
  | .dateTime t => .ok (t.toText ' ')
  | v => v.inner

end Value

end SourceScan
