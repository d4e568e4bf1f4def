import SourceScan.Value
import SourceScan.Yaml.Pen

/-!
# Writing YAML documents

Collections are written in block style, one item to a line, with two spaces for
each level; the items of a list below a key are not moved in. A tag is written
where the text alone would be read as something else.
-/

namespace SourceScan.Yaml

inductive Form where
  | scalar (tag : Tag) (text : RawText)
  /-- Lines of a binary value. -/
  | block (tag : Tag) (lines : List Text)
  | seq (tag : Tag) (items : List Form)
  | map (tag : Tag) (entries : List (Form × Form))
  deriving Inhabited

def Tag.written : Tag → Text
  | .other name =>
      match Text.dropPrefix? standardStart name with
      | some short => '!' :: '!' :: short
      | none => name
  | tag =>
      '!' :: '!' :: ((standard.find? (·.2 = tag)).map (·.1)).getD []

namespace Form

/-- The longest key, with its tag, that is written on the line of its value. -/
def keyWidth : Nat := 127

def isSimpleKey : Form → Bool
  | .scalar tag s =>
      tag.written.length + s.length ≤ keyWidth && !s.isEmpty &&
        !s.any fun u => u.char?.any isWrittenBreak
  | .block .. => false
  | .seq _ items => items.isEmpty
  | .map _ entries => entries.isEmpty

/-- The column of what is nested at a level; the outermost collection is not moved in. -/
def columnBelow : Option Nat → Nat
  | none => 0
  | some n => n + 2

def putTag (tag plainTag : Tag) (p : Pen) : Pen := if tag = plainTag then p else p.mark tag.written

def putScalar (wide simpleKey : Bool) (column : Nat) (tag : Tag) (s : RawText) (p : Pen) : Pen :=
  let split := !simpleKey
  match Style.choose wide simpleKey tag s with
  | .plain => p.plain column split s.shown
  | .single => (putTag tag .str p).single column split s.shown
  | .double => (putTag tag .str p).double wide column split s

mutual

/-- Writes a form. `level` is the column of the collection around it, `underKey` says whether that
is a mapping. -/
def put (wide : Bool) (level : Option Nat) (underKey simpleKey : Bool) : Form → Pen → Pen
  | .scalar tag s, p => putScalar wide simpleKey ((level.map (· + 2)).getD 2) tag s p
  | .block tag [], p => (p.mark tag.written).mark ['"', '"']
  | .block tag lines, p => (p.mark tag.written).literal ((level.map (· + 2)).getD 2) lines
  | .seq tag [], p => (putTag tag .seq p).mark ['[', ']']
  | .seq tag items, p =>
      let p := putTag tag .seq p
      let column := if underKey && !p.fresh then level.getD 0 else columnBelow level
      putItems wide column items p
  | .map tag [], p => (putTag tag .map p).mark ['\x7b', '\x7d']
  | .map tag entries, p => putEntries wide (columnBelow level) entries (putTag tag .map p)

def putItems (wide : Bool) (column : Nat) : List Form → Pen → Pen
  | [], p => p
  | item :: items, p =>
      putItems wide column items
        (put wide (some column) false false item ((p.toColumn column).bullet ['-']))

def putEntries (wide : Bool) (column : Nat) : List (Form × Form) → Pen → Pen
  | [], p => p
  | (key, value) :: entries, p =>
      let p := p.toColumn column
      let p :=
        if key.isSimpleKey then (put wide (some column) true true key p).close [':']
        else
          ((put wide (some column) true false key (p.bullet ['?'])).toColumn column).bullet [':']
      putEntries wide column entries (put wide (some column) true false value p)

end

def write (wide : Bool) (form : Form) : Text :=
  ((put wide none false false form .start).toColumn 0).text

def str (s : Text) : Form := .scalar .str (RawText.ofText s)

def numberStyle : Binary64.NumberStyle := ⟨".nan", ".inf", true⟩

def base64Char (n : Nat) : Char :=
  if n < 26 then Char.ofNat (0x41 + n)
  else if n < 52 then Char.ofNat (0x61 + (n - 26))
  else if n < 62 then Char.ofNat (0x30 + (n - 52))
  else if n = 62 then '+'
  else '/'

def base64 : Bytes → Text
  | [] => []
  | [a] =>
      let n := a.toNat * 16
      [base64Char (n / 64), base64Char (n % 64), '=', '=']
  | [a, b] =>
      let n := (a.toNat * 256 + b.toNat) * 4
      [base64Char (n / 4096), base64Char (n / 64 % 64), base64Char (n % 64), '=']
  | a :: b :: c :: rest =>
      let n := (a.toNat * 256 + b.toNat) * 256 + c.toNat
      base64Char (n / 262144) :: base64Char (n / 4096 % 64) :: base64Char (n / 64 % 64) ::
        base64Char (n % 64) :: base64 rest

def cutLines (length : Nat) (s : Text) : List Text :=
  go s.length s
where
  go : Nat → Text → List Text
    | 0, _ => []
    | _, [] => []
    | fuel + 1, s => s.take length :: go fuel (s.drop length)

mutual

def ofValue : Value → Except Value.TooLong Form
  | .null => .ok (.scalar .null ("null" : Text))
  | .bool b => .ok (.scalar .bool ((if b then "true" else "false") : Text))
  | .int i => do return .scalar .int (← Value.intText i)
  | .float x => .ok (.scalar .float (x.toText numberStyle))
  | .str s => .ok (str s)
  | .bytes b => .ok (.block .binary (cutLines 76 (base64 b)))
  | .date d => .ok (.scalar .timestamp d.toText)
  | .dateTime t => .ok (.scalar .timestamp (t.toText ' '))
  | .list vs => do return .seq .seq (← ofValues vs)
  | .pair a b => do
      let a ← ofValue a
      let b ← ofValue b
      return .seq (.other (Tag.standardStart ++ ("python/tuple" : Text))) [a, b]
  | .map es => do return .map .map (← ofEntries es)
  | .set vs => do
      return .map .set ((← ofValues vs).map fun f => (f, .scalar .null ("null" : Text)))

def ofValues : List Value → Except Value.TooLong (List Form)
  | [] => .ok []
  | v :: vs => do
      let f ← ofValue v
      return f :: (← ofValues vs)

def ofEntries : List (Value × Value) → Except Value.TooLong (List (Form × Form))
  | [] => .ok []
  | (k, v) :: es => do
      let k ← ofValue k
      let v ← ofValue v
      return (k, v) :: (← ofEntries es)

end

end Form

end SourceScan.Yaml
