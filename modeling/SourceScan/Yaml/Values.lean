import SourceScan.Text.Case
import SourceScan.Value
import SourceScan.Yaml.Document

/-!
# Values of YAML documents

Each node stands for a value by its tag. The entries of merged mappings come
before a mapping's own entries, which replace them. Where a document has several
faults, the one that counts is the first of the outermost level.
-/

namespace SourceScan.Yaml

/-! ## Scalars -/

def withoutLines (s : Text) : Text := s.filter (· ≠ '_')

def digitOfBase? (base : Nat) (c : Char) : Option Nat :=
  ((hexDigit? c).filter (· < base))

def baseLetter? : Nat → Option Char
  | 2 => some 'b'
  | 8 => some 'o'
  | 16 => some 'x'
  | _ => none

def dropBaseMark (base : Nat) : Text → Text
  | '0' :: c :: s => if baseLetter? base = some c.toLower then s else '0' :: c :: s
  | s => s

def intOfBase (base : Nat) (s : Text) : Except Fault Int :=
  let (negative, digits) := Numeral.splitSign ((Numeral.bare? s).getD [])
  let digits := dropBaseMark base digits
  let ds := digits.filterMap (digitOfBase? base)
  if digits.isEmpty || ds.length ≠ digits.length then .error (.badInteger base s)
  else
    let n : Int := Numeral.ofDigits base ds
    .ok (if negative then -n else n)

def decimalInt (s : Text) : Except Fault Int :=
  match Numeral.readInt s with
  | .ok n => .ok n
  | .error .malformed => .error (.badInteger 10 s)
  | .error (.tooManyDigits count) => .error (.tooManyDigits count)

def unsignedInt (s : Text) : Except Fault Int :=
  match s with
  | [] => .error .emptyNumber
  | ['0'] => .ok 0
  | '0' :: 'b' :: r => intOfBase 2 r
  | '0' :: 'x' :: r => intOfBase 16 r
  | '0' :: _ => intOfBase 8 s
  | s =>
      if s.contains ':' then do
        let parts ← (Text.splitOn ':' s).mapM decimalInt
        return parts.foldl (fun n d => 60 * n + d) 0
      else decimalInt s

def readInt (s : Text) : Except Fault Int :=
  match withoutLines s with
  | [] => .error .emptyNumber
  | '-' :: s => (unsignedInt s).map fun n => -n
  | '+' :: s => unsignedInt s
  | s => unsignedInt s

def decimalFloat (s : Text) : Except Fault Binary64 :=
  match Numeral.readDecimal? s with
  | some x => .ok x
  | none => .error (.badNumber s)

/-- The sum of digits to base sixty, the least significant first, rounded at each step. -/
def sixtySum : Int → Binary64 → List Binary64 → Binary64
  | _, sum, [] => sum
  | base, sum, d :: ds => sixtySum (base * 60) (sum.add (d.mul (.ofInt base))) ds

def unsignedFloat (s : Text) : Except Fault Binary64 :=
  if s = (".inf" : Text) then .ok (.infinite false)
  else if s = (".nan" : Text) then .ok .nan
  else if s.contains ':' then do
    let parts ← (Text.splitOn ':' s).mapM decimalFloat
    return sixtySum 1 .zero parts.reverse
  else decimalFloat s

def readFloat (s : Text) : Except Fault Binary64 :=
  match Text.lower (withoutLines s) with
  | [] => .error .emptyNumber
  | '-' :: s => (unsignedFloat s).map .neg
  | '+' :: s => unsignedFloat s
  | s => unsignedFloat s

def readBool (s : Text) : Except Fault Bool :=
  let low := Text.lower s
  if low ∈ ([("yes" : Text), ("true" : Text), ("on" : Text)] : List Text) then .ok true
  else if low ∈ ([("no" : Text), ("false" : Text), ("off" : Text)] : List Text) then .ok false
  else .error (.badBool low)

def microseconds (fraction : Text) : Nat :=
  let six := fraction.take 6
  Numeral.digitsValue (six ++ List.replicate (6 - six.length) '0')

def withoutLineFeed (s : Text) : Text := if s.getLast? = some '\n' then s.dropLast else s

def readTimestamp (s : Text) : Except Fault Value := do
  match Stamp.read? (withoutLineFeed s) with
  | none => throw .badTimestamp
  | some stamp =>
      let number := Numeral.digitsValue
      let d : Calendar.Date := ⟨number stamp.year, number stamp.month, number stamp.day⟩
      match stamp.clock with
      | none =>
          match d.fault? with
          | some fault => throw (.time (.date fault))
          | none => return .date d
      | some (hour, minute, second, fraction) =>
          let t : Calendar.DateTime :=
            ⟨d, number hour, number minute, number second, microseconds fraction, stamp.zone⟩
          match t.fault? with
          | some fault => throw (.time fault)
          | none => return .dateTime t

def base64Digit? (c : Char) : Option Nat :=
  if 'A' ≤ c && c ≤ 'Z' then some (c.toNat - 0x41)
  else if 'a' ≤ c && c ≤ 'z' then some (c.toNat - 0x61 + 26)
  else if c.isDigit then some (c.toNat - 0x30 + 52)
  else if c = '+' then some 62
  else if c = '/' then some 63
  else none

/-- Reads base 64. `held` lists the digits of the current group of four, and `pads` counts the
padding marks since the last digit; other characters are passed over. -/
def base64 (held : List Nat) (pads : Nat) (out : Bytes) : Text → Except Fault Bytes
  | [] => if held.isEmpty then .ok out.reverse else .error .malformed
  | c :: s =>
      if c = '=' then
        if 2 ≤ held.length && 4 ≤ held.length + pads + 1 then .ok out.reverse
        else base64 held (if 2 ≤ held.length then pads + 1 else pads) out s
      else
        match base64Digit? c with
        | none => base64 held pads out s
        | some d =>
            match held with
            | [] => base64 [d] 0 out s
            | [a] => base64 [a, d] 0 ((a * 4 + d / 16).toUInt8 :: out) s
            | [a, b] => base64 [a, b, d] 0 ((b % 16 * 16 + d / 4).toUInt8 :: out) s
            | _ => base64 [] 0 ((held.getD 2 0 % 4 * 64 + d).toUInt8 :: out) s

def readBinary (s : Text) : Except Fault Bytes :=
  if s.all fun c => c.toNat < 0x80 then base64 [] 0 [] s else .error .malformed

def scalarValue (tag : Tag) (s : Text) : Except Fault Value :=
  match tag with
  | .null => .ok .null
  | .bool => (readBool s).map .bool
  | .int => (readInt s).map .int
  | .float => (readFloat s).map .float
  | .binary => (readBinary s).map .bytes
  | .timestamp => readTimestamp s
  | .str => .ok (.str s)
  | _ => .error .malformed

/-! ## Collections -/

namespace Node

/-- The text of a scalar; a mapping may give its text under the mark `=`. -/
def scalarText : Node → Except Fault Text
  | .scalar _ s => .ok s
  | .seq .. => .error .malformed
  | .map _ entries => search entries
where
  search : List (Node × Node) → Except Fault Text
    | [] => .error .malformed
    | (k, v) :: es => if k.tag = .value then scalarText v else search es

def plainKey : Node → Node
  | .scalar .value s => .scalar .str s
  | n => n

mutual

def flatten : List (Node × Node) → Except Fault (List (Node × Node) × List (Node × Node))
  | [] => .ok ([], [])
  | (k, v) :: es => do
      if k.tag = .merge then
        let own ← merged v
        let (rest, later) ← flatten es
        return (own ++ rest, later)
      else
        let (rest, later) ← flatten es
        return (rest, (plainKey k, v) :: later)

/-- The entries that a merged node brings: those of a mapping, or of a row of mappings, of which
the first one counts most. -/
def merged : Node → Except Fault (List (Node × Node))
  | .scalar .. => .error .malformed
  | .map _ es => do
      let (front, own) ← flatten es
      return front ++ own
  | .seq _ items => mergedAll items

def mergedAll : List Node → Except Fault (List (Node × Node))
  | [] => .ok []
  | .map _ es :: items => do
      let (front, own) ← flatten es
      let rest ← mergedAll items
      return rest ++ (front ++ own)
  | _ :: _ => .error .malformed

end

def allEntries : Node → Except Fault (List (Node × Node))
  | .map _ es => do
      let (front, own) ← flatten es
      return front ++ own
  | _ => .error .malformed

def itemsOf : Node → Except Fault (List Node)
  | .seq _ items => .ok items
  | _ => .error .malformed

def onlyEntry : Node → Except Fault (Node × Node)
  | .map _ [e] => .ok e
  | _ => .error .malformed

/-- Collections are filled in only after all that surrounds them has been looked at. -/
def isCollection (n : Node) : Bool :=
  n.tag ∈ [Tag.seq, .map, .omap, .pairs, .set]

def value : Nat → Node → Except Fault Value
  | 0, _ => .error .malformed
  | fuel + 1, n =>
      match n.tag with
      | .seq => do return .list (← (← n.itemsOf).mapM (value fuel))
      | .map => do return .map (← entries fuel n)
      | .set => do
          return .set ((← entries fuel n).foldl (fun vs e => Value.addElement e.1 vs) [])
      | .omap | .pairs => do
          return .list (← (← n.itemsOf).mapM fun item => do
            let (k, v) ← item.onlyEntry
            return .pair (← value fuel k) (← value fuel v))
      | tag => do scalarValue tag (← n.scalarText)
where
  entries (fuel : Nat) (n : Node) : Except Fault (List (Value × Value)) := do
    (← n.allEntries).foldlM
      (fun es (k, v) => do
        let key ← value fuel k
        if !key.isHashable then throw .malformed
        return Value.putEntry key (← value fuel v) es)
      []

/-! ## The fault that counts -/

def glance (n : Node) : Except Fault (List Node) :=
  if n.isCollection then .ok [n]
  else do
    let _ ← scalarValue n.tag (← n.scalarText)
    return []

def expand (n : Node) : Except Fault (List Node) :=
  match n.tag with
  | .seq => do return (← (← n.itemsOf).mapM glance).flatten
  | .omap | .pairs => do
      return (← (← n.itemsOf).mapM fun item => do
        let (k, v) ← item.onlyEntry
        return (← glance k) ++ (← glance v)).flatten
  | _ => do
      return (← (← n.allEntries).mapM fun (k, v) => do
        if k.isCollection then throw .malformed
        let _ ← glance k
        glance v).flatten

def expandLevels : Nat → List Node → Except Fault Unit
  | 0, _ => .ok ()
  | fuel + 1, ns => do
      if !ns.isEmpty then expandLevels fuel (← ns.mapM expand).flatten

def documentValue (n : Node) : Except Fault Value := do
  expandLevels (n.depth + 1) (← glance n)
  value (n.depth + 1) n

end Node

def read (s : Text) : Except Fault Value := do
  match ← Node.read s with
  | none => return .null
  | some n => n.documentValue

end SourceScan.Yaml
