import SourceScan.Value

/-!
# Writing JSON

A layout is the shape of a JSON text: atoms, arrays and objects whose atoms are
spelled out already. It is printed either with one item to a line or all on one
line. The characters of a layout may be of any type into which plain characters
embed, so that the same printer serves texts with stray bytes.
-/

namespace SourceScan.Json

inductive Layout (α : Type) where
  | atom (text : List α)
  | array (items : List (Layout α))
  | object (members : List (List α × Layout α))

namespace Layout

variable {α : Type}

def lineBreak (ofChar : Char → α) (depth : Nat) : List α :=
  ofChar '\n' :: List.replicate (2 * depth) (ofChar ' ')

mutual

def pretty (ofChar : Char → α) (depth : Nat) : Layout α → List α
  | .atom text => text
  | .array [] => [ofChar '[', ofChar ']']
  | .array (item :: items) =>
      ofChar '[' :: lineBreak ofChar (depth + 1) ++ pretty ofChar (depth + 1) item ++
        prettyItems ofChar (depth + 1) items ++ lineBreak ofChar depth ++ [ofChar ']']
  | .object [] => [ofChar '\x7b', ofChar '\x7d']
  | .object ((key, value) :: members) =>
      ofChar '\x7b' :: lineBreak ofChar (depth + 1) ++ key ++ [ofChar ':', ofChar ' '] ++
        pretty ofChar (depth + 1) value ++ prettyMembers ofChar (depth + 1) members ++
        lineBreak ofChar depth ++ [ofChar '\x7d']

def prettyItems (ofChar : Char → α) (depth : Nat) : List (Layout α) → List α
  | [] => []
  | item :: items =>
      ofChar ',' :: lineBreak ofChar depth ++ pretty ofChar depth item ++
        prettyItems ofChar depth items

def prettyMembers (ofChar : Char → α) (depth : Nat) : List (List α × Layout α) → List α
  | [] => []
  | (key, value) :: members =>
      ofChar ',' :: lineBreak ofChar depth ++ key ++ [ofChar ':', ofChar ' '] ++
        pretty ofChar depth value ++ prettyMembers ofChar depth members

end

mutual

def compact (ofChar : Char → α) : Layout α → List α
  | .atom text => text
  | .array items =>
      ofChar '[' :: List.intercalate [ofChar ',', ofChar ' '] (compactItems ofChar items) ++
        [ofChar ']']
  | .object members =>
      ofChar '\x7b' :: List.intercalate [ofChar ',', ofChar ' '] (compactMembers ofChar members) ++
        [ofChar '\x7d']

def compactItems (ofChar : Char → α) : List (Layout α) → List (List α)
  | [] => []
  | item :: items => compact ofChar item :: compactItems ofChar items

def compactMembers (ofChar : Char → α) : List (List α × Layout α) → List (List α)
  | [] => []
  | (key, value) :: members =>
      (key ++ [ofChar ':', ofChar ' '] ++ compact ofChar value) :: compactMembers ofChar members

end

end Layout

/-! ## Strings -/

def unicodeEscape (n : Nat) : Text := '\\' :: 'u' :: Text.ofNatPadded 16 4 n

def pairEscape (c : Char) : Text :=
  let n := c.toNat - 0x10000
  unicodeEscape (0xD800 + n / 0x400) ++ unicodeEscape (0xDC00 + n % 0x400)

def shortEscape? : Char → Option Text
  | '"' => some "\\\""
  | '\\' => some "\\\\"
  | '\n' => some "\\n"
  | '\r' => some "\\r"
  | '\t' => some "\\t"
  | '\x08' => some "\\b"
  | '\x0c' => some "\\f"
  | _ => none

/-- A character inside a string; only quotes, backslashes and control characters are escaped. -/
def wideChar (c : Char) : Text :=
  (shortEscape? c).getD (if c.toNat < 0x20 then unicodeEscape c.toNat else [c])

def asciiChar (c : Char) : Text :=
  (shortEscape? c).getD
    (if 0x20 ≤ c.toNat && c.toNat < 0x7F then [c]
     else if c.toNat < 0x10000 then unicodeEscape c.toNat
     else pairEscape c)

def asciiString (s : Text) : Text := '"' :: s.flatMap asciiChar ++ ['"']

/-- A string in which stray bytes stand as they are. -/
def wideString (s : RawText) : RawText :=
  .char '"' :: (s.flatMap fun
    | .char c => (wideChar c).map .char
    | .stray b => [.stray b]) ++ [.char '"']

/-! ## Values -/

inductive WriteError where
  | notSerializable (kind : Kind)
  | badKey (kind : Kind)
  | tooLong
  deriving DecidableEq, Repr

def WriteError.message : WriteError → Text
  | .notSerializable kind =>
      ("Object of type " : Text) ++ kind.name ++ (" is not JSON serializable" : Text)
  | .badKey kind =>
      ("keys must be str, int, float, bool or None, not " : Text) ++ kind.name
  | .tooLong => Value.TooLong.message

def numberStyle : Binary64.NumberStyle := ⟨"NaN", "Infinity", false⟩

def intAtom (i : Int) : Except WriteError Text := (Value.intText i).mapError fun _ => .tooLong

def keyText : Value → Except WriteError Text
  | .str s => .ok s
  | .float x => .ok (x.toText numberStyle)
  | .bool b => .ok (if b then "true" else "false")
  | .null => .ok "null"
  | .int i => intAtom i
  | v => .error (.badKey v.kind)

mutual

def layout : Value → Except WriteError (Layout Char)
  | .null => .ok (.atom "null")
  | .bool b => .ok (.atom (if b then "true" else "false"))
  | .int i => return .atom (← intAtom i)
  | .float x => .ok (.atom (x.toText numberStyle))
  | .str s => .ok (.atom (asciiString s))
  | .list vs => return .array (← layoutAll vs)
  | .pair a b => do
      let a ← layout a
      let b ← layout b
      return .array [a, b]
  | .map es => return .object (← layoutEntries es)
  | .bytes _ => .error (.notSerializable .bytes)
  | .date _ => .error (.notSerializable .date)
  | .dateTime _ => .error (.notSerializable .dateTime)
  | .set _ => .error (.notSerializable .set)

def layoutAll : List Value → Except WriteError (List (Layout Char))
  | [] => .ok []
  | v :: vs => do
      let l ← layout v
      return l :: (← layoutAll vs)

def layoutEntries : List (Value × Value) → Except WriteError (List (Text × Layout Char))
  | [] => .ok []
  | (k, v) :: es => do
      let key ← keyText k
      let l ← layout v
      return (asciiString key, l) :: (← layoutEntries es)

end

def write (v : Value) : Except WriteError Text := do
  return (← layout v).pretty id 0

def writeLine (v : Value) : Except WriteError Text := do
  return (← layout v).compact id

end SourceScan.Json
