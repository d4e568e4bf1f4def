import SourceScan.Yaml.Scalar

/-!
# From a YAML text to its tokens

The lexer keeps the columns of the open block collections and, for each level of
flow collections, the place where a simple key may have begun. When a colon shows
that it was one, the token that announces a key is inserted at that place.
-/

namespace SourceScan.Yaml

/-- The place of what may turn out to be a key: the number of its first token, and whether it
has to be one. -/
structure SimpleKey where
  number : Nat
  required : Bool
  index : Nat
  line : Nat
  column : Nat
  deriving Repr

structure Lexer where
  cursor : Cursor
  flowLevel : Nat
  indent : Int
  indents : List Int
  keyAllowed : Bool
  /-- The possible keys by flow level. -/
  keys : List (Nat × SimpleKey)
  /-- The tokens so far, the last one first. -/
  tokens : List Token
  deriving Repr

namespace Lexer

def start (s : Text) : Lexer :=
  let c := Cursor.start s
  ⟨if c.here = '\uFEFF' then c.next else c, 0, -1, [], true, [], []⟩

def emit (x : Lexer) (t : Token) : Lexer := { x with tokens := t :: x.tokens }

def insertAt (x : Lexer) (number : Nat) (t : Token) : Lexer :=
  { x with tokens := x.tokens.insertIdx (x.tokens.length - number) t }

def column (x : Lexer) : Int := x.cursor.column

/-- A key longer than this, or one that does not end on its line, is none. -/
def keyLimit : Nat := 1024

def dropStaleKeys (x : Lexer) : Except Fault Lexer :=
  let isStale (k : SimpleKey) : Bool :=
    k.line ≠ x.cursor.line || keyLimit < x.cursor.index - k.index
  if x.keys.any fun k => isStale k.2 && k.2.required then .error .malformed
  else .ok { x with keys := x.keys.filter (!isStale ·.2) }

def removeKey (x : Lexer) : Except Fault Lexer :=
  if x.keys.any fun k => k.1 = x.flowLevel && k.2.required then .error .malformed
  else .ok { x with keys := x.keys.filter (·.1 ≠ x.flowLevel) }

def saveKey (x : Lexer) : Except Fault Lexer :=
  if x.keyAllowed then do
    let x ← x.removeKey
    let c := x.cursor
    let required := x.flowLevel = 0 && x.indent = x.column
    return { x with
      keys := (x.flowLevel, ⟨x.tokens.length, required, c.index, c.line, c.column⟩) :: x.keys }
  else .ok x

def unwind (column : Int) : List Int → Lexer → Lexer
  | [], x => x
  | outer :: indents, x =>
      if x.flowLevel = 0 && column < x.indent then
        unwind column indents { x with indent := outer, indents, tokens := .blockEnd :: x.tokens }
      else x

def unwindTo (x : Lexer) (column : Int) : Lexer := unwind column x.indents x

/-- Opens a block collection unless one is open at the column; the flag tells which. -/
def addIndent (x : Lexer) (column : Int) : Bool × Lexer :=
  if x.indent < column then (true, { x with indent := column, indents := x.indent :: x.indents })
  else (false, x)

/-- Skips spaces, comments and line breaks. Outside flow collections a key may begin after a
break. -/
def skipToToken : Nat → Lexer → Lexer
  | 0, x => x
  | fuel + 1, x =>
      let c := (x.cursor.skip (· = ' ')).skipComment
      if isBreak c.here then
        skipToToken fuel
          { x with cursor := c.lineBreak.2, keyAllowed := x.keyAllowed || x.flowLevel = 0 }
      else { x with cursor := c }

/-! ## One token at a time -/

def mark (x : Lexer) (length : Nat) (t : Token) : Lexer :=
  { x with cursor := x.cursor.forward length }.emit t

def documentMark (x : Lexer) (t : Token) : Except Fault Lexer := do
  let x ← (x.unwindTo (-1)).removeKey
  return { x with keyAllowed := false }.mark 3 t

def flowStart (x : Lexer) (t : Token) : Except Fault Lexer := do
  let x ← x.saveKey
  return { x with flowLevel := x.flowLevel + 1, keyAllowed := true }.mark 1 t

def flowEnd (x : Lexer) (t : Token) : Except Fault Lexer := do
  let x ← x.removeKey
  if x.flowLevel = 0 then throw .malformed
  return { x with flowLevel := x.flowLevel - 1, keyAllowed := false }.mark 1 t

def blockEntry (x : Lexer) : Except Fault Lexer := do
  if x.flowLevel = 0 && !x.keyAllowed then throw .malformed
  let x :=
    if x.flowLevel = 0 then
      let (opened, x) := x.addIndent x.column
      if opened then x.emit .blockSequenceStart else x
    else x
  let x ← x.removeKey
  return { x with keyAllowed := true }.mark 1 .blockEntry

def explicitKey (x : Lexer) : Except Fault Lexer := do
  if x.flowLevel = 0 && !x.keyAllowed then throw .malformed
  let x :=
    if x.flowLevel = 0 then
      let (opened, x) := x.addIndent x.column
      if opened then x.emit .blockMappingStart else x
    else x
  let x ← x.removeKey
  return { x with keyAllowed := x.flowLevel = 0 }.mark 1 .key

/-- Reads a colon, which makes a key of what was noted as one. -/
def valueMark (x : Lexer) : Except Fault Lexer := do
  match x.keys.find? (·.1 = x.flowLevel) with
  | some (_, k) =>
      let x := { x with keys := x.keys.filter (·.1 ≠ x.flowLevel) }
      let x := x.insertAt k.number .key
      let x :=
        if x.flowLevel = 0 then
          let (opened, x) := x.addIndent k.column
          if opened then x.insertAt k.number .blockMappingStart else x
        else x
      return { x with keyAllowed := false }.mark 1 .value
  | none =>
      if x.flowLevel = 0 && !x.keyAllowed then throw .malformed
      let x :=
        if x.flowLevel = 0 then
          let (opened, x) := x.addIndent x.column
          if opened then x.emit .blockMappingStart else x
        else x
      let x ← { x with keyAllowed := x.flowLevel = 0 }.removeKey
      return x.mark 1 .value

def take (x : Lexer) (t : Token) (c : Cursor) : Lexer := { x with cursor := c }.emit t

def beginKey (x : Lexer) : Except Fault Lexer := do
  return { (← x.saveKey) with keyAllowed := false }

def canBePlain (x : Lexer) : Bool :=
  let c := x.cursor.here
  let marks : Text := "-?:,[]\x7b\x7d#&*!|>'\"%@`"
  !(isBlankOrEnd c || marks.contains c) ||
    (!isBlankOrEnd (x.cursor.peek 1) && (c = '-' || (x.flowLevel = 0 && (c = '?' || c = ':'))))

def plain (x : Lexer) : Except Fault Lexer := do
  let x ← x.beginKey
  let c := x.cursor
  let (text, fresh, c) :=
    plainScalar (x.flowLevel ≠ 0) (x.indent + 1) (c.rest.length + 1) [] [] false c
  return { x with keyAllowed := fresh }.take (.scalar true text) c

def token (x : Lexer) : Except Fault Lexer := do
  let c := x.cursor
  let ch := c.here
  let inBlock := x.flowLevel = 0
  let blankNext := isBlankOrEnd (c.peek 1)
  if ch = '%' && c.column = 0 then
    let x ← (x.unwindTo (-1)).removeKey
    let (d, c) ← directive c
    return { x with keyAllowed := false }.take (.directive d) c
  else if ch = '-' && c.column = 0 && c.atSeparator then x.documentMark .documentStart
  else if ch = '.' && c.column = 0 && c.atSeparator then x.documentMark .documentEnd
  else if ch = '[' then x.flowStart .flowSequenceStart
  else if ch = '\x7b' then x.flowStart .flowMappingStart
  else if ch = ']' then x.flowEnd .flowSequenceEnd
  else if ch = '\x7d' then x.flowEnd .flowMappingEnd
  else if ch = ',' then
    let x ← { x with keyAllowed := true }.removeKey
    return x.mark 1 .flowEntry
  else if ch = '-' && blankNext then x.blockEntry
  else if ch = '?' && (!inBlock || blankNext) then x.explicitKey
  else if ch = ':' && (!inBlock || blankNext) then x.valueMark
  else if ch = '*' then
    let x ← x.beginKey
    let (name, c) ← anchorName c
    return x.take (.alias name) c
  else if ch = '&' then
    let x ← x.beginKey
    let (name, c) ← anchorName c
    return x.take (.anchor name) c
  else if ch = '!' then
    let x ← x.beginKey
    let (t, c) ← tagToken c
    return x.take t c
  else if (ch = '|' || ch = '>') && inBlock then
    let x ← { x with keyAllowed := true }.removeKey
    let (text, c) ← blockScalar x.indent c
    return x.take (.scalar false text) c
  else if ch = '\'' || ch = '"' then
    let x ← x.beginKey
    let (text, c) ← quotedScalar c
    return x.take (.scalar false text) c
  else if x.canBePlain then x.plain
  else throw .malformed

def run : Nat → Lexer → Except Fault (List Token)
  | 0, _ => .error .malformed
  | fuel + 1, x => do
      let x ← (skipToToken (x.cursor.rest.length + 1) x).dropStaleKeys
      let x := x.unwindTo x.column
      if isEnd x.cursor.here then
        let x ← (x.unwindTo (-1)).removeKey
        return x.tokens.reverse
      else run fuel (← x.token)

end Lexer

def Token.scan (s : Text) : Except Fault (List Token) :=
  if s.all isAllowed then (Lexer.start s).run (s.length + 2) else .error .malformed

end SourceScan.Yaml
