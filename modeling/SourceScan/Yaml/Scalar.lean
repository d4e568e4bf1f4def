import SourceScan.Text.Utf8
import SourceScan.Yaml.Cursor

/-!
# Scalars of a YAML text

The texts of plain, quoted and block scalars. Within a scalar a single line break
reads as a space, and each further one as itself.
-/

namespace SourceScan.Yaml

def folded (first more : Text) : Text :=
  if first ≠ ['\n'] then first ++ more
  else if more.isEmpty then [' ']
  else more

/-! ## Plain scalars -/

/-- The characters up to one that ends a plain scalar or leaves it for the moment. -/
def plainRun (inFlow : Bool) : Text → Text
  | [] => []
  | c :: rest =>
      let after := rest.headD '\x00'
      if isBlankOrEnd c || (c = ':' && (isBlankOrEnd after || (inFlow && isFlowMark after))) ||
          (inFlow && (isFlowMark c || c = '?')) then []
      else c :: plainRun inFlow rest

/-- Skips spaces and line breaks, and collects the breaks; none if a document separator follows a
break. -/
def plainBreaks : Nat → Text → Cursor → Option Text × Cursor
  | 0, breaks, c => (some breaks, c)
  | fuel + 1, breaks, c =>
      if c.here = ' ' then plainBreaks fuel breaks c.next
      else if isBreak c.here then
        let (b, c) := c.lineBreak
        if c.atSeparator then (none, c) else plainBreaks fuel (breaks ++ b) c
      else (some breaks, c)

def plainSpaces (c : Cursor) : Text × Bool × Cursor :=
  let (spaces, c) := c.span (· = ' ')
  if isBreak c.here then
    let (first, c) := c.lineBreak
    if c.atSeparator then ([], true, c)
    else
      match plainBreaks (c.rest.length + 1) [] c with
      | (none, c) => ([], true, c)
      | (some more, c) => (folded first more, true, c)
  else (spaces, false, c)

/-- Reads the runs of a plain scalar. The flag tells whether the scalar ended at the start of a
line. -/
def plainScalar (inFlow : Bool) (indent : Int) :
    Nat → Text → Text → Bool → Cursor → Text × Bool × Cursor
  | 0, text, _, fresh, c => (text, fresh, c)
  | fuel + 1, text, spaces, fresh, c =>
      if c.here = '#' then (text, fresh, c)
      else
        let run := plainRun inFlow c.rest
        if run.isEmpty then (text, fresh, c)
        else
          let text := text ++ spaces ++ run
          let (spaces, fresh, c) := plainSpaces (c.forward run.length)
          if spaces.isEmpty || c.here = '#' || (!inFlow && (c.column : Int) < indent) then
            (text, fresh, c)
          else plainScalar inFlow indent fuel text spaces fresh c

/-! ## Quoted scalars -/

def escaped? : Char → Option Char
  | '0' => some '\x00'
  | 'a' => some '\x07'
  | 'b' => some '\x08'
  | 't' => some '\t'
  | '\t' => some '\t'
  | 'n' => some '\n'
  | 'v' => some '\x0b'
  | 'f' => some '\x0c'
  | 'r' => some '\r'
  | 'e' => some '\x1b'
  | ' ' => some ' '
  | '"' => some '"'
  | '\\' => some '\\'
  | '/' => some '/'
  | 'N' => some '\x85'
  | '_' => some '\xa0'
  | 'L' => some '\u2028'
  | 'P' => some '\u2029'
  | _ => none

def codeDigits? : Char → Option Nat
  | 'x' => some 2
  | 'u' => some 4
  | 'U' => some 8
  | _ => none

def hexDigit? (c : Char) : Option Nat :=
  if c.isDigit then some (c.toNat - 0x30)
  else if 'a' ≤ c && c ≤ 'f' then some (c.toNat - 0x61 + 10)
  else if 'A' ≤ c && c ≤ 'F' then some (c.toNat - 0x41 + 10)
  else none

def charOfCode (n : Nat) : Except Fault Char :=
  if 0x80000000 ≤ n then .error .hugeCode
  else if 0x110000 ≤ n then .error .badCode
  else if 0xD800 ≤ n && n < 0xE000 then .ok '\uFFFD'
  else .ok (Char.ofNat n)

def codeEscape (digits : Nat) (c : Cursor) : Except Fault (Char × Cursor) :=
  let ds := (c.rest.take digits).filterMap hexDigit?
  if ds.length ≠ digits then .error .malformed
  else do
    let ch ← charOfCode (Numeral.ofDigits 16 ds)
    return (ch, c.forward digits)

def quotedBreaks : Nat → Text → Cursor → Except Fault (Text × Cursor)
  | 0, breaks, c => .ok (breaks, c)
  | fuel + 1, breaks, c =>
      if c.atSeparator then .error .malformed
      else
        let c := c.skip isBlank
        if isBreak c.here then
          let (b, c) := c.lineBreak
          quotedBreaks fuel (breaks ++ b) c
        else .ok (breaks, c)

def quotedSpaces (c : Cursor) : Except Fault (Text × Cursor) :=
  let (spaces, c) := c.span isBlank
  if isEnd c.here then .error .malformed
  else if isBreak c.here then do
    let (first, c) := c.lineBreak
    let (more, c) ← quotedBreaks (c.rest.length + 1) [] c
    return (folded first more, c)
  else .ok (spaces, c)

def quotedRun (double : Bool) : Nat → Text → Cursor → Except Fault (Text × Cursor)
  | 0, text, c => .ok (text, c)
  | fuel + 1, text, c => do
      let (run, c) := c.span fun ch =>
        !(isBlankOrEnd ch || ch = '\'' || ch = '"' || ch = '\\')
      let text := text ++ run
      let ch := c.here
      if !double && ch = '\'' && c.peek 1 = '\'' then
        quotedRun double fuel (text ++ ['\'']) (c.forward 2)
      else if (double && ch = '\'') || (!double && (ch = '"' || ch = '\\')) then
        quotedRun double fuel (text ++ [ch]) c.next
      else if double && ch = '\\' then
        let c := c.next
        let ch := c.here
        match escaped? ch, codeDigits? ch with
        | some e, _ => quotedRun double fuel (text ++ [e]) c.next
        | none, some digits => do
            let (e, c) ← codeEscape digits c.next
            quotedRun double fuel (text ++ [e]) c
        | none, none =>
            if isBreak ch then do
              let (breaks, c) ← quotedBreaks (c.rest.length + 1) [] c.lineBreak.2
              quotedRun double fuel (text ++ breaks) c
            else throw .malformed
      else return (text, c)

def quotedRest (quote : Char) : Nat → Text → Cursor → Except Fault (Text × Cursor)
  | 0, text, c => .ok (text, c)
  | fuel + 1, text, c => do
      if c.here = quote then return (text, c.next)
      let (spaces, c) ← quotedSpaces c
      let (run, c) ← quotedRun (quote = '"') (c.rest.length + 1) [] c
      quotedRest quote fuel (text ++ spaces ++ run) c

def quotedScalar (c : Cursor) : Except Fault (Text × Cursor) := do
  let quote := c.here
  let (run, c) ← quotedRun (quote = '"') (c.rest.length + 1) [] c.next
  quotedRest quote (c.rest.length + 1) run c

/-! ## Block scalars -/

inductive Chomping where
  | strip
  | clip
  | keep
  deriving DecidableEq, Repr

def chomping? : Char → Option Chomping
  | '+' => some .keep
  | '-' => some .strip
  | _ => none

def indentDigit (c : Cursor) : Except Fault (Option Nat × Cursor) :=
  if c.here.isDigit then
    if c.here = '0' then .error .malformed
    else .ok (some (c.here.toNat - 0x30), c.next)
  else .ok (none, c)

def blockMarks (c : Cursor) : Except Fault (Chomping × Option Nat × Cursor) := do
  let (chomping, digit, c) ←
    match chomping? c.here with
    | some chomping => do
        let (digit, c) ← indentDigit c.next
        pure (chomping, digit, c)
    | none => do
        let (digit, c) ← indentDigit c
        match digit, chomping? c.here with
        | some _, some chomping => pure (chomping, digit, c.next)
        | _, _ => pure (.clip, digit, c)
  if isSpaceOrEnd c.here then return (chomping, digit, c) else throw .malformed

def blockIndentation : Nat → Text → Nat → Cursor → Text × Nat × Cursor
  | 0, breaks, greatest, c => (breaks, greatest, c)
  | fuel + 1, breaks, greatest, c =>
      if c.here = ' ' then
        let c := c.next
        blockIndentation fuel breaks (max greatest c.column) c
      else if isBreak c.here then
        let (b, c) := c.lineBreak
        blockIndentation fuel (breaks ++ b) greatest c
      else (breaks, greatest, c)

def skipToColumn (indent : Nat) : Nat → Cursor → Cursor
  | 0, c => c
  | fuel + 1, c =>
      if c.column < indent && c.here = ' ' then skipToColumn indent fuel c.next else c

def blockBreaks (indent : Nat) : Nat → Text → Cursor → Text × Cursor
  | 0, breaks, c => (breaks, c)
  | fuel + 1, breaks, c =>
      let c := skipToColumn indent indent c
      if isBreak c.here then
        let (b, c) := c.lineBreak
        blockBreaks indent fuel (breaks ++ b) c
      else (breaks, c)

def blockLines (fold : Bool) (indent : Nat) :
    Nat → Text → Text → Cursor → Text × Text × Text × Cursor
  | 0, text, breaks, c => (text, [], breaks, c)
  | fuel + 1, text, breaks, c =>
      if c.column ≠ indent || isEnd c.here then (text, [], breaks, c)
      else
        let startsDark := !isBlank c.here
        let (line, c) := c.span (!isBreakOrEnd ·)
        let text := text ++ breaks ++ line
        let (lineBreak, c) := c.lineBreak
        let (breaks, c) := blockBreaks indent (c.rest.length + 1) [] c
        if c.column = indent && !isEnd c.here then
          let join : Text :=
            if fold && lineBreak = ['\n'] && startsDark && !isBlank c.here then
              if breaks.isEmpty then [' '] else []
            else lineBreak
          blockLines fold indent fuel (text ++ join) breaks c
        else (text, lineBreak, breaks, c)

/-- Reads a block scalar from its opening mark on; `indent` is the column of the collection
around it. -/
def blockScalar (indent : Int) (c : Cursor) : Except Fault (Text × Cursor) := do
  let fold := c.here = '>'
  let (chomping, digit, c) ← blockMarks c.next
  let c ← c.restOfLine
  let least := (max (indent + 1) 1).toNat
  let (column, breaks, c) :=
    match digit with
    | none =>
        let (breaks, greatest, c) := blockIndentation (c.rest.length + 1) [] 0 c
        (max least greatest, breaks, c)
    | some digit =>
        let column := least + digit - 1
        let (breaks, c) := blockBreaks column (c.rest.length + 1) [] c
        (column, breaks, c)
  let (text, lineBreak, breaks, c) := blockLines fold column (c.rest.length + 1) [] breaks c
  let text := if chomping = .strip then text else text ++ lineBreak
  return (if chomping = .keep then text ++ breaks else text, c)

/-! ## Names and tags -/

def anchorName (c : Cursor) : Except Fault (Text × Cursor) :=
  let (name, c) := c.next.span isNameChar
  let ends := isBlankOrEnd c.here || ("?:,]\x7d%@`" : Text).contains c.here
  if name.isEmpty || !ends then .error .malformed else .ok (name, c)

def tagHandle (c : Cursor) : Except Fault (Text × Cursor) :=
  if c.here ≠ '!' then .error .malformed
  else if c.peek 1 = ' ' then .ok (['!'], c.next)
  else
    let (name, d) := c.next.span isNameChar
    if d.here = '!' then .ok ('!' :: name ++ ['!'], d.next) else .error .malformed

def isUriChar (c : Char) : Bool :=
  c.isAlphanum || ("-;/?:@&=+$,_.!~*'()[]" : Text).contains c

def uriBytes : Nat → Bytes → Cursor → Except Fault (Bytes × Cursor)
  | 0, bytes, c => .ok (bytes, c)
  | fuel + 1, bytes, c =>
      if c.here = '%' then
        match hexDigit? (c.peek 1), hexDigit? (c.peek 2) with
        | some a, some b => uriBytes fuel (bytes ++ [(16 * a + b).toUInt8]) (c.forward 3)
        | _, _ => .error .malformed
      else .ok (bytes, c)

def tagUri : Nat → Text → Cursor → Except Fault (Text × Cursor)
  | 0, text, c => .ok (text, c)
  | fuel + 1, text, c => do
      let (run, c) := c.span isUriChar
      let text := text ++ run
      if c.here = '%' then
        let (bytes, c) ← uriBytes (c.rest.length + 1) [] c
        match Utf8.decode bytes with
        | .ok t => tagUri fuel (text ++ t) c
        | .error _ => throw .malformed
      else if text.isEmpty then throw .malformed
      else return (text, c)

def hasSecondMark (s : Text) : Bool := (s.takeWhile (!isSpaceOrEnd ·)).contains '!'

def tagToken (c : Cursor) : Except Fault (Token × Cursor) := do
  let uri (c : Cursor) := tagUri (c.rest.length + 1) [] c
  let (token, c) ←
    if c.peek 1 = '<' then do
      let (suffix, c) ← uri (c.forward 2)
      if c.here ≠ '>' then throw .malformed
      pure (Token.tag none suffix, c.next)
    else if isBlankOrEnd (c.peek 1) then pure (Token.tag none ['!'], c.next)
    else do
      let (handle, c) ←
        if hasSecondMark (c.rest.drop 1) then tagHandle c else pure (['!'], c.next)
      let (suffix, c) ← uri c
      pure (Token.tag (some handle) suffix, c)
  if isSpaceOrEnd c.here then return (token, c) else throw .malformed

/-! ## Directives -/

def directiveNumber (c : Cursor) : Except Fault (Nat × Cursor) :=
  let (digits, c) := c.span Char.isDigit
  if digits.isEmpty then .error .malformed
  else if Numeral.digitLimit < digits.length then .error (.tooManyDigits digits.length)
  else .ok (Numeral.digitsValue digits, c)

def directive (c : Cursor) : Except Fault (Directive × Cursor) := do
  let (name, c) := c.next.span isNameChar
  if name.isEmpty || !isSpaceOrEnd c.here then throw .malformed
  let (d, c) ←
    if name = ("YAML" : Text) then do
      let (major, c) ← directiveNumber (c.skip (· = ' '))
      if c.here ≠ '.' then throw .malformed
      let (minor, c) ← directiveNumber c.next
      if !isSpaceOrEnd c.here then throw .malformed
      pure (Directive.version major minor, c)
    else if name = ("TAG" : Text) then do
      let (handle, c) ← tagHandle (c.skip (· = ' '))
      if c.here ≠ ' ' then throw .malformed
      let c := c.skip (· = ' ')
      let (start, c) ← tagUri (c.rest.length + 1) [] c
      if !isSpaceOrEnd c.here then throw .malformed
      pure (Directive.tag handle start, c)
    else pure (Directive.other, c.skip (!isBreakOrEnd ·))
  return (d, ← c.restOfLine)

end SourceScan.Yaml
