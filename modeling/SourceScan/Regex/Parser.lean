import SourceScan.Number.Numeral
import SourceScan.Regex.Basic
import SourceScan.Text.Identifier
import SourceScan.Text.Quoted
import SourceScan.Text.Utf8

/-!
# Reading regular expressions

The notation of regular expressions: classes in brackets, groups with options,
assertions, repetition in three modes, references and inline flags. A fault is
reported with the place where it was noticed. The reader works on tokens, which
are single characters or a backslash with the character after it; a backslash at
the very end is noticed as soon as everything before it has been read. An
expression of bytes is read one character to the byte, and has no escapes beyond
them. Which characters have names is left to a table.
-/

namespace SourceScan.Regex

structure Flags where
  ignoreCase : Bool
  multiLine : Bool
  dotAll : Bool
  verbose : Bool
  ascii : Bool
  deriving DecidableEq, Repr

def Flags.initial : Flags := ⟨false, false, false, false, false⟩

abbrev CharacterNames := Text → Option Char

def noNames : CharacterNames := fun _ => none

/-- What an expression is written in. -/
inductive Source where
  | text (s : Text)
  | bytes (b : Bytes)
  deriving DecidableEq, Repr, Inhabited

namespace Source

instance : Coe Text Source := ⟨text⟩

instance : Coe String Source := ⟨fun s => text s.toList⟩

def letters : Source → Text
  | text s => s
  | bytes b => b.map fun x => Char.ofNat x.toNat

def isBinary : Source → Bool
  | text _ => false
  | bytes _ => true

end Source

inductive LargeNumber where
  | repeats
  | code
  deriving DecidableEq, Repr

/-- A fault, with its place if it has one, a number that is too large or too long, or flags for the
whole expression that exclude one another. -/
inductive SyntaxError where
  | at (message : Text) (position : Nat)
  | overall (message : Text)
  | tooLarge (what : LargeNumber)
  | tooManyDigits (count : Nat)
  | incompatible (first second : Text)
  deriving DecidableEq, Repr

def SyntaxError.isSyntax : SyntaxError → Bool
  | .at .. | .overall _ => true
  | _ => false

/-- The report of a fault. A pattern of several lines gets line and column as well. -/
def SyntaxError.message (pattern : Text) : SyntaxError → Text
  | .at message position =>
      let before := pattern.take position
      let line := before.count '\n' + 1
      let column := (before.reverse.takeWhile (· ≠ '\n')).length + 1
      message ++ (" at position " : Text) ++ Text.ofNat position ++
        (if pattern.contains '\n' then
          (" (line " : Text) ++ Text.ofNat line ++ (", column " : Text) ++ Text.ofNat column ++
            [')']
        else [])
  | .overall message => message
  | .tooLarge .repeats => "the repetition number is too large"
  | .tooLarge .code => "Python int too large to convert to C int"
  | .tooManyDigits count => Numeral.tooManyDigitsMessage count
  | .incompatible first second =>
      first ++ (" and " : Text) ++ second ++ (" flags are incompatible" : Text)

/-- What the reader knows at a point: the text left, the number of the next group, the names and
the closed groups with their widths, the first group inside an enclosing look behind, the groups
that a condition asked for before they were seen, and the letters of the flags for the whole
expression. -/
structure State where
  rest : Text
  nextGroup : Nat
  names : List (Text × Nat)
  closed : List (Nat × Nat × Nat)
  behindFrom : Option Nat
  wanted : List (Nat × Nat)
  flags : Flags
  letters : Text
  total : Nat
  binary : Bool
  known : CharacterNames

abbrev Reader := StateT State (Except SyntaxError)

def codeLimit : Nat := 2147483648

/-- Counts of this size or more are refused, and stand for no bound in widths. -/
def repeatLimit : Nat := 4294967295

def position : Reader Nat := do
  let s ← get
  return s.total - s.rest.length

def asciiOnly (message : Text) : Text :=
  message.flatMap fun c => if c.toNat < 0x80 then [c] else Text.codeEscape c.toNat

def refuse {α : Type} (message : Text) (back : Nat := 0) : Reader α := do
  let message := if (← get).binary then asciiOnly message else message
  throw (.at message ((← position) - back))

def checkEscapes : Reader Unit := do
  let s ← get
  if s.rest = ['\\'] then throw (.at "bad escape (end of pattern)" (s.total - 1))

def peek : Reader Text := do
  match (← get).rest with
  | [] => return []
  | '\\' :: c :: _ => return ['\\', c]
  | c :: _ => return [c]

def token : Reader Text := do
  let t ← peek
  modify fun s => { s with rest := s.rest.drop t.length }
  checkEscapes
  return t

def accept (c : Char) : Reader Bool := do
  if (← peek) = [c] then
    let _ ← token
    return true
  else return false

def acceptWhile (p : Char → Bool) : Nat → Reader Text
  | 0 => return []
  | n + 1 => do
      match ← peek with
      | [c] =>
          if p c then
            let _ ← token
            return c :: (← acceptWhile p n)
          else return []
      | _ => return []

def readUntil (closing : Char) (what : Text) : Reader Text := do
  go (closing) what [] ((← get).rest.length + 1)
where
  go (closing : Char) (what : Text) (out : Text) : Nat → Reader Text
    | 0 => return out
    | fuel + 1 => do
        let t ← token
        if t = [] then
          if out = [] then refuse (("missing " : Text) ++ what)
          else
            refuse (("missing " : Text) ++ [closing] ++ (", unterminated name" : Text)) out.length
        else if t = [closing] then
          if out = [] then refuse (("missing " : Text) ++ what) 1
          else return out
        else go closing what (out ++ t) fuel

/-! ## Escapes -/

def isOctal (c : Char) : Bool := '0' ≤ c && c ≤ '7'

def isHex (c : Char) : Bool :=
  c.isDigit || ('a' ≤ c && c ≤ 'f') || ('A' ≤ c && c ≤ 'F')

def hexValue (s : Text) : Nat :=
  Numeral.ofDigits 16 (s.map fun c =>
    if c.isDigit then c.toNat - 0x30 else c.toLower.toNat - 0x61 + 10)

def octalValue (s : Text) : Nat := Numeral.ofDigits 8 (s.map fun c => c.toNat - 0x30)

def controlEscape? : Char → Option Char
  | 'a' => some '\x07'
  | 'b' => some '\x08'
  | 'f' => some '\x0c'
  | 'n' => some '\n'
  | 'r' => some '\r'
  | 't' => some '\t'
  | 'v' => some '\x0b'
  | '\\' => some '\\'
  | _ => none

def kindEscape? : Char → Option ClassItem
  | 'd' => some (.kind .digit false)
  | 'D' => some (.kind .digit true)
  | 's' => some (.kind .space false)
  | 'S' => some (.kind .space true)
  | 'w' => some (.kind .word false)
  | 'W' => some (.kind .word true)
  | _ => none

def badEscape {α : Type} (escape : Text) : Reader α :=
  refuse (("bad escape " : Text) ++ escape) escape.length

def hexEscape (escape : Text) (digits : Nat) : Reader Nat := do
  let ds ← acceptWhile isHex digits
  let whole := escape ++ ds
  if ds.length ≠ digits then
    refuse (("incomplete escape " : Text) ++ whole) whole.length
  else if codeLimit ≤ hexValue ds then throw (.tooLarge .code)
  else if 0x110000 ≤ hexValue ds then badEscape whole
  else return hexValue ds

def checkOctal (escape : Text) (value : Nat) : Reader Nat := do
  if 0o377 < value then
    refuse (("octal escape value " : Text) ++ escape ++ (" outside of range 0-0o377" : Text))
      escape.length
  else return value

def namedEscape : Reader Nat := do
  if !(← accept '\x7b') then refuse "missing \x7b"
  else
    let name ← readUntil '\x7d' "character name"
    match (← get).known name with
    | some c => return c.toNat
    | none => refuse (("undefined character name " : Text) ++ Text.quoted name) (name.length + 4)

/-- The code that an escape of digits or letters stands for, where both kinds of escapes agree. -/
def codeEscape? (binary : Bool) (escape : Text) : Char → Option (Reader Nat)
  | 'x' => some (hexEscape escape 2)
  | 'u' => if binary then none else some (hexEscape escape 4)
  | 'U' => if binary then none else some (hexEscape escape 8)
  | 'N' => if binary then none else some namedEscape
  | _ => none

def classEscape (escape : Text) : Reader ClassItem := do
  let c := escape.getLast?.getD ' '
  match controlEscape? c, kindEscape? c, codeEscape? (← get).binary escape c with
  | some d, _, _ => return .range d.toNat d.toNat
  | _, some item, _ => return item
  | _, _, some code => do
      let n ← code
      return .range n n
  | none, none, none =>
      if isOctal c then
        let escape := escape ++ (← acceptWhile isOctal 2)
        let n ← checkOctal escape (octalValue (escape.drop 1))
        return .range n n
      else if c.isDigit || c.isAlpha then badEscape escape
      else return .range c.toNat c.toNat

/-! ## Nodes -/

def literal (flags : Flags) (code : Nat) : Regex :=
  .set ⟨false, [.range code code], flags.ignoreCase, flags.ascii⟩

def isClosed (index : Nat) : Reader Bool := do
  return (← get).closed.any (·.1 = index)

/-- Refuses a reference from inside a look behind to a group that belongs to it. -/
def checkBehind (index : Nat) : Reader Unit := do
  match (← get).behindFrom with
  | none => return
  | some first =>
      if !(← isClosed index) then refuse "cannot refer to an open group"
      else if first ≤ index then
        refuse "cannot refer to group defined in the same lookbehind subpattern"

def reference (flags : Flags) (escape : Text) : Reader Regex := do
  let index := Numeral.digitsValue (escape.drop 1)
  if index < (← get).nextGroup then
    if !(← isClosed index) then refuse "cannot refer to an open group" escape.length
    else
      checkBehind index
      return .backref index flags.ignoreCase flags.ascii
  else
    refuse (("invalid group reference " : Text) ++ Text.ofNat index) (escape.length - 1)

def atomEscape (flags : Flags) (escape : Text) : Reader Regex := do
  let c := escape.getLast?.getD ' '
  match c with
  | 'A' => return .anchor .textStart
  | 'Z' => return .anchor .textEnd
  | 'b' => return .anchor (.boundary flags.ascii false)
  | 'B' => return .anchor (.boundary flags.ascii true)
  | _ =>
      match kindEscape? c, controlEscape? c, codeEscape? (← get).binary escape c with
      | some item, _, _ => return .set ⟨false, [item], flags.ignoreCase, flags.ascii⟩
      | _, some d, _ => return literal flags d.toNat
      | _, _, some code => return literal flags (← code)
      | none, none, none =>
          if c = '0' then
            let digits ← acceptWhile isOctal 2
            return literal flags (octalValue digits)
          else if c.isDigit then
            let second ← acceptWhile Char.isDigit 1
            let escape := escape ++ second
            let next ← peek
            if isOctal c && second.any isOctal && next.length = 1 && next.all isOctal then
              let escape := escape ++ (← token)
              return literal flags (← checkOctal escape (octalValue (escape.drop 1)))
            else reference flags escape
          else if c.isAlpha then badEscape escape
          else return literal flags c.toNat

/-- Whether nothing can be repeated here, or the last item is a repetition already. -/
def isAnchor : Regex → Bool
  | .anchor _ => true
  | _ => false

def isRepeat : Regex → Bool
  | .rep .. => true
  | _ => false

/-! ## Widths -/

mutual

def width (groups : List (Nat × Nat × Nat)) : Regex → Nat × Nat
  | .set _ => (1, 1)
  | .anchor _ | .look .. | .fail => (0, 0)
  | .seq items => widthAll groups items
  | .alt choices => (widthAny groups choices).getD (0, 0)
  | .rep _ least most body =>
      let (lo, hi) := width groups body
      (lo * least, hi * most.getD repeatLimit)
  | .group _ body | .atomic body => width groups body
  | .backref index .. => ((groups.find? (·.1 = index)).map (·.2)).getD (0, 0)
  | .conditional _ whenSet otherwise =>
      let (a, b) := width groups whenSet
      let (c, d) := width groups otherwise
      (min a c, max b d)

def widthAll (groups : List (Nat × Nat × Nat)) : List Regex → Nat × Nat
  | [] => (0, 0)
  | item :: items =>
      let (a, b) := width groups item
      let (c, d) := widthAll groups items
      (a + c, b + d)

def widthAny (groups : List (Nat × Nat × Nat)) : List Regex → Option (Nat × Nat)
  | [] => none
  | choice :: choices =>
      let (a, b) := width groups choice
      match widthAny groups choices with
      | none => some (a, b)
      | some (c, d) => some (min a c, max b d)

end

/-! ## Brackets -/

def classEnd (t : Text) : Reader ClassItem :=
  match t with
  | [c] => return .range c.toNat c.toNat
  | t => classEscape t

def badRange {α : Type} (first last : Text) : Reader α :=
  refuse (("bad character range " : Text) ++ first ++ '-' :: last) (first.length + 1 + last.length)

def classItems (start : Nat) (items : List ClassItem) : Nat → Reader (List ClassItem)
  | 0 => return items
  | fuel + 1 => do
      let unterminated : Reader (List ClassItem) := do
        refuse "unterminated character set" ((← position) - start)
      let t ← token
      if t = [] then unterminated
      else if t = [']'] && !items.isEmpty then return items
      else
        let first ← classEnd t
        if ← accept '-' then
          let u ← token
          if u = [] then unterminated
          else if u = [']'] then return items ++ [first, .range 0x2D 0x2D]
          else
            match first, ← classEnd u with
            | .range lo _, .range hi _ =>
                if hi < lo then badRange t u
                else classItems start (items ++ [.range lo hi]) fuel
            | _, _ => badRange t u
        else classItems start (items ++ [first]) fuel

/-! ## Flags -/

def Flags.put? (flags : Flags) (value : Bool) : Char → Option Flags
  | 'i' => some { flags with ignoreCase := value }
  | 'm' => some { flags with multiLine := value }
  | 's' => some { flags with dotAll := value }
  | 'x' => some { flags with verbose := value }
  | 'a' => some { flags with ascii := value }
  | 'u' => some { flags with ascii := !value }
  | 'L' | 't' => some flags
  | _ => none

def isTypeFlag (c : Char) : Bool := c = 'a' || c = 'u' || c = 'L'

def isFlag (c : Char) : Bool := (Flags.initial.put? true c).isSome

def putAll (flags : Flags) (value : Bool) (letters : Text) : Flags :=
  letters.foldl (fun flags c => (flags.put? value c).getD flags) flags

def flagLetters (ends : Text) (missing : Text) (check : Text → Char → Reader Unit) (done : Text)
    (c : Char) : Nat → Reader (Text × Char)
  | 0 => return (done, c)
  | fuel + 1 => do
      check done c
      let done := done ++ [c]
      match ← token with
      | [] => refuse missing
      | [d] =>
          if ends.contains d then return (done, d)
          else if isFlag d then flagLetters ends missing check done d fuel
          else
            refuse (if Text.isLetter d then "unknown flag" else missing) 1
      | t => refuse missing t.length

/-- The letters turned on and off by an inline flag group; none for the latter if the group ends at
once and holds for the whole expression. -/
def inlineFlags (first : Char) : Reader (Text × Option Text) := do
  let s ← get
  let fuel := s.rest.length + 1
  let checkOn (done : Text) (c : Char) : Reader Unit := do
    if !s.binary && c = 'L' then
      refuse "bad inline flags: cannot use 'L' flag with a str pattern"
    if s.binary && c = 'u' then
      refuse "bad inline flags: cannot use 'u' flag with a bytes pattern"
    if isTypeFlag c && done.any (fun d => isTypeFlag d && d ≠ c) then
      refuse "bad inline flags: flags 'a', 'u' and 'L' are incompatible"
  let checkOff (_ : Text) (c : Char) : Reader Unit := do
    if isTypeFlag c then refuse "bad inline flags: cannot turn off flags 'a', 'u' and 'L'"
  let (on, closing) ←
    if first = '-' then pure ([], '-')
    else flagLetters ")-:" "missing -, : or )" checkOn [] first fuel
  if closing = ')' then return (on, none)
  if on.contains 't' then refuse "bad inline flags: cannot turn on global flag" 1
  if closing = '-' then
    let off ←
      match ← token with
      | [] => refuse "missing flag"
      | [c] =>
          if isFlag c then
            let (off, _) ← flagLetters ":" "missing :" checkOff [] c fuel
            pure off
          else refuse (if Text.isLetter c then "unknown flag" else "missing flag") 1
      | t => refuse "missing flag" t.length
    if off.contains 't' then refuse "bad inline flags: cannot turn off global flag" 1
    if on.any off.contains then refuse "bad inline flags: flag turned on and off" 1
    return (on, some off)
  return (on, some [])

/-! ## Groups -/

def checkName (name : Text) (back : Nat) : Reader Unit := do
  if !Text.isIdentifier name then
    refuse (("bad character in group name " : Text) ++ Text.quoted name) (name.length + back)

def namedGroup (name : Text) : Reader Nat := do
  match (← get).names.find? (·.1 = name) with
  | some (_, index) => return index
  | none => refuse (("unknown group name " : Text) ++ Text.quoted name) (name.length + 1)

def openGroup (name : Option Text) : Reader Nat := do
  let s ← get
  let index := s.nextGroup
  match name with
  | none => modify fun s => { s with nextGroup := index + 1 }
  | some name =>
      match s.names.find? (·.1 = name) with
      | some (_, other) =>
          refuse (("redefinition of group name " : Text) ++ Text.quoted name ++
            (" as group " : Text) ++ Text.ofNat index ++ ("; was group " : Text) ++
            Text.ofNat other) (name.length + 1)
      | none =>
          modify fun s => { s with nextGroup := index + 1, names := (name, index) :: s.names }
  return index

def closeGroup (index : Nat) (body : Regex) : Reader Unit :=
  modify fun s => { s with closed := (index, width s.closed body) :: s.closed }

def expectClosing (start : Nat) : Reader Unit := do
  if !(← accept ')') then
    refuse "missing ), unterminated subpattern" ((← position) - start)

def skipComment (start : Nat) : Nat → Reader Unit
  | 0 => return
  | fuel + 1 => do
      if (← peek) = [] then
        refuse "missing ), unterminated comment" ((← position) - start)
      else if (← token) = [')'] then return
      else skipComment start fuel

def skipLine : Nat → Reader Unit
  | 0 => return
  | fuel + 1 => do
      let t ← token
      if t = [] || t = ['\n'] then return else skipLine fuel

def groupLimit : Nat := 1073741823

def conditionGroup : Reader Nat := do
  let name ← readUntil ')' "group name"
  let index ←
    if Text.isIdentifier name then namedGroup name
    else
      match Numeral.readInt name with
      | .ok (.ofNat 0) => refuse "bad group number" (name.length + 1)
      | .ok (.ofNat index) => do
          if groupLimit ≤ index then
            refuse (("invalid group reference " : Text) ++ Text.ofNat index) (name.length + 1)
          else
            let place := (← position) - name.length - 1
            modify fun s =>
              if s.wanted.any (·.1 = index) then s
              else { s with wanted := s.wanted ++ [(index, place)] }
            pure index
      | _ =>
          refuse (("bad character in group name " : Text) ++ Text.quoted name) (name.length + 1)
  checkBehind index
  return index

/-- Reads the bounds after an opening brace; none if it is no repetition, and then nothing is
read. -/
def repeatBounds? (here : Nat) : Reader (Option (Nat × Option Nat)) := do
  let s ← get
  if (← peek) = ['\x7d'] then return none
  let lo ← acceptWhile Char.isDigit s.rest.length
  let hi ← if ← accept ',' then acceptWhile Char.isDigit s.rest.length else pure lo
  if !(← accept '\x7d') then
    modify fun _ => s
    return none
  let bound (digits : Text) : Reader (Option Nat) := do
    if digits.isEmpty then return none
    if Numeral.digitLimit < digits.length then throw (.tooManyDigits digits.length)
    let n := Numeral.digitsValue digits
    if repeatLimit ≤ n then throw (.tooLarge .repeats)
    return some n
  let least ← bound lo
  let most ← bound hi
  match most with
  | some m =>
      if m < least.getD 0 then
        refuse "min repeat greater than max repeat" ((← position) - here)
  | none => pure ()
  return some (least.getD 0, most)

def bounds? (t : Text) (here : Nat) : Reader (Option (Nat × Option Nat)) :=
  match t with
  | ['?'] => return some (0, some 1)
  | ['*'] => return some (0, none)
  | ['+'] => return some (1, none)
  | _ => repeatBounds? here

def repeatMode : Reader RepeatMode := do
  if ← accept '?' then return .lazy
  if ← accept '+' then return .possessive
  return .greedy

def repeatLast (items : List Regex) (here back : Nat) (least : Nat) (most : Option Nat) :
    Reader (List Regex) := do
  let back := (← position) - here + back
  match items with
  | [] => refuse "nothing to repeat" back
  | item :: items =>
      if isAnchor item then refuse "nothing to repeat" back
      else if isRepeat item then refuse "multiple repeat" back
      else
        return .rep (← repeatMode) least most item :: items

/-! ## Expressions -/

inductive Opening where
  | capture (name : Option Text)
  | plain (flags : Flags)
  | atomic
  | look (behind negated : Bool)
  | condition
  | wholeFlags (letters : Text)
  | comment
  | done (node : Regex)

def groupOpening (flags : Flags) : Reader Opening := do
  if !(← accept '?') then return .capture none
  match ← token with
  | [] => refuse "unexpected end of pattern"
  | ['P'] =>
      if ← accept '<' then
        let name ← readUntil '>' "group name"
        checkName name 1
        return .capture (some name)
      else if ← accept '=' then
        let name ← readUntil ')' "group name"
        checkName name 1
        let index ← namedGroup name
        if !(← isClosed index) then
          refuse "cannot refer to an open group" (name.length + 1)
        checkBehind index
        return .done (.backref index flags.ignoreCase flags.ascii)
      else
        let t ← token
        if t = [] then refuse "unexpected end of pattern"
        else refuse (("unknown extension ?P" : Text) ++ t) (t.length + 2)
  | [':'] => return .plain flags
  | ['#'] => return .comment
  | ['='] => return .look false false
  | ['!'] => return .look false true
  | ['<'] =>
      match ← token with
      | [] => refuse "unexpected end of pattern"
      | ['='] => return .look true false
      | ['!'] => return .look true true
      | t => refuse (("unknown extension ?<" : Text) ++ t) (t.length + 2)
  | ['('] => return .condition
  | ['>'] => return .atomic
  | [c] =>
      if isFlag c || c = '-' then
        match ← inlineFlags c with
        | (on, none) => return .wholeFlags on
        | (on, some off) => return .plain (putAll (putAll flags true on) false off)
      else refuse (("unknown extension ?" : Text) ++ [c]) 2
  | t => refuse (("unknown extension ?" : Text) ++ t) (t.length + 1)

mutual

def alternatives (fuel : Nat) (flags : Flags) (top : Bool) : Reader Regex :=
  match fuel with
  | 0 => return .fail
  | fuel + 1 => do
      let first ← branch fuel flags top []
      if (← peek) = ['|'] then
        return .alt (first :: (← moreAlternatives fuel flags top))
      else return first

def moreAlternatives (fuel : Nat) (flags : Flags) (top : Bool) : Reader (List Regex) :=
  match fuel with
  | 0 => return []
  | fuel + 1 => do
      if ← accept '|' then
        let flags ← if top then pure (← get).flags else pure flags
        let choice ← branch fuel flags false []
        return choice :: (← moreAlternatives fuel flags top)
      else return []

/-- Reads a row of items, the ones read so far in reverse order. `first` tells whether flags for
the whole expression may stand here. -/
def branch (fuel : Nat) (flags : Flags) (first : Bool) (items : List Regex) : Reader Regex :=
  match fuel with
  | 0 => return .fail
  | fuel + 1 => do
      let t ← peek
      if t = [] || t = ['|'] || t = [')'] then return .seq items.reverse
      let _ ← token
      let push (node : Regex) : Reader Regex := branch fuel flags first (node :: items)
      if flags.verbose && t.all (fun c => c = ' ' || inRanges [(0x9, 0xD)] c.toNat) then
        branch fuel flags first items
      else if flags.verbose && t = ['#'] then
        skipLine ((← get).rest.length + 1)
        branch fuel flags first items
      else
        match t with
        | ['['] => do
            let start := (← position) - 1
            let negated ← accept '^'
            let set ← classItems start [] ((← get).rest.length + 2)
            push (.set ⟨negated, set, flags.ignoreCase, flags.ascii⟩)
        | ['.'] =>
            push (.set ⟨true, if flags.dotAll then [] else [.range 0xA 0xA], false, false⟩)
        | ['^'] => push (.anchor (if flags.multiLine then .lineStart else .textStart))
        | ['$'] => push (.anchor (if flags.multiLine then .lineEnd else .finalEnd))
        | ['('] => do
            let start := (← position) - 1
            match ← groupOpening flags with
            | .done node => push node
            | .comment => do
                skipComment start ((← get).rest.length + 1)
                branch fuel flags first items
            | .wholeFlags letters => do
                if !first || !items.isEmpty then
                  refuse "global flags not at the start of the expression" ((← position) - start)
                modify fun s =>
                  { s with flags := putAll s.flags true letters, letters := s.letters ++ letters }
                branch fuel (← get).flags first items
            | .look behind negated => do
                let outer := (← get).behindFrom
                if behind && outer.isNone then
                  modify fun s => { s with behindFrom := some s.nextGroup }
                let body ← alternatives fuel flags false
                if behind && outer.isNone then
                  modify fun s => { s with behindFrom := none }
                expectClosing start
                push (.look (if behind then some 0 else none) negated body)
            | .condition => do
                let index ← conditionGroup
                let whenSet ← branch fuel flags false []
                let otherwise ←
                  if ← accept '|' then
                    let other ← branch fuel flags false []
                    if (← peek) = ['|'] then
                      refuse "conditional backref with more than two branches"
                    pure other
                  else pure (.seq [])
                expectClosing start
                push (.conditional index whenSet otherwise)
            | .atomic => do
                let body ← alternatives fuel flags false
                expectClosing start
                push (.atomic body)
            | .plain inside => do
                let body ← alternatives fuel inside false
                expectClosing start
                push (.seq [body])
            | .capture name => do
                let index ← openGroup name
                let body ← alternatives fuel flags false
                expectClosing start
                closeGroup index body
                push (.group index body)
        | [c] =>
            if c = '*' || c = '+' || c = '?' || c = '\x7b' then do
              let here ← position
              match ← bounds? t here with
              | none => push (literal flags c.toNat)
              | some (least, most) =>
                  let items ← repeatLast items here 1 least most
                  branch fuel flags first items
            else push (literal flags c.toNat)
        | t => do push (← atomEscape flags t)

end

/-! ## The whole expression -/

def behindLimit : Nat := 4294967295

def RepeatMode.operator : RepeatMode → Text
  | .greedy => "MAX_REPEAT"
  | .lazy => "MIN_REPEAT"
  | .possessive => "POSSESSIVE_REPEAT"

mutual

/-- Gives every look behind its width, which has to be fixed, and refuses repetitions in a
template. -/
def finish (groups : List (Nat × Nat × Nat)) (template : Bool) : Regex → Except SyntaxError Regex
  | .look (some _) negated body => do
      let (lo, hi) := width groups body
      if behindLimit < lo then throw (.overall "looks too much behind")
      if lo ≠ hi then throw (.overall "look-behind requires fixed-width pattern")
      return .look (some lo) negated (← finish groups template body)
  | .look none negated body => return .look none negated (← finish groups template body)
  | .seq items => return .seq (← finishAll groups template items)
  | .alt choices => return .alt (← finishAll groups template choices)
  | .rep mode least most body => do
      if template then
        throw (.overall (("internal: unsupported template operator " : Text) ++
          RepeatMode.operator mode))
      return .rep mode least most (← finish groups template body)
  | .group index body => return .group index (← finish groups template body)
  | .atomic body => return .atomic (← finish groups template body)
  | .conditional index whenSet otherwise =>
      return .conditional index (← finish groups template whenSet)
        (← finish groups template otherwise)
  | node => return node

def finishAll (groups : List (Nat × Nat × Nat)) (template : Bool) :
    List Regex → Except SyntaxError (List Regex)
  | [] => return []
  | item :: items =>
      return (← finish groups template item) :: (← finishAll groups template items)

end

def checkFlags : Reader Unit := do
  let s ← get
  if s.letters.contains 'a' then
    if s.letters.contains 'u' then throw (.incompatible "ASCII" "UNICODE")
    if s.letters.contains 'L' then throw (.incompatible "ASCII" "LOCALE")

def readWhole (fuel : Nat) : Reader Regex := do
  checkEscapes
  let node ← alternatives fuel (← get).flags true
  checkFlags
  if (← peek) ≠ [] then refuse "unbalanced parenthesis"
  let s ← get
  match s.wanted.find? fun w => s.nextGroup ≤ w.1 with
  | some (index, place) =>
      throw (.at (("invalid group reference " : Text) ++ Text.ofNat index) place)
  | none => finish s.closed (s.letters.contains 't') node

/-- Reads an expression. One of bytes has no characters beyond ASCII in its kinds. -/
def parse (known : CharacterNames) (source : Source) : Except SyntaxError Regex :=
  let s := source.letters
  let flags := { Flags.initial with ascii := source.isBinary }
  ((readWhole (4 * s.length + 4)).run
    ⟨s, 1, [], [], none, [], flags, [], s.length, source.isBinary, known⟩).map (·.1)

end SourceScan.Regex
