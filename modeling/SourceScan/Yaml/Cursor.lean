import SourceScan.Yaml.Token

/-!
# Places in a YAML text

A cursor is a place in the text with its line and column. At the end of the text
it shows the null character, which no text contains.
-/

namespace SourceScan.Yaml

structure Cursor where
  rest : Text
  index : Nat
  line : Nat
  column : Nat
  deriving Repr

namespace Cursor

def start (s : Text) : Cursor := ⟨s, 0, 0, 0⟩

def peek (c : Cursor) (ahead : Nat) : Char := c.rest.getD ahead '\x00'

def here (c : Cursor) : Char := c.peek 0

/-- Moves over one character. A carriage return before a line feed ends no line by itself, and a
byte order mark takes no column. -/
def next (c : Cursor) : Cursor :=
  match c.rest with
  | [] => c
  | ch :: rest =>
      let c := { c with rest, index := c.index + 1 }
      if ch = '\n' || ch = '\x85' || ch = '\u2028' || ch = '\u2029' ||
          (ch = '\r' && rest.head? ≠ some '\n') then
        { c with line := c.line + 1, column := 0 }
      else if ch = '\uFEFF' then c
      else { c with column := c.column + 1 }

def forward : Nat → Cursor → Cursor
  | 0, c => c
  | n + 1, c => forward n c.next

def span (p : Char → Bool) (c : Cursor) : Text × Cursor :=
  let t := c.rest.takeWhile p
  (t, c.forward t.length)

def skip (p : Char → Bool) (c : Cursor) : Cursor := (c.span p).2

end Cursor

/-! ## Character classes -/

def isBreak (c : Char) : Bool :=
  c = '\r' || c = '\n' || c = '\x85' || c = '\u2028' || c = '\u2029'

def isEnd (c : Char) : Bool := c = '\x00'

def isBreakOrEnd (c : Char) : Bool := isBreak c || isEnd c

def isSpaceOrEnd (c : Char) : Bool := c = ' ' || isBreakOrEnd c

def isBlankOrEnd (c : Char) : Bool := c = '\t' || isSpaceOrEnd c

def isBlank (c : Char) : Bool := c = ' ' || c = '\t'

def isFlowMark (c : Char) : Bool :=
  c = ',' || c = '[' || c = ']' || c = '\x7b' || c = '\x7d'

def isNameChar (c : Char) : Bool := c.isAlphanum || c = '-' || c = '_'

def isAllowed (c : Char) : Bool :=
  inRanges [(0x9, 0xA), (0xD, 0xD), (0x20, 0x7E), (0x85, 0x85), (0xA0, 0xD7FF), (0xE000, 0xFFFD),
    (0x10000, 0x10FFFF)] c.toNat

namespace Cursor

def lineBreak (c : Cursor) : Text × Cursor :=
  let ch := c.here
  if ch = '\r' || ch = '\n' || ch = '\x85' then
    (['\n'], if ch = '\r' && c.peek 1 = '\n' then c.forward 2 else c.next)
  else if ch = '\u2028' || ch = '\u2029' then ([ch], c.next)
  else ([], c)

def atSeparator (c : Cursor) : Bool :=
  let three := c.rest.take 3
  (three = ("---" : Text) || three = ("..." : Text)) && isBlankOrEnd (c.peek 3)

def skipComment (c : Cursor) : Cursor :=
  if c.here = '#' then c.skip (!isBreakOrEnd ·) else c

def restOfLine (c : Cursor) : Except Fault Cursor :=
  let c := (c.skip (· = ' ')).skipComment
  if isBreakOrEnd c.here then .ok c.lineBreak.2 else .error .malformed

end Cursor

end SourceScan.Yaml
