import SourceScan.Text.Unit
import SourceScan.Yaml.Cursor
import SourceScan.Yaml.Schema

/-!
# Styles of YAML scalars

A scalar is written plain if it reads back with the same tag and has no mark in it
that means something else, between single quotes if all its characters may stand
there, and between double quotes with escapes otherwise.
-/

namespace SourceScan.Yaml

def isWrittenBreak (c : Char) : Bool :=
  c = '\n' || c = '\x85' || c = '\u2028' || c = '\u2029'

def setsOff (c : Char) : Bool := isBlankOrEnd c

def isSpecial (wide : Bool) (c : Char) : Bool :=
  !(c = '\n' || inRanges [(0x20, 0x7E)] c.toNat ||
    (wide && inRanges
      [(0x85, 0x85), (0xA0, 0xD7FF), (0xE000, 0xFEFE), (0xFF00, 0xFFFD), (0x10000, 0x10FFFE)]
      c.toNat))

def hasPair (p q : Char → Bool) : Text → Bool
  | c :: d :: s => (p c && q d) || hasPair p q (d :: s)
  | _ => false

def isSpaceOrBreak (c : Char) : Bool := c = ' ' || isWrittenBreak c

def leadingMarks : Text := "#,[]\x7b\x7d&*!|>'\"%@`"

def hasLeadingMark : Text → Bool
  | [] => false
  | c :: s =>
      leadingMarks.contains c || ((c = '?' || c = ':' || c = '-') && (s.head?.all setsOff))

def hasInnerMark : Text → Bool
  | c :: d :: s =>
      (d = ':' && s.head?.all setsOff) || (d = '#' && setsOff c) || hasInnerMark (d :: s)
  | _ => false

def hasMark (s : Text) : Bool :=
  ("---" : Text).isPrefixOf s || ("..." : Text).isPrefixOf s || hasLeadingMark s || hasInnerMark s

def isMultiline (s : Text) : Bool := s.any isWrittenBreak

def canBeSingleQuoted (wide : Bool) (s : Text) : Bool :=
  !s.any (isSpecial wide) && !hasPair isWrittenBreak (· = ' ') s &&
    !hasPair (· = ' ') isWrittenBreak s

def canBePlain (wide : Bool) (s : Text) : Bool :=
  canBeSingleQuoted wide s && !isMultiline s && !hasMark s && !s.head?.any isSpaceOrBreak &&
    !s.getLast?.any isSpaceOrBreak

inductive Style where
  | plain
  | single
  | double
  deriving DecidableEq, Repr

/-- The style of a scalar with the tag. A key on the line of its value takes one line. -/
def Style.choose (wide simpleKey : Bool) (tag : Tag) (s : RawText) : Style :=
  match s.text? with
  | none => .double
  | some t =>
      if Tag.ofPlain t = tag && !(simpleKey && (t.isEmpty || isMultiline t)) &&
      canBePlain wide t then
        .plain
      else if canBeSingleQuoted wide t && !(simpleKey && isMultiline t) then .single
      else .double

/-! ## Escapes -/

def shortEscape? : Char → Option Char
  | '\x00' => some '0'
  | '\x07' => some 'a'
  | '\x08' => some 'b'
  | '\t' => some 't'
  | '\n' => some 'n'
  | '\x0b' => some 'v'
  | '\x0c' => some 'f'
  | '\r' => some 'r'
  | '\x1b' => some 'e'
  | '"' => some '"'
  | '\\' => some '\\'
  | '\x85' => some 'N'
  | '\xa0' => some '_'
  | '\u2028' => some 'L'
  | '\u2029' => some 'P'
  | _ => none

def staysInDouble (wide : Bool) (c : Char) : Bool :=
  !("\"\\\u0085\u2028\u2029\uFEFF" : Text).contains c &&
    (inRanges [(0x20, 0x7E)] c.toNat ||
      (wide && inRanges [(0xA0, 0xD7FF), (0xE000, 0xFFFD)] c.toNat))

def numericEscape (n : Nat) : Text :=
  if n < 0x100 then '\\' :: 'x' :: Text.asciiUpper (Text.ofNatPadded 16 2 n)
  else if n < 0x10000 then '\\' :: 'u' :: Text.asciiUpper (Text.ofNatPadded 16 4 n)
  else '\\' :: 'U' :: Text.asciiUpper (Text.ofNatPadded 16 8 n)

def escape? (wide : Bool) : TextUnit → Option Text
  | .char c =>
      if staysInDouble wide c then none
      else
        match shortEscape? c with
        | some e => some ['\\', e]
        | none => some (numericEscape c.toNat)
  | .stray b => some (numericEscape (TextUnit.stray b).code)

end SourceScan.Yaml
