import SourceScan.Text.Basic
import SourceScan.Text.Range

/-!
# Blank characters and lines

The blank characters are those of Unicode together with the four information
separators. Two notions of a line end meet here: the wide one, which ends a line
at every character that Unicode or ASCII ever used for it, and the universal one,
which reads the three common line ends as a single line feed.
-/

namespace SourceScan

namespace Text

def blankRanges : List (Nat × Nat) :=
  [(0x9, 0xD), (0x1C, 0x20), (0x85, 0x85), (0xA0, 0xA0), (0x1680, 0x1680), (0x2000, 0x200A),
   (0x2028, 0x2029), (0x202F, 0x202F), (0x205F, 0x205F), (0x3000, 0x3000)]

def isBlank (c : Char) : Bool := inRanges blankRanges c.toNat

def strip (s : Text) : Text := trim isBlank s

def stripStart (s : Text) : Text := s.dropWhile isBlank

/-- The characters that end a line in the wide sense. -/
def isLineEnd (c : Char) : Bool :=
  inRanges [(0xA, 0xD), (0x1C, 0x1E), (0x85, 0x85), (0x2028, 0x2029)] c.toNat

/-- The lines in the wide sense, without their ends; a final line end opens no further line. -/
def wideLines (s : Text) : List Text := go s [] []
where
  go : Text → Text → List Text → List Text
    | [], [], lines => lines.reverse
    | [], line, lines => (line.reverse :: lines).reverse
    | '\r' :: '\n' :: cs, line, lines => go cs [] (line.reverse :: lines)
    | c :: cs, line, lines =>
        if isLineEnd c then go cs [] (line.reverse :: lines) else go cs (c :: line) lines

/-- Reads a carriage return, alone or before a line feed, as a line feed. -/
def universalNewlines (s : Text) : Text := go s []
where
  go : Text → Text → Text
    | [], out => out.reverse
    | '\r' :: '\n' :: cs, out => go cs ('\n' :: out)
    | c :: cs, out => go cs ((if c = '\r' then '\n' else c) :: out)

theorem isBlank_of_isWhitespace {c : Char} (h : c.isWhitespace = true) : isBlank c = true := by
  simp only [Char.isWhitespace, Bool.or_eq_true, decide_eq_true_eq] at h
  rcases h with ((h | h) | h) | h <;> subst h <;> decide

end Text

end SourceScan
