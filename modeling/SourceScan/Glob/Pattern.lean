import SourceScan.Text.Blank
import SourceScan.Text.Unit

/-!
# Path patterns

One alternative of a glob rule, read as a line of an ignore file: segments between
slashes, where `**` stands for any number of segments, `*` for a run of characters
inside one, `?` for a single character and brackets for a class of characters.
`Pattern.ofLine` lays a line out as a row of pieces, and `Pattern.holds` runs a
path through the row, keeping all places that can be reached.
-/

namespace SourceScan.Glob

structure CharClass where
  negated : Bool
  ranges : List (Nat × Nat)
  deriving DecidableEq, Repr

def CharClass.holds (k : CharClass) (c : Char) : Bool :=
  k.negated != (k.ranges.any fun r => r.1 ≤ c.toNat && c.toNat ≤ r.2)

inductive Piece where
  /-- Exactly this character. -/
  | char (c : Char)
  | oneOf (k : CharClass)
  /-- One character other than a slash. -/
  | unit
  /-- Any run of characters other than slashes. -/
  | run
  /-- A whole segment: a run that is not empty. -/
  | segment
  /-- Nothing, or text on one line that ends with a slash. -/
  | leading
  /-- Nothing, or a slash with text on one line after it. -/
  | inner
  /-- Nothing, or a slash with any rest of the line. -/
  | below
  /-- A slash with any rest of the line. -/
  | contents
  /-- Some text on one line, a slash, and any rest of the line. -/
  | nested
  deriving DecidableEq, Repr

inductive PatternError where
  | noSegments
  | danglingEscape
  | badRange
  deriving DecidableEq, Repr

inductive Pattern where
  | never
  | row (pieces : List Piece)
  deriving DecidableEq, Repr

/-! ## Reading a line -/

section Reading

open Glyph

variable {α : Type} [DecidableEq α] [Glyph α]

/-- What stands for itself. No character is equal to a unit that is none. -/
def Piece.literal (u : α) : Piece :=
  match char? u with
  | some c => .char c
  | none => .oneOf ⟨false, []⟩

def classRanges : List α → Except PatternError (List (Nat × Nat))
  | [] => .ok []
  | [c] => .ok [(code c, code c)]
  | [c, d] => .ok [(code c, code c), (code d, code d)]
  | c :: d :: e :: rest =>
      if d = ofChar '-' then
        if code e < code c then .error .badRange
        else (classRanges rest).map ((code c, code e) :: ·)
      else (classRanges (d :: e :: rest)).map ((code c, code c) :: ·)

def splitNegation : List α → Bool × List α
  | [] => (false, [])
  | c :: s => if c = ofChar '!' || c = ofChar '^' then (true, s) else (false, c :: s)

theorem length_splitNegation (s : List α) : (splitNegation s).2.length ≤ s.length := by
  unfold splitNegation
  split
  · simp
  · split <;> simp

/-- A closing bracket in the first place, which is part of the expression, and the rest. -/
def splitFirstBracket : List α → List α × List α
  | [] => ([], [])
  | c :: s => if c = ofChar ']' then ([c], s) else ([], c :: s)

theorem length_splitFirstBracket (s : List α) : (splitFirstBracket s).2.length ≤ s.length := by
  unfold splitFirstBracket
  split
  · simp
  · split <;> simp

/-- Cuts a bracket expression off the text after its opening bracket: whether it is negated, what
it holds, and what follows the closing bracket. -/
def splitBrackets? (s : List α) : Option (Bool × List α × List α) :=
  let start := splitNegation s
  let first := splitFirstBracket start.2
  (Text.cutWhere (· = ofChar ']') first.2).map fun cut => (start.1, first.1 ++ cut.1, cut.2.2)

theorem length_of_splitBrackets {s body rest : List α} {negated : Bool}
    (h : splitBrackets? s = some (negated, body, rest)) : rest.length < s.length := by
  obtain ⟨⟨b, d, r⟩, hr, he⟩ := Option.map_eq_some_iff.1 h
  have cut := congrArg List.length (Text.eq_of_cutWhere hr).1
  have h₁ := length_splitNegation s
  have h₂ := length_splitFirstBracket (splitNegation s).2
  simp only [Prod.mk.injEq] at he
  simp only [List.length_append, List.length_cons] at cut
  rw [← he.2.2]
  omega

def segmentPieces : List α → Except PatternError (List Piece)
  | [] => .ok []
  | c :: rest =>
      if c = ofChar '\\' then
        match rest with
        | [] => .error .danglingEscape
        | d :: rest => (segmentPieces rest).map (.literal d :: ·)
      else if c = ofChar '*' then (segmentPieces rest).map (.run :: ·)
      else if c = ofChar '?' then (segmentPieces rest).map (.unit :: ·)
      else if c = ofChar '[' then
        match _h : splitBrackets? rest with
        | none => (segmentPieces rest).map (.char '[' :: ·)
        | some (negated, body, rest') => do
            let ranges ← classRanges body
            let pieces ← segmentPieces rest'
            return .oneOf ⟨negated, ranges⟩ :: pieces
      else (segmentPieces rest).map (.literal c :: ·)
termination_by s => s.length
decreasing_by
  all_goals try have := length_of_splitBrackets _h
  all_goals simp_all
  all_goals omega

def anyDepth : List α := [ofChar '*', ofChar '*']

def collapse : List (List α) → List (List α)
  | s :: t :: rest =>
      if s = anyDepth ∧ t = anyDepth then collapse (t :: rest) else s :: collapse (t :: rest)
  | segments => segments

/-- The segments of a pattern from the root down: a pattern of a single segment may lie at any
depth, and a final slash stands for the contents of a directory. -/
def rooted (segments : List (List α)) : List (List α) :=
  let segments :=
    match segments with
    -- a slash in front
    | [] :: rest => rest
    | [s] => if s = anyDepth then [s] else [anyDepth, s]
    | [s, []] => if s = anyDepth then [s, []] else [anyDepth, s, []]
    | segments => segments
  -- a slash at the end
  if 1 < segments.length ∧ segments.getLast? = some [] then
    segments.dropLast ++ [anyDepth]
  else segments

def laterPieces (slash : Bool) : List (List α) → Except PatternError (List Piece)
  | [] => .ok []
  | s :: rest =>
      if s = anyDepth then
        if rest.isEmpty then .ok [.contents]
        else (laterPieces true rest).map (.inner :: ·)
      else do
        let own ← if s = [ofChar '*'] then .ok [Piece.segment] else segmentPieces s
        let later ← laterPieces true rest
        return (if slash then [Piece.char '/'] else []) ++ own ++
          (if rest.isEmpty then [Piece.below] else []) ++ later

def rowPieces : List (List α) → Except PatternError (List Piece)
  | [] => .error .noSegments
  | s :: rest =>
      if s = anyDepth then
        if rest.isEmpty then .ok [.segment, .below]
        else (laterPieces false rest).map (.leading :: ·)
      else laterPieces false (s :: rest)

def isBlankUnit (u : α) : Bool := (char? u).any Text.isBlank

/-- Reads a line. A blank line, a lone slash and a line that opens with a hash match nothing. -/
def Pattern.ofLine (line : List α) : Except PatternError Pattern :=
  let line :=
    if [ofChar '\\', ofChar ' '].isSuffixOf line then line.dropWhile isBlankUnit
    else Text.trim isBlankUnit line
  if line = [] ∨ line = [ofChar '/'] ∨ line.head? = some (ofChar '#') then .ok .never
  else
    let segments := collapse (Text.splitOn (ofChar '/') line)
    if segments = [anyDepth, []] then .ok (.row [.nested])
    else (rowPieces (rooted segments)).map .row

end Reading

/-! ## Matching -/

def isSegmentChar (c : Char) : Bool := c ≠ '/'

def isLineChar (c : Char) : Bool := c ≠ '\n'

def restsAfterRun (p : Char → Bool) : Text → List Text
  | [] => [[]]
  | c :: cs => (c :: cs) :: if p c then restsAfterRun p cs else []

def restsAfterSome (p : Char → Bool) : Text → List Text
  | [] => []
  | c :: cs => if p c then restsAfterRun p cs else []

def restsAfterSlash : Text → List Text
  | '/' :: cs => [cs]
  | _ => []

def Piece.rests (piece : Piece) (s : Text) : List Text :=
  match piece with
  | .char c =>
      match s with
      | [] => []
      | d :: ds => if c = d then [ds] else []
  | .oneOf k =>
      match s with
      | [] => []
      | d :: ds => if k.holds d then [ds] else []
  | .unit =>
      match s with
      | [] => []
      | d :: ds => if isSegmentChar d then [ds] else []
  | .run => restsAfterRun isSegmentChar s
  | .segment => restsAfterSome isSegmentChar s
  | .leading => s :: (restsAfterSome isLineChar s).flatMap restsAfterSlash
  | .inner => s :: (restsAfterSlash s).flatMap (restsAfterSome isLineChar)
  | .below => s :: (restsAfterSlash s).flatMap (restsAfterRun isLineChar)
  | .contents => (restsAfterSlash s).flatMap (restsAfterRun isLineChar)
  | .nested =>
      ((restsAfterSome isLineChar s).flatMap restsAfterSlash).flatMap (restsAfterRun isLineChar)

def rowRests (pieces : List Piece) (s : Text) : List Text :=
  pieces.foldl (fun rests piece => (rests.flatMap piece.rests).eraseDups) [s]

/-- A text is at its end also before a final line feed. -/
def atEnd (s : Text) : Bool := s = [] || s = ['\n']

def Pattern.holds : Pattern → Text → Bool
  | .never, _ => false
  | .row pieces, s => (rowRests pieces s).any atEnd

end SourceScan.Glob
