import SourceScan.Text.Unit

/-!
# Paths

A path is a row of names below the working directory or below the root. A path
that begins with exactly two slashes has a root of its own. Empty names and single
dots are dropped when a path is read; double dots stay.
-/

namespace SourceScan

abbrev FileName := RawText

structure Path where
  /-- The number of slashes in front: none, one or two. -/
  slashes : Nat
  names : List FileName
  deriving DecidableEq, Repr, Inhabited

namespace Path

def slash : TextUnit := .char '/'

def dot : TextUnit := .char '.'

def null : TextUnit := .char '\x00'

def dotDot : FileName := [dot, dot]

/-- Three or more leading slashes are as good as one. -/
def rootSlashes (s : RawText) : Nat :=
  let n := (s.takeWhile (· = slash)).length
  if n ≤ 2 then n else 1

def parse (s : RawText) : Path :=
  ⟨rootSlashes s, (Text.splitOn slash s).filter fun name => name ≠ [] && name ≠ [dot]⟩

def ofText (s : Text) : Path := parse (RawText.ofText s)

def isAbsolute (p : Path) : Bool := p.slashes ≠ 0

def join (p q : Path) : Path := if q.isAbsolute then q else ⟨p.slashes, p.names ++ q.names⟩

def child (p : Path) (name : FileName) : Path := ⟨p.slashes, p.names ++ [name]⟩

def name (p : Path) : FileName := p.names.getLast?.getD []

def parent (p : Path) : Path := ⟨p.slashes, p.names.dropLast⟩

def joined (names : List FileName) : RawText := List.intercalate [slash] names

def toRaw (p : Path) : RawText :=
  if p.slashes = 0 && p.names.isEmpty then [dot]
  else List.replicate p.slashes slash ++ joined p.names

/-- The ending of a name from its last dot on, unless that is its first or last character. -/
def nameSuffix (name : FileName) : RawText :=
  match Text.cutWhere (· = dot) name.reverse with
  | some (ending, _, stem) =>
      if ending.isEmpty || stem.isEmpty then [] else dot :: ending.reverse
  | none => []

def suffix (p : Path) : RawText := nameSuffix p.name

def withName? (p : Path) (name : FileName) : Option Path :=
  if p.name.isEmpty then none else some ⟨p.slashes, p.names.dropLast ++ [name]⟩

def relativeTo? (p root : Path) : Option (List FileName) :=
  if p.slashes = root.slashes then Text.dropPrefix? root.names p.names else none

theorem joined_singleton (name : FileName) : joined [name] = name := by simp [joined]

theorem relativeTo?_eq_some {p root : Path} {names : List FileName} :
    p.relativeTo? root = some names ↔ p = ⟨root.slashes, root.names ++ names⟩ := by
  obtain ⟨a, as⟩ := p
  obtain ⟨b, bs⟩ := root
  simp only [relativeTo?, Path.mk.injEq]
  split
  · simp [Text.dropPrefix?_eq_some, *]
  · simp [*]

end Path

end SourceScan
