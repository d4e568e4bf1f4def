import SourceScan.Language.Registry

/-!
# Dependencies and declarations of a file

The lines of a text, stripped, that a line pattern of its language selects. The
dependencies are listed once each; of the declarations only the first few are
taken.
-/

namespace SourceScan

structure LineTests where
  dependencies : Option (Text → Bool)
  declarations : Option (Text → Bool)

/-- The stripped line if the test selects it; a blank line is never selected. -/
def selected? (selects : Text → Bool) (line : Text) : Option Text :=
  let s := Text.strip line
  if s ≠ [] ∧ selects s then some s else none

/-- Adds the selected lines to those found, each of them unless it has been found before. -/
def collectDistinct (selects : Text → Bool) : List Text → List Text → List Text
  | [], found => found
  | line :: lines, found =>
      match selected? selects line with
      | none => collectDistinct selects lines found
      | some s => collectDistinct selects lines (if s ∈ found then found else found ++ [s])

def collectFirst (selects : Text → Bool) (limit : Int) : List Text → List Text → List Text
  | [], found => found
  | line :: lines, found =>
      match selected? selects line with
      | none => collectFirst selects limit lines found
      | some s =>
          let found := found ++ [s]
          if limit ≤ found.length then found else collectFirst selects limit lines found

namespace LineTests

def extractDependencies (t : LineTests) (content : Text) : List Text :=
  match t.dependencies with
  | none => []
  | some selects => collectDistinct selects (Text.splitOn '\n' content) []

def extractDeclarations (t : LineTests) (limit : Int) (content : Text) : List Text :=
  match t.declarations with
  | none => []
  | some selects =>
      if limit ≤ 0 then [] else collectFirst selects limit (Text.splitOn '\n' content) []

end LineTests

def LinePatterns.tests (p : LinePatterns) : LineTests :=
  ⟨p.dependencies.map LinePattern.holds, p.declarations.map LinePattern.holds⟩

namespace Registry

def defaultLimit : Int := 10

def extractDependencies (r : Registry) (content : Text) (language : Language) : List Text :=
  (r.linePatterns language).tests.extractDependencies content

def extractDeclarations (r : Registry) (limit : Int) (content : Text) (language : Language) :
    List Text :=
  (r.linePatterns language).tests.extractDeclarations limit content

end Registry

end SourceScan
