import SourceScan.Assoc
import SourceScan.Language.Basic
import SourceScan.Path
import SourceScan.Regex.Matcher
import SourceScan.Regex.Parser

/-!
# The language table

Which extension belongs to which language, and by which line patterns a language's
dependencies and declarations are found. An extension belongs to the language that
claimed it last, while the list of a language keeps all that it ever claimed.
-/

namespace SourceScan

/-- A pattern for lines. One that is written in bytes holds of no line: applying it to text is an
error that is left out here. -/
structure LinePattern where
  source : Text
  binary : Bool
  regex : Regex
  deriving Inhabited

namespace LinePattern

def parse (known : Regex.CharacterNames) (source : Regex.Source) :
    Except Regex.SyntaxError LinePattern :=
  (Regex.parse known source).map (⟨source.letters, source.isBinary, ·⟩)

def holds (p : LinePattern) (line : Text) : Bool := !p.binary && p.regex.holdsAtStart line

end LinePattern

structure LinePatterns where
  dependencies : Option LinePattern
  declarations : Option LinePattern
  deriving Inhabited

def LinePatterns.empty : LinePatterns := ⟨none, none⟩

structure Registry where
  languages : List (Text × Language)
  /-- The extensions that each language claimed. -/
  claimed : List (Language × List Text)
  patterns : List (Language × LinePatterns)
  deriving Inhabited

inductive RegisterError where
  | unknownLanguage (name : Text)
  | badPattern (language : Language) (pattern : Text) (error : Regex.SyntaxError)
  deriving DecidableEq, Repr

def RegisterError.message : RegisterError → Text
  | .unknownLanguage name => ("Unknown language tag: " : Text) ++ name
  | .badPattern language pattern error =>
      if error.isSyntax then
        ("Invalid pattern for " : Text) ++ language.name ++ (": " : Text) ++ error.message pattern
      else error.message pattern

/-- An extension without blanks around it and leading dots, in lower case. -/
def normalizeExtension (extension : Text) : Text :=
  Text.lower ((Text.strip extension).dropWhile (· = '.'))

namespace Registry

def empty : Registry := ⟨[], [], []⟩

/-- Gives an extension to a language; one that is empty when normalised is ignored. -/
def claim (r : Registry) (language : Language) (extension : Text) : Registry :=
  let extension := normalizeExtension extension
  if extension.isEmpty then r
  else
    let held := (Assoc.get? language r.claimed).getD []
    { r with
      languages := Assoc.put extension language r.languages
      claimed :=
        Assoc.put language (if extension ∈ held then held else held ++ [extension]) r.claimed }

def newPattern (known : Regex.CharacterNames) (language : Language)
    (given : Option Regex.Source) (current : Option LinePattern) :
    Except RegisterError (Option LinePattern) :=
  match given with
  | none => .ok current
  | some source =>
      if source.letters = [] then .ok current
      else
        match LinePattern.parse known source with
        | .ok p => .ok (some p)
        | .error e => .error (.badPattern language source.letters e)

def linePatterns (r : Registry) (language : Language) : LinePatterns :=
  (Assoc.get? language r.patterns).getD .empty

/-- Claims extensions for a language and sets its line patterns. The registry that comes with an
error is the one that the failed call leaves behind. -/
def register (r : Registry) (language : Text) (extensions : List Text)
    (dependencies declarations : Option Regex.Source)
    (known : Regex.CharacterNames := Regex.noNames) : Registry × Option RegisterError :=
  match Language.ofName language with
  | .unknown => (r, some (.unknownLanguage language))
  | tag =>
      -- The claims stay if a pattern is refused below.
      let r := extensions.foldl (fun r e => r.claim tag e) r
      if dependencies.isNone && declarations.isNone then (r, none)
      else
        let current := r.linePatterns tag
        match newPattern known tag dependencies current.dependencies with
        | .error e => (r, some e)
        | .ok d =>
            match newPattern known tag declarations current.declarations with
            | .error e => (r, some e)
            | .ok s => ({ r with patterns := Assoc.put tag ⟨d, s⟩ r.patterns }, none)

def classify (r : Registry) (extension : Text) : Language :=
  (Assoc.get? (normalizeExtension extension) r.languages).getD .unknown

def classifyPath (r : Registry) (path : Path) : Language := r.classify path.suffix.shown

def extensions (r : Registry) (language : Language) : List Text :=
  (Assoc.get? language r.claimed).getD []

def allLanguages (r : Registry) : List Language := r.claimed.map (·.1)

end Registry

end SourceScan
