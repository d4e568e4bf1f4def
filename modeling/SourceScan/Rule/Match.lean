import SourceScan.Glob.Braces
import SourceScan.Glob.Pattern

/-!
# Matching paths against rules

A pattern with a wildcard is a glob rule, one that ends with a slash names a
directory, and any other one is plain. Paths are relative to the root of a scan
and normalised first. A glob rule that cannot be read, or every glob rule when
globs are switched off, is matched by its fixed ends alone.
-/

namespace SourceScan

/-- Forward slashes only, no leading `./`, no slash at either end. -/
def normalizePath (path : Text) : Text :=
  -- The slashes go last, so a `./` behind a leading one stays.
  Text.trim (· = '/') (dropDots (path.map fun c => if c = '\\' then '/' else c))
where
  dropDots : Text → Text
    | '.' :: '/' :: s => dropDots s
    | s => s

def markerNames : List Text := [".DS_Store"]

def isHidden (segment : Text) : Bool :=
  segment.head? = some '.' && segment ≠ ("." : Text) && segment ≠ (".." : Text)

/-- Marker files and all that lies in a hidden directory. -/
def isBuiltinExcluded (path : Text) (isDir : Bool) : Bool :=
  let segments := Text.splitOn '/' path
  segments.getLast?.any (· ∈ markerNames) ||
    (if isDir then segments else segments.dropLast).any isHidden

section Units

open Glyph

variable {α : Type} [DecidableEq α] [Glyph α]

def hasWildcard (pattern : List α) : Bool :=
  pattern.any fun c => c = ofChar '*' || c = ofChar '?' || c = ofChar '\x7b'

/-- The line for one alternative of a rule. It holds from the root unless it starts with `**`, and
a leading `!` or `#` means itself. -/
def Glob.anchoredLine (alternative : List α) : List α :=
  let line :=
    if alternative.head? = some (ofChar '!') || alternative.head? = some (ofChar '#') then
      ofChar '\\' :: alternative
    else alternative
  if line.head? = some (ofChar '/') || anyDepth.isPrefixOf line then line
  else ofChar '/' :: line

def Glob.compile (pattern : List α) : Except PatternError (List Pattern) :=
  (expand pattern).mapM fun alternative => Pattern.ofLine (anchoredLine alternative)

end Units

namespace Glob

/-- One leading slash, or else one leading `./`, is not part of a path. -/
def withoutLead : Text → Text
  | '/' :: path => path
  | '.' :: '/' :: path => path
  | path => path

def anyHolds (patterns : List Pattern) (path : Text) : Bool :=
  patterns.any (·.holds (withoutLead path))

/-- Only a star at either end of the pattern is honoured. -/
def holdsByEnds (path pattern : Text) : Bool :=
  (pattern.head? = some '*' && pattern.tail.isSuffixOf path) ||
    (pattern.getLast? = some '*' &&
      (pattern.dropLast.isPrefixOf path || Text.occursIn ('/' :: pattern.dropLast) path))

end Glob

def matchesDirectory (path name : Text) : Bool :=
  name ≠ [] &&
    (path = name || (name ++ ['/']).isPrefixOf path ||
      Text.occursIn ('/' :: name ++ ['/']) path)

def matchesPlain (path pattern : Text) : Bool :=
  -- Behind a slash the pattern may be the beginning of a longer name.
  path = pattern || Text.occursIn ('/' :: pattern) path || (pattern ++ ['/']).isPrefixOf path

structure Matcher where
  useGlob : Bool
  deriving DecidableEq, Repr

namespace Matcher

def standard : Matcher := ⟨true⟩

/-- A glob rule for a directory may also hold of the directory's path with a slash after it. -/
def matchesGlob (m : Matcher) (path pattern : Text) (isDir : Bool) : Bool :=
  if m.useGlob then
    match Glob.compile pattern with
    | .ok patterns =>
        Glob.anyHolds patterns path || (isDir && Glob.anyHolds patterns (path ++ ['/']))
    | .error _ => Glob.holdsByEnds path pattern
  else Glob.holdsByEnds path pattern

def matchesPattern (m : Matcher) (path pattern : Text) (isDir : Bool) : Bool :=
  let pattern := Text.strip pattern
  if pattern = [] then false
  else if path = pattern then true
  else if hasWildcard pattern then m.matchesGlob path pattern isDir
  else if pattern.getLast? = some '/' then matchesDirectory path pattern.dropLast
  else matchesPlain path pattern

/-- What a pattern with a stray byte in it does to a path without one. It can match the path only as
a glob rule, for all else takes each of its bytes to be part of the path. -/
def matchesStray (m : Matcher) (path : Text) (pattern : RawText) (isDir : Bool) : Bool :=
  let pattern := Text.trim Glob.isBlankUnit pattern
  hasWildcard pattern && m.useGlob &&
    match Glob.compile pattern with
    | .ok patterns =>
        Glob.anyHolds patterns path || (isDir && Glob.anyHolds patterns (path ++ ['/']))
    | .error _ => false

def excludes (m : Matcher) (path : Text) (patterns : List Text) (isDir : Bool) : Bool :=
  let path := normalizePath path
  path ≠ [] &&
    (isBuiltinExcluded path isDir || patterns.any (m.matchesPattern path · isDir))

end Matcher

end SourceScan
