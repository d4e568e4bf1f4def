import SourceScan.Text.Blank

/-!
# Ignore files

The patterns of an ignore file, one to a line. Blank lines, comments and negated
lines are left out, and the slashes in front of a pattern are dropped.
-/

namespace SourceScan.IgnoreFile

def defaultName : Text := ".gitignore"

def pattern? (line : Text) : Option Text :=
  match Text.strip line with
  | [] => none
  | '#' :: _ => none
  | '!' :: _ => none
  | line =>
      match line.dropWhile (· = '/') with
      | [] => none
      | pattern => some pattern

def patterns (content : Text) : List Text := (Text.wideLines content).filterMap pattern?

end SourceScan.IgnoreFile
