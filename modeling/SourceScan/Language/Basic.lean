import SourceScan.Text.Basic

/-!
# Languages

The languages that files are reported in.
-/

namespace SourceScan

inductive Language where
  | javaScript
  | typeScript
  | python
  | java
  | ruby
  | php
  | go
  | rust
  | cFamily
  | html
  | css
  | json
  | markdown
  | shell
  | unknown
  deriving DecidableEq, Repr

namespace Language

def all : List Language :=
  [.javaScript, .typeScript, .python, .java, .ruby, .php, .go, .rust, .cFamily, .html, .css, .json,
   .markdown, .shell, .unknown]

def name : Language → Text
  | .javaScript => "JavaScript"
  | .typeScript => "TypeScript"
  | .python => "Python"
  | .java => "Java"
  | .ruby => "Ruby"
  | .php => "PHP"
  | .go => "Go"
  | .rust => "Rust"
  | .cFamily => "C/C++"
  | .html => "HTML"
  | .css => "CSS"
  | .json => "JSON"
  | .markdown => "Markdown"
  | .shell => "Shell"
  | .unknown => "Unknown"

def ofName (s : Text) : Language := (all.find? (·.name = s)).getD .unknown

theorem ofName_name (l : Language) : ofName l.name = l := by
  cases l <;> decide

end Language

end SourceScan
