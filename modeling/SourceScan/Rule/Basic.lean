import SourceScan.Text.Blank

/-!
# Exclusion rules

A rule is a pattern together with the place it came from. Merging lists of rules
keeps the first rule of each pattern.
-/

namespace SourceScan

inductive RuleSource where
  | explicit
  | legacy
  | host
  | gitignore
  | project
  | builtin
  deriving DecidableEq, Repr

namespace RuleSource

def all : List RuleSource := [.explicit, .legacy, .host, .gitignore, .project, .builtin]

def name : RuleSource → Text
  | .explicit => "explicit"
  | .legacy => "legacy"
  | .host => "host"
  | .gitignore => "gitignore"
  | .project => "project"
  | .builtin => "builtin"

def ofName? (s : Text) : Option RuleSource := all.find? (·.name = s)

theorem ofName?_name (source : RuleSource) : ofName? source.name = some source := by
  cases source <;> decide

end RuleSource

structure Rule where
  pattern : Text
  source : RuleSource
  deriving DecidableEq, Repr

namespace Rule

def insert (rules : List Rule) (rule : Rule) : List Rule :=
  if rules.any (·.pattern = rule.pattern) then rules else rules ++ [rule]

/-- Adds the patterns of one source, trimmed; blank patterns are dropped. -/
def insertPatterns (rules : List Rule) (source : RuleSource) (patterns : List Text) : List Rule :=
  patterns.foldl
    (fun rules raw =>
      let pattern := Text.strip raw
      if pattern = [] then rules else insert rules ⟨pattern, source⟩)
    rules

def merge (sources : List (RuleSource × List Text)) : List Rule :=
  sources.foldl (fun rules s => insertPatterns rules s.1 s.2) []

def extend (rules more : List Rule) : List Rule := more.foldl insert rules

end Rule

end SourceScan
