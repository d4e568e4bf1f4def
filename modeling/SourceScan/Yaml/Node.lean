import SourceScan.Yaml.Token

/-!
# Nodes of a YAML document

A document is a tree of scalars, sequences and mappings, each with a tag that says
what it stands for.
-/

namespace SourceScan.Yaml

inductive Tag where
  | null
  | bool
  | int
  | float
  | binary
  | timestamp
  | str
  | seq
  | map
  | omap
  | pairs
  | set
  | merge
  | value
  | other (name : Text)
  deriving DecidableEq, Repr, Inhabited

namespace Tag

def standardStart : Text := "tag:yaml.org,2002:"

def standard : List (Text × Tag) :=
  [("null", .null), ("bool", .bool), ("int", .int), ("float", .float), ("binary", .binary),
   ("timestamp", .timestamp), ("str", .str), ("seq", .seq), ("map", .map), ("omap", .omap),
   ("pairs", .pairs), ("set", .set), ("merge", .merge), ("value", .value)]

def ofName (s : Text) : Tag :=
  match Text.dropPrefix? standardStart s with
  | some short => ((standard.find? (·.1 = short)).map (·.2)).getD (.other s)
  | none => .other s

end Tag

inductive Node where
  | scalar (tag : Tag) (text : Text)
  | seq (tag : Tag) (items : List Node)
  | map (tag : Tag) (entries : List (Node × Node))
  deriving Repr, Inhabited

namespace Node

def tag : Node → Tag
  | .scalar tag _ => tag
  | .seq tag _ => tag
  | .map tag _ => tag

mutual

def depth : Node → Nat
  | .scalar .. => 1
  | .seq _ items => depthAll items + 1
  | .map _ entries => depthEntries entries + 1

def depthAll : List Node → Nat
  | [] => 0
  | n :: ns => max (depth n) (depthAll ns)

def depthEntries : List (Node × Node) → Nat
  | [] => 0
  | (k, v) :: es => max (max (depth k) (depth v)) (depthEntries es)

end

end Node

end SourceScan.Yaml
