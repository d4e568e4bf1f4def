import SourceScan.Yaml.Lexer
import SourceScan.Yaml.Schema

/-!
# From tokens to the nodes of a document

The grammar of documents over tokens. An alias stands for a copy of the node that
its anchor names. Values that contain themselves are left out: an alias inside the
node that it stands for is a fault of its own.
-/

namespace SourceScan.Yaml

/-- The tokens left, the nodes named so far, the names whose nodes are still being read, and what
the tag handles stand for. -/
structure Composer where
  tokens : List Token
  anchors : List (Text × Node)
  opened : List Text
  handles : List (Text × Text)

abbrev Compose := StateT Composer (Except Fault)

def malformed {α : Type} : Compose α := throw .malformed

namespace Compose

def peek : Compose (Option Token) := do return (← get).tokens.head?

def skip : Compose Unit := modify fun s => { s with tokens := s.tokens.tail }

def accept (t : Token) : Compose Bool := do
  if (← peek) = some t then
    skip
    return true
  else return false

def emptyNode : Node := .scalar (.ofPlain []) []

def tagName (handle : Option Text) (suffix : Text) : Compose Text := do
  match handle with
  | none => return suffix
  | some handle =>
      match (← get).handles.find? (·.1 = handle) with
      | some (_, start) => return start ++ suffix
      | none => malformed

def properties : Compose (Option Text × Option (Option Text × Text)) := do
  match ← peek with
  | some (.anchor name) =>
      skip
      match ← peek with
      | some (.tag handle suffix) =>
          skip
          return (some name, some (handle, suffix))
      | _ => return (some name, none)
  | some (.tag handle suffix) =>
      skip
      match ← peek with
      | some (.anchor name) =>
          skip
          return (some name, some (handle, suffix))
      | _ => return (none, some (handle, suffix))
  | _ => return (none, none)

def aliased (name : Text) : Compose Node := do
  let s ← get
  match s.anchors.find? (·.1 = name) with
  | some (_, node) => return node
  | none => if s.opened.contains name then throw .selfReference else malformed

def openAnchor (name : Option Text) : Compose Unit := do
  match name with
  | none => return
  | some name =>
      let s ← get
      if s.opened.contains name then malformed
      else modify fun s => { s with opened := name :: s.opened }

def closeAnchor (name : Option Text) (node : Node) : Compose Unit := do
  match name with
  | none => return
  | some name => modify fun s => { s with anchors := (name, node) :: s.anchors }

mutual

/-- Reads a node. Block collections are read only where `block` says so, and a sequence without
indentation of its own where `indentless` does. -/
def node (block indentless : Bool) (fuel : Nat) : Compose Node :=
  match fuel with
  | 0 => malformed
  | fuel + 1 => do
      if let some (.alias name) ← peek then
        skip
        return ← aliased name
      let (anchor, tag) ← properties
      let name ←
        match tag with
        | none => pure none
        | some (handle, suffix) => do pure (some (← tagName handle suffix))
      let given := name.filter (· ≠ ['!'])
      let tagOr (default : Tag) : Tag := (given.map Tag.ofName).getD default
      openAnchor anchor
      let found ←
        match ← peek with
        | some (.scalar plain text) => do
            skip
            let implicit := (plain && name.isNone) || name = some ['!']
            pure (.scalar (tagOr (if implicit then .ofPlain text else .str)) text)
        | some .blockEntry => do
            if !indentless then malformed
            pure (.seq (tagOr .seq) (← indentlessItems fuel))
        | some .flowSequenceStart => do
            skip
            pure (.seq (tagOr .seq) (← flowItems true fuel))
        | some .flowMappingStart => do
            skip
            pure (.map (tagOr .map) (← flowEntries true fuel))
        | some .blockSequenceStart => do
            if !block then malformed
            skip
            pure (.seq (tagOr .seq) (← blockItems fuel))
        | some .blockMappingStart => do
            if !block then malformed
            skip
            pure (.map (tagOr .map) (← blockEntries fuel))
        | _ => do
            if anchor.isNone && name.isNone then malformed
            pure (.scalar (tagOr (.ofPlain [])) [])
      closeAnchor anchor found
      return found

def nodeUnless (ends : List Token) (atEnd block indentless : Bool) (fuel : Nat) : Compose Node :=
  match fuel with
  | 0 => malformed
  | fuel + 1 => do
      let next ← peek
      if next.any ends.contains || (next.isNone && atEnd) then return emptyNode
      else node block indentless fuel

def blockItems (fuel : Nat) : Compose (List Node) :=
  match fuel with
  | 0 => malformed
  | fuel + 1 => do
      if ← accept .blockEntry then
        let item ← nodeUnless [.blockEntry, .blockEnd] false true false fuel
        return item :: (← blockItems fuel)
      else if ← accept .blockEnd then return []
      else malformed

def indentlessItems (fuel : Nat) : Compose (List Node) :=
  match fuel with
  | 0 => malformed
  | fuel + 1 => do
      if ← accept .blockEntry then
        let item ← nodeUnless [.blockEntry, .key, .value, .blockEnd] false true false fuel
        return item :: (← indentlessItems fuel)
      else return []

def blockEntries (fuel : Nat) : Compose (List (Node × Node)) :=
  match fuel with
  | 0 => malformed
  | fuel + 1 => do
      if ← accept .key then
        let key ← nodeUnless [.key, .value, .blockEnd] false true true fuel
        let value ← blockValue fuel
        return (key, value) :: (← blockEntries fuel)
      else if ← accept .blockEnd then return []
      else malformed

def blockValue (fuel : Nat) : Compose Node :=
  match fuel with
  | 0 => malformed
  | fuel + 1 => do
      if ← accept .value then nodeUnless [.key, .value, .blockEnd] false true true fuel
      else return emptyNode

def flowItems (first : Bool) (fuel : Nat) : Compose (List Node) :=
  match fuel with
  | 0 => malformed
  | fuel + 1 => do
      if ← accept .flowSequenceEnd then return []
      if !first then
        if !(← accept .flowEntry) then malformed
      if ← accept .key then
        let key ← nodeUnless [.value, .flowEntry, .flowSequenceEnd] false false false fuel
        let value ←
          if ← accept .value then
            nodeUnless [.flowEntry, .flowSequenceEnd] false false false fuel
          else pure emptyNode
        return .map .map [(key, value)] :: (← flowItems false fuel)
      else if ← accept .flowSequenceEnd then return []
      else
        let item ← node false false fuel
        return item :: (← flowItems false fuel)

def flowEntries (first : Bool) (fuel : Nat) : Compose (List (Node × Node)) :=
  match fuel with
  | 0 => malformed
  | fuel + 1 => do
      if ← accept .flowMappingEnd then return []
      if !first then
        if !(← accept .flowEntry) then malformed
      if ← accept .key then
        let key ← nodeUnless [.value, .flowEntry, .flowMappingEnd] false false false fuel
        let value ←
          if ← accept .value then
            nodeUnless [.flowEntry, .flowMappingEnd] false false false fuel
          else pure emptyNode
        return (key, value) :: (← flowEntries false fuel)
      else if ← accept .flowMappingEnd then return []
      else
        let key ← node false false fuel
        return (key, emptyNode) :: (← flowEntries false fuel)

end

def defaultHandles : List (Text × Text) := [("!", "!"), ("!!", Tag.standardStart)]

def directives : Bool → List (Text × Text) → Nat → Compose (List (Text × Text))
  | _, handles, 0 => return handles
  | versioned, handles, fuel + 1 => do
      match ← peek with
      | some (.directive d) =>
          skip
          match d with
          | .version major _ =>
              if versioned || major ≠ 1 then malformed else directives true handles fuel
          | .tag handle start =>
              if handles.any (·.1 = handle) then malformed
              else directives versioned ((handle, start) :: handles) fuel
          | .other => directives versioned handles fuel
      | _ => return handles

def isDirective : Token → Bool
  | .directive _ => true
  | _ => false

def skipEnds : Nat → Compose Unit
  | 0 => return
  | fuel + 1 => do if ← accept .documentEnd then skipEnds fuel

def explicitDocument (fuel : Nat) : Compose Node := do
  let handles ← directives false [] fuel
  modify fun s => { s with handles := handles ++ defaultHandles }
  if !(← accept .documentStart) then malformed
  match ← peek with
  | none => return emptyNode
  | some t =>
      if isDirective t || t = .documentStart || t = .documentEnd then return emptyNode
      else node true false fuel

def document (fuel : Nat) : Compose (Option Node) := do
  match ← peek with
  | none => return none
  | some t =>
      let root ←
        if isDirective t || t = .documentStart then explicitDocument fuel
        else node true false fuel
      skipEnds fuel
      if (← peek).isSome then malformed
      return some root

end Compose

def Node.ofTokens (tokens : List Token) : Except Fault (Option Node) :=
  ((Compose.document (4 * tokens.length + 4)).run
    ⟨tokens, [], [], Compose.defaultHandles⟩).map (·.1)

def Node.read (s : Text) : Except Fault (Option Node) := do
  Node.ofTokens (← Token.scan s)

end SourceScan.Yaml
