import SourceScan.Language.Registry
import SourceScan.Value.Use
import SourceScan.Yaml.Values

/-!
# Language tables

A registry may be read from a table in YAML: a mapping from the names of languages
to their extensions and line patterns. Names that are no language, and entries that
are no mapping, are passed over.
-/

namespace SourceScan

inductive TableError where
  | missing (path : Path)
  | notText (error : Utf8.DecodeError)
  | yaml (fault : Yaml.Fault)
  | notMapping (kind : Kind)
  | misuse (misuse : Misuse)
  | register (error : RegisterError)
  deriving DecidableEq, Repr

def TableError.message : TableError → Text
  | .missing path => ("Languages config not found: " : Text) ++ path.toRaw.shown
  | .notText error => error.message
  | .yaml .malformed =>
      ("Invalid YAML in languages config: " : Text) ++ Yaml.Fault.malformed.message
  | .yaml fault => fault.message
  | .notMapping kind =>
      ("Invalid languages config format: expected dict, got <class '" : Text) ++ kind.fullName ++
        ("'>" : Text)
  | .misuse m => m.message
  | .register error => error.message

namespace Registry

def givenPattern (v : Value) : Except Misuse (Option Regex.Source) :=
  if !v.isTruthy then .ok none
  else if !v.isHashable then .error (.unhashable v.kind)
  else
    match v with
    | .str s => .ok (some (.text s))
    | .bytes b => .ok (some (.bytes b))
    | _ => .error .notPattern

def givenExtensions (v : Value) : Except Misuse (List Text) := do
  (← v.elements).mapM Value.shownText

def addEntry (known : Regex.CharacterNames) (r : Registry) (name : Text)
    (entry : List (Value × Value)) : Except TableError Registry := do
  let field (key : String) : Value := (Value.field? key entry).getD .null
  let extensions ← (givenExtensions (field "extensions")).mapError TableError.misuse
  let register (dependencies declarations : Option Regex.Source) : Except TableError Registry :=
    match r.register name extensions dependencies declarations known with
    | (r, none) => .ok r
    | (_, some e) => .error (.register e)
  let dependencies ← (givenPattern (field "dependencies")).mapError TableError.misuse
  match givenPattern (field "structure") with
  | .ok declarations => register dependencies declarations
  -- The texts in front are registered first, and may be refused.
  | .error m => do
      let _ ← register dependencies none
      throw (.misuse m)

def ofTable (known : Regex.CharacterNames) : Value → Except TableError Registry
  | .null => .ok .empty
  | .map entries =>
      entries.foldlM
        (fun r e => do
          let name ← e.1.shownText.mapError TableError.misuse
          match Language.ofName name, e.2 with
          | .unknown, _ => return r
          | _, .map entry => r.addEntry known name entry
          | _, _ => return r)
        .empty
  | v => .error (.notMapping v.kind)

def ofYaml (known : Regex.CharacterNames) (s : Text) : Except TableError Registry := do
  ofTable known (← (Yaml.read s).mapError .yaml)

def ofFile (path : Path) (content : Option Bytes)
    (known : Regex.CharacterNames := Regex.noNames) : Except TableError Registry := do
  match content with
  | none => throw (.missing path)
  | some bytes =>
      let s ← (Utf8.decode bytes).mapError TableError.notText
      ofYaml known (Text.universalNewlines s)

end Registry

end SourceScan
