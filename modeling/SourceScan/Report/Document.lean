import SourceScan.Json.Writer
import SourceScan.Path
import SourceScan.Report.Basic
import SourceScan.Text.Case
import SourceScan.Yaml.Writer

/-!
# The document of a report

A report is written as a document of texts, integers, lists and objects, in JSON or
in YAML.
-/

namespace SourceScan

inductive Document where
  | str (s : RawText)
  | int (i : Int)
  | list (items : List Document)
  | object (members : List (Text × Document))
  deriving Inhabited

namespace Document

mutual

def jsonLayout : Document → Except Value.TooLong (Json.Layout TextUnit)
  | .str s => .ok (.atom (Json.wideString s))
  | .int i => do return .atom (RawText.ofText (← Value.intText i))
  | .list items => do return .array (← jsonItems items)
  | .object members => do return .object (← jsonMembers members)

def jsonItems : List Document → Except Value.TooLong (List (Json.Layout TextUnit))
  | [] => .ok []
  | d :: ds => do
      let l ← jsonLayout d
      return l :: (← jsonItems ds)

def jsonMembers :
    List (Text × Document) → Except Value.TooLong (List (RawText × Json.Layout TextUnit))
  | [] => .ok []
  | (key, d) :: ds => do
      let l ← jsonLayout d
      return (Json.wideString (RawText.ofText key), l) :: (← jsonMembers ds)

end

mutual

def yamlForm : Document → Except Value.TooLong Yaml.Form
  | .str s => .ok (.scalar .str s)
  | .int i => do return .scalar .int (RawText.ofText (← Value.intText i))
  | .list items => do return .seq .seq (← yamlItems items)
  | .object members => do return .map .map (← yamlMembers members)

def yamlItems : List Document → Except Value.TooLong (List Yaml.Form)
  | [] => .ok []
  | d :: ds => do
      let f ← yamlForm d
      return f :: (← yamlItems ds)

def yamlMembers : List (Text × Document) → Except Value.TooLong (List (Yaml.Form × Yaml.Form))
  | [] => .ok []
  | (key, d) :: ds => do
      let f ← yamlForm d
      return (.str key, f) :: (← yamlMembers ds)

end

def toJson (d : Document) : Except Value.TooLong RawText := do
  return (← d.jsonLayout).pretty .char 0 ++ [.char '\n']

def toYaml (d : Document) : Except Value.TooLong RawText := do
  return RawText.ofText ((← d.yamlForm).write true)

def text (s : Text) : Document := .str (RawText.ofText s)

def texts (l : List Text) : Document := .list (l.map text)

end Document

namespace Report

def entryDocument : Entry → Document
  | .record r =>
      .object
        [("path", .str r.path), ("type", .text r.type), ("size", .int r.size),
         ("dependencies", .texts r.dependencies), ("structure", .texts r.declarations)]
  | .warning s => .object [("warning", .text s)]

def document (r : Report) (scannedAt : Text) : Document :=
  .object
    [("projectStructure", .object
      [("files", .list (r.files.map entryDocument)),
       ("summary", .object
         [("fileCount", .int r.fileCount), ("scannedAt", .text scannedAt),
          ("excludedPatterns", .texts r.excludedPatterns)])])]

inductive Format where
  | json
  | yaml
  deriving DecidableEq, Repr

def Format.ofName? (s : Text) : Option Format :=
  if s = ("json" : Text) then some .json
  else if s = ("yaml" : Text) then some .yaml
  else none

def Format.ofPath (p : Path) : Format :=
  let ending := Text.lower p.suffix.shown
  if ending = (".yaml" : Text) || ending = (".yml" : Text) then .yaml else .json

inductive SerializeError where
  /-- The time of the scan has no date in universal time. -/
  | timeOutOfRange
  | tooLong
  | unsupported (format : Text)
  deriving DecidableEq, Repr

def SerializeError.message : SerializeError → Text
  | .timeOutOfRange => "date value out of range"
  | .tooLong => Value.TooLong.message
  | .unsupported format => ("Unsupported output format: " : Text) ++ format

def serialize (r : Report) (format : Format) : Except SerializeError RawText :=
  match r.scannedAt.stamp? with
  | none => .error .timeOutOfRange
  | some stamp =>
      let d := r.document stamp
      (match format with
        | .json => d.toJson
        | .yaml => d.toYaml).mapError fun _ => .tooLong

def serializeAs (r : Report) (format : Text) : Except SerializeError RawText :=
  match Format.ofName? format, r.scannedAt.stamp? with
  | some format, _ => r.serialize format
  | none, none => .error .timeOutOfRange
  | none, some _ => .error (.unsupported format)

end Report

end SourceScan
