import SourceScan.Disk.Basic
import SourceScan.Json.Reader
import SourceScan.Settings.Environment
import SourceScan.Yaml.Values

/-!
# Loading settings

Settings are read from a file in YAML or JSON. Fields that the file leaves out keep
their standard values, fields that no section has are refused, and sections that no
settings have are passed over. Variables of the environment come last.
-/

namespace SourceScan

inductive SectionError where
  | notMapping (type : Text) (kind : Kind)
  | keyNotText
  | unknownKey (type : Text) (key : Text)
  deriving DecidableEq, Repr

def SectionError.message : SectionError → Text
  | .notMapping type kind =>
      ("pcs.core.config." : Text) ++ type ++
        ("() argument after ** must be a mapping, not " : Text) ++
        kind.fullName
  | .keyNotText => "keywords must be strings"
  | .unknownKey type key =>
      type ++ (".__init__() got an unexpected keyword argument '" : Text) ++ key ++ ['\'']

inductive LoadError where
  | missing (path : Path)
  | disk (cause : DiskError)
  | notText (cause : Utf8.DecodeError)
  | unsupported (ending : Text)
  | yaml (path : Path) (fault : Yaml.Fault)
  | json (path : Path) (cause : Json.Error)
  | tooManyDigits (count : Nat)
  | notMapping (path : Path)
  | section (cause : SectionError)
  deriving DecidableEq, Repr

namespace LoadError

def invalid (path : Path) (why : Text) : Text :=
  ("Invalid configuration file " : Text) ++ path.toRaw.shown ++ (": " : Text) ++ why

def message : LoadError → Text
  | .missing path => ("Configuration file not found: " : Text) ++ path.toRaw.shown
  | .disk cause => cause.message
  | .notText cause => cause.message
  | .unsupported ending => ("Unsupported config file format: " : Text) ++ ending
  | .yaml path .malformed => invalid path Yaml.Fault.malformed.message
  | .yaml _ fault => fault.message
  | .json path cause => invalid path cause.message
  | .tooManyDigits count => Numeral.tooManyDigitsMessage count
  | .notMapping path => invalid path ("expected a mapping" : Text)
  | .section cause => ("Unknown configuration key: " : Text) ++ cause.message

def isExpected : LoadError → Bool
  | .disk cause => cause.fault = .noEntry
  | .yaml _ fault => fault.isExpected
  | _ => true

end LoadError

namespace Field

/-- Sets the fields of a section that a value lists. `type` names the kind of section in errors. -/
def fill {α : Type} (fields : List (Field α)) (type : Text) (standard : α) (v : Value) :
    Except SectionError α :=
  match v with
  | .map entries => do
      let named ← entries.mapM fun (k, v) =>
        match k with
        | .str name => Except.ok (name, v)
        | _ => Except.error SectionError.keyNotText
      named.foldlM
        (fun s (name, v) =>
          match find? fields name with
          | some f => .ok (f.set v s)
          | none => .error (.unknownKey type name))
        standard
  | v => .error (.notMapping type v.kind)

end Field

namespace Settings

def ofEntries (entries : List (Value × Value)) : Except SectionError Settings := do
  let scanner ←
    match Value.field? "scanner" entries with
    | some v => Field.fill ScannerSettings.fields "ScannerConfig" .standard v
    | none => .ok .standard
  let watch ←
    match Value.field? "watch" entries with
    | some v => Field.fill WatchSettings.fields "WatchConfig" .standard v
    | none => .ok .standard
  let logging ←
    match Value.field? "logging" entries with
    | some v => Field.fill LogSettings.fields "LoggingConfig" .standard v
    | none => .ok .standard
  return ⟨scanner, watch, logging⟩

inductive FileForm where
  | yaml
  | json
  deriving DecidableEq, Repr

def FileForm.ofPath? (p : Path) : Option FileForm :=
  let ending := p.suffix
  if ending = RawText.ofText (".yaml" : Text) || ending = RawText.ofText (".yml" : Text) then
    some .yaml
  else if ending = RawText.ofText (".json" : Text) then some .json
  else none

def parse (path : Path) (form : FileForm) (s : Text) : Except LoadError Value :=
  match form with
  | .yaml =>
      match Yaml.read s with
      | .ok v => .ok (if v.isTruthy then v else .map [])
      | .error fault => .error (.yaml path fault)
  | .json =>
      if (Text.strip s).isEmpty then .ok (.map [])
      else
        match Json.read s with
        | .ok v => .ok v
        | .error (.notJson cause) => .error (.json path cause)
        | .error (.tooManyDigits count) => .error (.tooManyDigits count)

def ofFile (d : Disk) (path : Path) : Except LoadError Settings := do
  if !(← (d.exists? path).mapError LoadError.disk) then throw (.missing path)
  let bytes ← (d.readFile path).mapError LoadError.disk
  let s ← (Utf8.decode bytes).mapError LoadError.notText
  match FileForm.ofPath? path with
  | none => throw (.unsupported path.suffix.shown)
  | some form =>
      match ← parse path form (Text.universalNewlines s) with
      | .map entries => (ofEntries entries).mapError LoadError.section
      | _ => throw (.notMapping path)

def projectFile : Text := ".pcs.yaml"

/-- The file to load: the one that is given, or else the one of the project if it is there. -/
def fileToLoad (d : Disk) (given project : Option Path) : Except DiskError (Option Path) := do
  match given, project with
  | some path, _ => return some path
  | none, none => return none
  | none, some root =>
      let path := root.child (RawText.ofText projectFile)
      if ← d.isFile path then return some path else return none

def load (d : Disk) (env : Environment) (given project : Option Path) :
    Except LoadError Settings := do
  match ← (fileToLoad d given project).mapError LoadError.disk with
  | some path => return env.apply (← ofFile d path)
  | none => return env.apply .standard

end Settings

end SourceScan
