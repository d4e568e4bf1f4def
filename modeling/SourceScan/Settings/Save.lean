import SourceScan.Json.Writer
import SourceScan.Settings.Load
import SourceScan.Yaml.Writer

/-!
# Saving settings
-/

namespace SourceScan

inductive SaveError where
  | unsupported (ending : Text)
  | json (cause : Json.WriteError)
  | tooLong
  | disk (cause : DiskError)
  deriving DecidableEq, Repr

def SaveError.message : SaveError → Text
  | .unsupported ending => ("Unsupported config file format: " : Text) ++ ending
  | .json cause => cause.message
  | .tooLong => Value.TooLong.message
  | .disk cause => cause.message

namespace Settings

def toYaml (s : Settings) : Except SaveError Text :=
  match Yaml.Form.ofValue s.toValue with
  | .ok form => .ok (form.write false)
  | .error _ => .error .tooLong

def toJson (s : Settings) : Except SaveError Text := (Json.write s.toValue).mapError .json

def save (s : Settings) (path : Path) (d : Disk) : Except SaveError Disk := do
  let text ←
    match FileForm.ofPath? path with
    | some .yaml => s.toYaml
    | some .json => s.toJson
    | none => throw (.unsupported path.suffix.shown)
  let d ← (d.makeDirs path.parent).mapError SaveError.disk
  (d.writeFile path (Utf8.encode text)).mapError SaveError.disk

end Settings

end SourceScan
