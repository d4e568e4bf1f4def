import SourceScan.Scan.Error

/-!
# The artifact of a scan

A report is written to a file beside its target first, which then takes the place
of the target. If that fails the file beside the target is removed again.
-/

namespace SourceScan

def Path.staging? (target : Path) : Option Path :=
  target.withName? (Path.dot :: target.name ++ RawText.ofText (".tmp" : Text))

namespace Report

def payload (r : Report) (target : Path) : Except ScanError Bytes :=
  match r.serialize (Format.ofPath target) with
  | .error .timeOutOfRange => .error .timeOutOfRange
  | .error _ => .error (.notSerialized .tooLong)
  | .ok s => (Utf8.encodeStrict s).mapError fun e => .notSerialized (.notText e)

def cleanUp (d : Disk) (staging target : Path) (cause : DiskError) : Disk × Except ScanError Unit :=
  -- Nothing is done about a path that the system was not even asked for.
  if cause.fault.number?.isNone then (d, .error (.disk cause))
  else
    match d.unlink staging with
    | .ok d => (d, .error (.notWritten target cause))
    -- Why the report could not be written is not said then.
    | .error e => (d, .error (.disk e))

def write (r : Report) (target : Path) (d : Disk) : Disk × Except ScanError Unit :=
  match r.payload target with
  | .error e => (d, .error e)
  | .ok bytes =>
      match target.staging? with
      | none => (d, .error (.nameless target))
      | some staging =>
          match d.writeFile staging bytes with
          | .error e => cleanUp d staging target e
          | .ok written =>
              match written.rename staging target with
              | .error e => cleanUp written staging target e
              | .ok done => (done, .ok ())

end Report

end SourceScan
