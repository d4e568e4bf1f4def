import Std.Time.DateTime.Timestamp
import SourceScan.Command.Run

/-!
# The command line

The program works on the files that are named on its standard input, one path on a
line. It reads them, runs the command, writes what the command wrote, and prints the
lines of the command.
-/

namespace SourceScan.Shell

def pathFrom (here : Path) (s : String) : Path := here.join (.ofText s.toList)

def textOfPath (p : Path) : String := String.ofList p.toRaw.shown

def loadFile (d : Disk) (p : Path) : IO Disk := do
  try
    let bytes ← IO.FS.readBinFile (textOfPath p)
    return d.setTree (FileTree.put (.file bytes.toList) p.names d.tree)
  catch _ => return d

partial def loadFiles (here : Path) (input : IO.FS.Stream) (d : Disk) : IO Disk := do
  let line ← input.getLine
  if line.isEmpty then return d
  let name := String.ofList (line.toList.filter fun c => c ≠ '\n' && c ≠ '\r')
  loadFiles here input (← if name.isEmpty then pure d else loadFile d (pathFrom here name))

def newFiles (old new : Disk) : List (Place × Bytes) :=
  new.tree.contents.filterMap fun (place, t) =>
    match t, old.tree.at? place with
    | .file bytes, some (.file before) => if bytes = before then none else some (place, bytes)
    | .file bytes, _ => some (place, bytes)
    | _, _ => none

def loadEnvironment : IO Environment := do
  Environment.known.filterMapM fun x => do
    return (← IO.getEnv (String.ofList x.name)).map fun s => (x.name, s.toList)

/-- The time that is written into reports. No time passes in a scan. -/
def loadMoment : IO Moment := do
  let now ← Std.Time.Timestamp.now
  return ⟨fun _ => .zero, .ofUnix (now.toNanosecondsSinceUnixEpoch.val / 1000).toNat⟩

def usage : String :=
  "usage: scan [options] [directory] | watch [options] [directory] | config [options]"

end SourceScan.Shell

open SourceScan SourceScan.Shell

def main (args : List String) : IO UInt32 := do
  let here : Path := .ofText (toString (← IO.FS.realPath ".")).toList
  let empty : Disk := ⟨FileTree.put (.dir []) here.names (.dir []), here.names, [], []⟩
  let disk ← loadFiles here (← IO.getStdin) empty
  let r := runProgram (args.map String.toList) (← loadEnvironment) (← loadMoment) disk
  for (place, bytes) in newFiles disk r.disk do
    IO.FS.writeBinFile (textOfPath (Disk.absolute place)) ⟨bytes.toArray⟩
  match r.lines with
  | some lines => for line in lines do IO.println (String.ofList line)
  | none => IO.eprintln usage
  if let some cause := r.crash then IO.eprintln (String.ofList cause.message)
  return r.exitCode.toUInt32
