import SourceScan.Number.Numeral
import SourceScan.Path

/-!
# Arguments of the command line

The first argument names a command, and the others are its options and the directory
to work on. An option has a long name or a short one of a single letter; its value
is the next argument, or follows in the same one. Short options may be put together.
After a double dash there are no more options.
-/

namespace SourceScan

structure ScanOptions where
  path : Path
  output : Option Path
  settingsFile : Option Path
  maxFiles : Option Int
  maxFileSize : Option Int
  useGitignore : Option Bool
  quiet : Bool
  deriving DecidableEq, Repr

structure WatchOptions where
  path : Path
  settingsFile : Option Path
  debounceMs : Option Int
  deriving DecidableEq, Repr

structure ConfigOptions where
  settingsFile : Option Path
  deriving DecidableEq, Repr

inductive Request where
  | scan (options : ScanOptions)
  | watch (options : WatchOptions)
  | config (options : ConfigOptions)
  deriving DecidableEq, Repr

inductive NoRequest where
  | help
  | misused
  deriving DecidableEq, Repr

namespace Arguments

structure Switch where
  /-- The name under which its value is kept. -/
  key : Text
  names : List Text
  letter : Option Char
  /-- The value of a switch that takes none from the arguments. -/
  fixed : Option Text

def Switch.hasName (name : Text) (s : Switch) : Bool := s.names.any (· = name)

def valued (key name : Text) (letter : Option Char) : Switch := ⟨key, [name], letter, none⟩

def on : Text := "on"

def off : Text := "off"

def help : Switch := ⟨"help", ["--help"], none, some on⟩

def settingsFile : Switch := valued "config" "--config" (some 'c')

def scanSwitches : List Switch :=
  [valued "output" "--output" (some 'o'), settingsFile, valued "max-files" "--max-files" none,
   valued "max-file-size" "--max-file-size" none, ⟨"gitignore", ["--gitignore"], none, some on⟩,
   ⟨"gitignore", ["--no-gitignore"], none, some off⟩, ⟨"quiet", ["--quiet"], some 'q', some on⟩,
    help]

def watchSwitches : List Switch := [settingsFile, valued "debounce-ms" "--debounce-ms" none, help]

def configSwitches : List Switch := [settingsFile, help]

/-- What one argument of options says: values, and the key whose value is the next argument. -/
structure Said where
  values : List (Text × Text)
  awaits : Option Text

def readLetters (switches : List Switch) : Text → Option Said
  | [] => some ⟨[], none⟩
  | c :: s =>
      match switches.find? (·.letter = some c) with
      | none => none
      | some ⟨key, _, _, some value⟩ =>
          (readLetters switches s).map fun said =>
            { said with values := (key, value) :: said.values }
      | some ⟨key, _, _, none⟩ =>
          if s.isEmpty then some ⟨[], some key⟩ else some ⟨[(key, s)], none⟩

def readOption (switches : List Switch) (arg : Text) : Option Said :=
  let name := arg.takeWhile (· ≠ '=')
  let attached := (arg.dropWhile (· ≠ '=')).tail?
  match switches.find? (·.hasName name), attached with
  | some ⟨key, _, _, none⟩, some value => some ⟨[(key, value)], none⟩
  | some ⟨key, _, _, none⟩, none => some ⟨[], some key⟩
  | some ⟨_, _, _, some _⟩, some _ => none
  | some ⟨key, _, _, some value⟩, none => some ⟨[(key, value)], none⟩
  | none, _ =>
      if arg.take 2 = ("--" : Text) then none else readLetters switches arg.tail

def isOption (arg : Text) : Bool := arg.head? = some '-' && 1 < arg.length

structure Sorted where
  /-- The values of options; of several the first one here is the last that was given. -/
  values : List (Text × Text)
  others : List Text

def Sorted.value? (s : Sorted) (key : String) : Option Text :=
  (s.values.find? (·.1 = key.toList)).map (·.2)

def sort (switches : List Switch) (s : Sorted) : List Text → Option Sorted
  | [] => some s
  | arg :: args =>
      if arg = ("--" : Text) then some { s with others := s.others ++ args }
      else if isOption arg then
        match readOption switches arg, args with
        | none, _ => none
        | some ⟨values, none⟩, args =>
            sort switches { s with values := values.reverse ++ s.values } args
        | some ⟨_, some _⟩, [] => none
        | some ⟨values, some key⟩, value :: args =>
            sort switches { s with values := (key, value) :: values.reverse ++ s.values } args
      else sort switches { s with others := s.others ++ [arg] } args

def number? (s : Sorted) (key : String) : Except NoRequest (Option Int) :=
  match s.value? key with
  | none => .ok none
  | some text => ((Numeral.readInt text).mapError fun _ => NoRequest.misused).map some

def path? (s : Sorted) (key : String) : Option Path := (s.value? key).map Path.ofText

def directory (s : Sorted) : Except NoRequest Path :=
  match s.others with
  | [] => .ok (.ofText ("." : Text))
  | [path] => .ok (.ofText path)
  | _ => .error .misused

def request (command : Text) (s : Sorted) : Except NoRequest Request := do
  if (s.value? "help").isSome then throw .help
  if command = ("scan" : Text) then
    return .scan {
      path := ← directory s
      output := path? s "output"
      settingsFile := path? s "config"
      maxFiles := ← number? s "max-files"
      maxFileSize := ← number? s "max-file-size"
      useGitignore := (s.value? "gitignore").map (· = on)
      quiet := (s.value? "quiet").isSome }
  else if command = ("watch" : Text) then
    return .watch {
      path := ← directory s
      settingsFile := path? s "config"
      debounceMs := ← number? s "debounce-ms" }
  else if s.others.isEmpty then return .config ⟨path? s "config"⟩
  else throw .misused

def switchesOf? (command : Text) : Option (List Switch) :=
  if command = ("scan" : Text) then some scanSwitches
  else if command = ("watch" : Text) then some watchSwitches
  else if command = ("config" : Text) then some configSwitches
  else none

def readCommand : List Text → Except NoRequest Request
  | [] => .error .misused
  | command :: args =>
      match switchesOf? command with
      | none => .error .misused
      | some switches =>
          match sort switches ⟨[], []⟩ args with
          | none => .error .misused
          | some s => request command s

/-- Reads all arguments. The only option in front of the command asks for help. -/
def read (args : List Text) : Except NoRequest Request :=
  go false args
where
  go (asked : Bool) : List Text → Except NoRequest Request
    | [] => if asked then .error .help else .error .misused
    | arg :: args =>
        if arg = ("--help" : Text) then go true args
        else if arg = ("--" : Text) then if asked then .error .help else readCommand args
        else if isOption arg then .error .misused
        else if asked then .error .help
        else readCommand (arg :: args)

end Arguments

end SourceScan
