import SourceScan.Assoc
import SourceScan.Path
import SourceScan.Text.Utf8

/-!
# File trees

A directory holds files, further directories, symbolic links and named pipes. A
place in a tree is the list of names that leads there from the top, without links.
`find` looks up a path as a list of names in which links, single and double dots
and empty names may occur; it passes through no more than forty links. Owners,
permissions and times are left out.
-/

namespace SourceScan

inductive FileTree where
  | file (content : Bytes)
  | dir (children : List (FileName × FileTree))
  | link (target : RawText)
  | pipe
  deriving Inhabited

inductive DiskFault where
  | noEntry
  | inputOutput
  | noPermission
  | busy
  | fileExists
  | notDirectory
  | isDirectory
  | nameTooLong
  | tooManyLinks
  /-- A null byte in a path, which is refused before anything is looked up. -/
  | nullByte
  deriving DecidableEq, Repr

namespace DiskFault

def number? : DiskFault → Option Nat
  | .noEntry => some 2
  | .inputOutput => some 5
  | .noPermission => some 13
  | .busy => some 16
  | .fileExists => some 17
  | .notDirectory => some 20
  | .isDirectory => some 21
  | .nameTooLong => some 36
  | .tooManyLinks => some 40
  | .nullByte => none

def description : DiskFault → Text
  | .noEntry => "No such file or directory"
  | .inputOutput => "Input/output error"
  | .noPermission => "Permission denied"
  | .busy => "Device or resource busy"
  | .fileExists => "File exists"
  | .notDirectory => "Not a directory"
  | .isDirectory => "Is a directory"
  | .nameTooLong => "File name too long"
  | .tooManyLinks => "Too many levels of symbolic links"
  | .nullByte => "embedded null byte"

end DiskFault

abbrev Place := List FileName

instance : LawfulBEq Place := inferInstance

abbrev Recast := Place → Bytes → Bytes

def Recast.under (f : Recast) (place : Place) : Recast := fun rest => f (place ++ rest)

namespace FileTree

def child? (name : FileName) : FileTree → Option FileTree
  | .dir children => Assoc.get? name children
  | _ => none

def at? : Place → FileTree → Option FileTree
  | [], t => some t
  | name :: place, t => (t.child? name).bind (at? place)

/-- Puts a tree at a place; directories on the way that are missing are made. -/
def put (new : FileTree) : Place → FileTree → FileTree
  | [], _ => new
  | name :: place, .dir children =>
      .dir (Assoc.put name (put new place ((Assoc.get? name children).getD (.dir []))) children)
  | _ :: _, t => t

def erase : Place → FileTree → FileTree
  | [name], .dir children => .dir (Assoc.erase name children)
  | name :: place, .dir children =>
      match Assoc.get? name children with
      | some t => .dir (Assoc.put name (erase place t) children)
      | none => .dir children
  | _, t => t

mutual

def linkCount : FileTree → Nat
  | .link _ => 1
  | .dir children => linkCounts children
  | _ => 0

def linkCounts : List (FileName × FileTree) → Nat
  | [] => 0
  | (_, t) :: children => linkCount t + linkCounts children

end

mutual

def dirCount : FileTree → Nat
  | .dir children => dirCounts children + 1
  | _ => 0

def dirCounts : List (FileName × FileTree) → Nat
  | [] => 0
  | (_, t) :: children => dirCount t + dirCounts children

end

mutual

def contents : FileTree → List (Place × FileTree)
  | .dir children => contentsOf children
  | _ => []

def contentsOf : List (FileName × FileTree) → List (Place × FileTree)
  | [] => []
  | (name, t) :: children =>
      ([name], t) :: (contents t).map (fun (place, t) => (name :: place, t)) ++ contentsOf children

end

mutual

def recast (f : Recast) : FileTree → FileTree
  | .file content => .file (f [] content)
  | .dir children => .dir (recastAll f children)
  | .link target => .link target
  | .pipe => .pipe

def recastAll (f : Recast) : List (FileName × FileTree) → List (FileName × FileTree)
  | [] => []
  | (name, t) :: children => (name, recast (f.under [name]) t) :: recastAll f children

end

def nameLimit : Nat := 255

def linkLimit : Nat := 40

def staysHere (name : FileName) : Bool := name = [] || name = [Path.dot]

/-- Where a link at a place leads: the place to go on from, and the names to follow from there. -/
def linkStart (target : RawText) (dir : Place) : Place :=
  if target.head? = some Path.slash then [] else dir

def linkNames (target : RawText) : List FileName := Text.splitOn Path.slash target

/-- Follows names from a place. Returns the place reached with what is there; a last name may be
missing. A link at the end is followed if `follow` says so. -/
def findFrom (root : FileTree) (follow : Bool) (links : Nat) (place : Place) :
    List FileName → Except DiskFault (Place × Option FileTree)
  | [] => .ok (place, root.at? place)
  | name :: names =>
      match root.at? place with
      | none => .error .noEntry
      | some (.dir _) =>
          if staysHere name then findFrom root follow links place names
          else if name = Path.dotDot then findFrom root follow links place.dropLast names
          else if nameLimit < (Utf8.encodeLenient name).length then .error .nameTooLong
          else
            match root.at? (place ++ [name]) with
            | none => if names.isEmpty then .ok (place ++ [name], none) else .error .noEntry
            | some (.link target) =>
                if names.isEmpty && !follow then .ok (place ++ [name], some (.link target))
                else
                  match links with
                  | 0 => .error .tooManyLinks
                  | links + 1 =>
                      findFrom root follow links (linkStart target place)
                        (linkNames target ++ names)
            | some _ => findFrom root follow links (place ++ [name]) names
      | some _ => .error .notDirectory
termination_by names => (links, names.length)

def find (root : FileTree) (follow : Bool) (start : Place) (names : List FileName) :
    Except DiskFault (Place × FileTree) := do
  match ← findFrom root follow linkLimit start names with
  | (place, some t) => return (place, t)
  | (_, none) => throw .noEntry

end FileTree

end SourceScan
