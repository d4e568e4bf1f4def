import SourceScan.Disk.Resolve

/-!
# Disks

A disk is a file tree with a working directory. A file may have several names.
Reading a file or listing a directory may be refused for chosen paths. Every other
operation fails only for a reason that lies in the tree or in the path: a path with
a null byte in it is never looked up, and one of more bytes than `pathLimit` cannot be
asked for, written, moved or removed. The paths that a walk puts together below its
root are looked up whatever their length. Permissions are left out.
-/

namespace SourceScan

structure DiskError where
  fault : DiskFault
  path : Path
  /-- The second path of an operation on two paths. -/
  other : Option Path
  deriving DecidableEq, Repr

def DiskError.message (e : DiskError) : Text :=
  match e.fault.number? with
  | none => e.fault.description
  | some number =>
      ("[Errno " : Text) ++ Text.ofNat number ++ ("] " : Text) ++ e.fault.description ++
        (": " : Text) ++ e.path.toRaw.quoted ++
        (match e.other with
          | some p => (" -> " : Text) ++ p.toRaw.quoted
          | none => [])

structure LinkCircle where
  path : Path
  deriving DecidableEq, Repr

def LinkCircle.message (e : LinkCircle) : Text :=
  ("Symlink loop from " : Text) ++ e.path.toRaw.quoted

/-- Why a path has no real path. -/
inductive Unresolved where
  | circle (cause : LinkCircle)
  | disk (cause : DiskError)
  deriving DecidableEq, Repr

inductive Access where
  | read
  | list
  deriving DecidableEq, Repr

structure Refusal where
  access : Access
  path : Path
  fault : DiskFault
  deriving DecidableEq, Repr

structure Disk where
  tree : FileTree
  workingDirectory : Place
  refusals : List Refusal
  /-- The places of each file that has several names. -/
  shared : List (List Place)
  deriving Inhabited

def pathLimit : Nat := 4095

namespace Path

def hasNull (p : Path) : Bool := p.names.any (·.contains null)

def fault? (p : Path) : Option DiskFault :=
  if p.hasNull then some .nullByte
  else if pathLimit < (Utf8.encodeLenient p.toRaw).length then some .nameTooLong
  else none

/-- What a path is looked up for, unless something is wrong with the path itself. -/
def heed {α : Type} (p : Path) (r : Except DiskFault α) : Except DiskFault α :=
  match p.fault? with
  | some fault => .error fault
  | none => r

end Path

namespace Disk

def startOf (d : Disk) (p : Path) : Place := if p.isAbsolute then [] else d.workingDirectory

def absolute (place : Place) : Path := ⟨1, place⟩

def blame {α : Type} (p : Path) (r : Except DiskFault α) : Except DiskError α :=
  r.mapError fun fault => ⟨fault, p, none⟩

def refused? (d : Disk) (access : Access) (p : Path) : Option DiskFault :=
  (d.refusals.find? fun r => r.access = access && r.path = p).map (·.fault)

def stat (d : Disk) (p : Path) : Except DiskFault FileTree :=
  match d.tree.find true (d.startOf p) p.names with
  | .ok (_, t) => .ok t
  | .error fault => .error (if p.hasNull then .nullByte else fault)

/-- What a path leads to; nothing if it is missing or cannot be reached. A name that is too long is
an error. -/
def look (d : Disk) (p : Path) : Except DiskError (Option FileTree) :=
  match d.stat p with
  | .ok t => .ok (some t)
  | .error .nameTooLong => .error ⟨.nameTooLong, p, none⟩
  | .error _ => .ok none

def ask (d : Disk) (p : Path) : Except DiskError (Option FileTree) :=
  if p.fault? = some .nameTooLong then .error ⟨.nameTooLong, p, none⟩ else d.look p

def exists? (d : Disk) (p : Path) : Except DiskError Bool := return (← d.ask p).isSome

def isDir (d : Disk) (p : Path) : Except DiskError Bool := do
  match ← d.look p with
  | some (.dir _) => return true
  | _ => return false

def isFile (d : Disk) (p : Path) : Except DiskError Bool := do
  match ← d.ask p with
  | some (.file _) => return true
  | _ => return false

def isLink (d : Disk) (p : Path) : Bool :=
  match d.tree.find false (d.startOf p) p.names with
  | .ok (_, .link _) => true
  | _ => false

def resolve (d : Disk) (p : Path) : Except Unresolved Path :=
  match d.tree.followNames false d.tree.linkCount [] (d.startOf p) p.names with
  | .real place =>
      match d.stat p with
      | .error .nullByte => .error (.disk ⟨.nullByte, p, none⟩)
      | _ => .ok (absolute place)
  -- Nothing has to be there, so it does not come to this.
  | .missing => .ok (absolute (FileTree.withoutDots (d.startOf p ++ p.names)))
  | .circle left =>
      let q : Path := ⟨left.slashes, FileTree.withoutDots left.names⟩
      match d.stat q with
      | .error .tooManyLinks => .error (.circle ⟨q⟩)
      | .error .nullByte => .error (.disk ⟨.nullByte, q, none⟩)
      | _ => .ok q

def resolveStrict? (d : Disk) (p : Path) : Option Path :=
  match d.tree.followNames true d.tree.linkCount [] (d.startOf p) p.names with
  | .real place => some (absolute place)
  | _ => none

def readFile (d : Disk) (p : Path) : Except DiskError Bytes :=
  match d.refused? .read p with
  | some fault => .error ⟨fault, p, none⟩
  | none =>
      match d.stat p with
      | .ok (.file content) => .ok content
      | .ok (.dir _) => .error ⟨.isDirectory, p, none⟩
      -- A pipe that nobody writes to is empty.
      | .ok _ => .ok []
      | .error fault => .error ⟨fault, p, none⟩

def list (d : Disk) (p : Path) : Except DiskError (List FileName) :=
  match d.refused? .list p with
  | some fault => .error ⟨fault, p, none⟩
  | none =>
      match d.stat p with
      | .ok (.dir children) => .ok (children.map (·.1))
      | .ok _ => .error ⟨.notDirectory, p, none⟩
      | .error fault => .error ⟨fault, p, none⟩

/-! ## Changes -/

def setTree (d : Disk) (tree : FileTree) : Disk := { d with tree }

def setShared (d : Disk) (shared : List (List Place)) : Disk := { d with shared }

/-- The other places of what is at a place. -/
def aliases (d : Disk) (place : Place) : List Place :=
  (d.shared.filter (place ∈ ·)).flatten.filter (· ≠ place)

/-- New bytes for the file at a place under its other names. -/
def refill (d : Disk) (place : Place) (content : Bytes) : Recast :=
  fun other old => if other ∈ d.aliases place then content else old

def fill (d : Disk) (place : Place) (content : Bytes) : Disk :=
  d.setTree ((FileTree.put (.file content) place d.tree).recast (d.refill place content))

def without (d : Disk) (place : Place) : Disk :=
  (d.setTree (d.tree.erase place)).setShared
    (d.shared.map fun places => places.filter (· ≠ place))

def move (d : Disk) (source target : Place) (moved : FileTree) : Disk :=
  (d.setTree (FileTree.put moved target (d.tree.erase source))).setShared
    (d.shared.map fun places =>
      (places.filter (· ≠ target)).map fun place => if place = source then target else place)

def writeFile (d : Disk) (p : Path) (content : Bytes) : Except DiskError Disk := do
  match ← blame p (p.heed (d.tree.findFrom true FileTree.linkLimit (d.startOf p) p.names)) with
  | (_, some (.dir _)) => throw ⟨.isDirectory, p, none⟩
  -- A pipe takes in what is written.
  | (_, some .pipe) => return d
  | (place, _) => return d.fill place content

def hasOwnName (p : Path) : Bool := !p.name.isEmpty && p.name ≠ Path.dotDot

/-- Gives a file or link another path, in the place of a file or link that is there. If both are
names of one file nothing happens. -/
def rename (d : Disk) (p q : Path) : Except DiskError Disk := do
  let blame {α : Type} (r : Except DiskFault α) : Except DiskError α :=
    r.mapError fun fault => ⟨fault, p, some q⟩
  if q.hasNull then throw ⟨.nullByte, p, some q⟩
  if let some fault := p.fault?.or q.fault? then throw ⟨fault, p, some q⟩
  let (source, moved) ← blame (d.tree.find false (d.startOf p) p.names)
  let (target, there) ← blame (d.tree.findFrom false FileTree.linkLimit (d.startOf q) q.names)
  if !hasOwnName p || !hasOwnName q then throw ⟨.busy, p, some q⟩
  match there with
  | some (.dir _) => throw ⟨.isDirectory, p, some q⟩
  | _ =>
      if source = target || target ∈ d.aliases source then return d
      else return d.move source target moved

/-- Removes a file or link; one that is not there is removed already. -/
def unlink (d : Disk) (p : Path) : Except DiskError Disk :=
  match p.heed (d.tree.find false (d.startOf p) p.names) with
  | .ok (_, .dir _) => .error ⟨.isDirectory, p, none⟩
  | .ok (place, _) => .ok (d.without place)
  | .error .noEntry => .ok d
  | .error fault => .error ⟨fault, p, none⟩

def makeDir (d : Disk) (p : Path) : Except DiskError Disk := do
  match ← blame p (p.heed (d.tree.findFrom false FileTree.linkLimit (d.startOf p) p.names)) with
  | (_, some _) => throw ⟨.fileExists, p, none⟩
  | (place, none) => return d.setTree (FileTree.put (.dir []) place d.tree)

def makeDirs (d : Disk) (p : Path) : Except DiskError Disk := go p.names.length d p
where
  make (d : Disk) (p : Path) : Except DiskError Disk :=
    match d.makeDir p with
    | .ok d => .ok d
    | .error e =>
        if p.fault?.isNone && (d.isDir p).toOption = some true then .ok d else .error e
  go : Nat → Disk → Path → Except DiskError Disk
    | 0, d, p => make d p
    | n + 1, d, p =>
        match d.makeDir p with
        | .error ⟨.noEntry, _, _⟩ => do make (← go n d p.parent) p
        | _ => make d p

end Disk

end SourceScan
