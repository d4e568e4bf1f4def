import SourceScan.Path
import SourceScan.Rule.Basic
import SourceScan.Rule.Match

/-!
# File events

The file system reports what happens to files and directories as raw events. A
filter passes on those that concern a file below its root that no rule excludes.
A move has two ends, of which one has to count.
-/

namespace SourceScan

inductive FileEventKind where
  | created
  | modified
  | deleted
  | moved
  deriving DecidableEq, Repr

namespace FileEventKind

def name : FileEventKind → Text
  | .created => "created"
  | .modified => "modified"
  | .deleted => "deleted"
  | .moved => "moved"

def all : List FileEventKind := [.created, .modified, .deleted, .moved]

def ofName? (s : Text) : Option FileEventKind := all.find? (·.name = s)

@[simp] theorem ofName?_name (k : FileEventKind) : ofName? k.name = some k := by
  cases k <;> rfl

end FileEventKind

structure FileEvent where
  kind : FileEventKind
  file : Path
  /-- Where the file was before it was moved. -/
  old : Option Path
  deriving DecidableEq, Repr

def FileEvent.relativePath (e : FileEvent) (root : Path) : Option RawText :=
  (e.file.relativeTo? root).map fun names => (Path.mk 0 names).toRaw

structure RawEvent where
  kind : FileEventKind
  isDir : Bool
  source : Path
  /-- The new path, if the event is a move. -/
  destination : Path
  deriving DecidableEq, Repr

structure EventFilter where
  root : Path
  rules : List Rule
  matcher : Matcher

namespace EventFilter

def ignores (f : EventFilter) (p : Path) : Bool :=
  match p.relativeTo? f.root with
  | none | some [] => true
  | some names =>
      f.matcher.excludes (Path.mk 0 names).toRaw.shown (f.rules.map (·.pattern)) false

def emit? (f : EventFilter) (e : RawEvent) : Option FileEvent :=
  if e.isDir then none
  else
    match e.kind with
    | .moved =>
        if f.ignores e.source && f.ignores e.destination then none
        else some ⟨.moved, e.destination, if f.ignores e.source then none else some e.source⟩
    | kind => if f.ignores e.source then none else some ⟨kind, e.source, none⟩

def emitAll (f : EventFilter) (es : List RawEvent) : List FileEvent := es.filterMap f.emit?

end EventFilter

end SourceScan
