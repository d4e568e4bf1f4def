import SourceScan.Proofs.Rule.Spelling
import SourceScan.Proofs.Steps
import SourceScan.Watch.Watcher

/-!
# Which events a watcher passes on

A watcher passes on the events of files that it sees, one for each and in their order.  A move it
passes on if it sees one of the two ends.  The former path is left out if it is not seen, while the
new one is always named, so that a move out of sight tells where the file has gone.
-/

namespace SourceScan

def RawEvent.ends (e : RawEvent) : List Path :=
  match e.kind with
  | .moved => [e.source, e.destination]
  | _ => [e.source]

def RawEvent.file (e : RawEvent) : Path :=
  match e.kind with
  | .moved => e.destination
  | _ => e.source

def FileEvent.paths (e : FileEvent) : List Path := e.file :: e.old.toList

namespace EventFilter

variable {f : EventFilter} {p : Path} {e : RawEvent}

def Sees (f : EventFilter) (p : Path) : Prop :=
  ∃ names, names ≠ [] ∧ p = ⟨f.root.slashes, f.root.names ++ names⟩ ∧
    f.matcher.excludes (Path.spelled names) (f.rules.map (·.pattern)) false = false

theorem sees_iff : f.Sees p ↔ f.ignores p = false := by
  unfold Sees ignores
  simp only [← Path.relativeTo?_eq_some]
  cases hnames : p.relativeTo? f.root with
  | none => simp
  | some names =>
      cases names with
      | nil => simp
      | cons name names => simp [Path.spelled]

instance (f : EventFilter) (p : Path) : Decidable (f.Sees p) := decidable_of_iff _ sees_iff.symm

theorem ignores_iff : f.ignores p = true ↔ ¬f.Sees p := by
  rw [sees_iff, Bool.not_eq_false]

def Concerns (f : EventFilter) (e : RawEvent) : Prop := e.isDir = false ∧ ∃ p ∈ e.ends, f.Sees p

instance (f : EventFilter) (e : RawEvent) : Decidable (f.Concerns e) :=
  inferInstanceAs (Decidable (_ ∧ _))

def told (f : EventFilter) (e : RawEvent) : FileEvent where
  kind := e.kind
  file := e.file
  old := if e.kind = .moved ∧ f.Sees e.source then some e.source else none

def LosesSight (f : EventFilter) (e : RawEvent) : Prop :=
  e.kind = .moved ∧ ¬f.Sees e.destination

theorem emit?_eq (f : EventFilter) (e : RawEvent) :
    f.emit? e = if f.Concerns e then some (f.told e) else none := by
  obtain ⟨kind, isDir, source, destination⟩ := e
  cases isDir with
  | true => simp [emit?, Concerns]
  | false =>
      cases kind with
      | moved =>
          by_cases hsource : f.Sees source <;> by_cases hdestination : f.Sees destination <;>
            simp [emit?, Concerns, told, RawEvent.ends, RawEvent.file, hsource, hdestination,
              ignores_iff]
      | _ =>
          by_cases hsource : f.Sees source <;>
            simp [emit?, Concerns, told, RawEvent.ends, RawEvent.file, hsource, ignores_iff]

theorem emitAll_eq (f : EventFilter) (es : List RawEvent) :
    f.emitAll es = (es.filter fun e => f.Concerns e).map f.told := by
  unfold emitAll
  induction es with
  | nil => rfl
  | cons e es ih =>
      rw [List.filterMap_cons, emit?_eq, ih]
      by_cases hconcerns : f.Concerns e
      · rw [if_pos hconcerns, List.filter_cons_of_pos (by simpa using hconcerns), List.map_cons]
      · rw [if_neg hconcerns, List.filter_cons_of_neg (by simpa using hconcerns)]

theorem sees_old {old : Path} (h : (f.told e).old = some old) :
    f.Sees old ∧ e.kind = .moved ∧ old = e.source := by
  simp only [told, Option.ite_none_right_eq_some, Option.some.injEq] at h
  obtain ⟨⟨hmoved, hsees⟩, rfl⟩ := h
  exact ⟨hsees, hmoved, rfl⟩

theorem sees_paths_iff (h : f.Concerns e) :
    (∀ p ∈ (f.told e).paths, f.Sees p) ↔ ¬f.LosesSight e := by
  have hpaths : (∀ p ∈ (f.told e).paths, f.Sees p) ↔ f.Sees e.file := by
    refine ⟨fun hall => hall _ List.mem_cons_self, fun hfile p hp => ?_⟩
    rcases List.mem_cons.1 hp with rfl | hold
    · exact hfile
    · exact (sees_old (Option.mem_toList.1 hold)).1
  rw [hpaths]
  obtain ⟨-, p, hp, hsees⟩ := h
  unfold LosesSight RawEvent.file
  unfold RawEvent.ends at hp
  split at hp
  · next hkind => simp [hkind]
  · next hkind =>
      obtain rfl := List.mem_singleton.1 hp
      exact iff_of_true hsees fun hloses => hkind hloses.1

end EventFilter

namespace FileWatcher

variable {w w' : FileWatcher} {d : Disk} {p : Path} {listener : Listener}

/-- A watcher that was started tells its listener what the filter for the real path of its directory
passes on. -/
theorem deliver?_of_start (h : w.start d p listener = .ok w') : ∃ root, d.resolve p = .ok root ∧
    ∀ es : List RawEvent, es.filterMap w'.deliver? =
      (EventFilter.emitAll ⟨root, w.rules, w.matcher⟩ es).map (listener, ·) := by
  unfold start at h
  split at h
  · cases h
  obtain ⟨root, hroot, h⟩ := ok_of_bind h
  obtain ⟨there, -, h⟩ := ok_of_bind h
  split at h
  · cases h
  obtain ⟨isDir, -, h⟩ := ok_of_bind h
  split at h
  · cases h
  cases h
  refine ⟨root, ok_of_mapError hroot, fun es => ?_⟩
  rw [EventFilter.emitAll, List.map_filterMap]
  refine List.filterMap_congr fun e _ => ?_
  cases hemit : EventFilter.emit? ⟨root, w.rules, w.matcher⟩ e <;>
    simp [deliver?, hemit]

end FileWatcher

namespace EventFilter

def vendorFilter : EventFilter := ⟨⟨1, []⟩, [⟨"vendor/", .explicit⟩], .standard⟩

def departure : RawEvent where
  kind := .moved
  isDir := false
  source := ⟨1, ["a"]⟩
  destination := ⟨1, ["vendor", "a"]⟩

def emptyDisk : Disk := ⟨.dir [], [], [], []⟩

def vendorWatcher : FileWatcher := .make vendorFilter.rules .standard

def startedWatcher : FileWatcher :=
  { vendorWatcher with
    observer := some true
    listener := some .service
    filter := some vendorFilter
    calls := [.schedule vendorFilter.root, .start] }

end EventFilter

end SourceScan
