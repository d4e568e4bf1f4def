import SourceScan.Proofs.Disk.Recast
import SourceScan.Proofs.Disk.Replace

/-!
# Changes to a disk

A file is written under all its names, and these are the only places that are changed by it.
Neither writing nor moving a file makes or takes away a directory.
-/

namespace SourceScan

namespace FileTree

def filled (put : Option Bytes) (t : FileTree) : FileTree :=
  match put with
  | some content => t.recast fun _ _ => content
  | none => t

theorem filled_file (put : Option Bytes) (old : Bytes) :
    (FileTree.file old).filled put = .file (put.getD old) := by
  cases put <;> rfl

end FileTree

namespace Disk

open FileTree

variable {d done : Disk} {p q : Path} {content : Bytes} {place other parent : Place}
  {name : FileName} {children : List (FileName × FileTree)} {fault : DiskFault}

/-! ## The names of a file -/

theorem mem_aliases : other ∈ d.aliases place ↔
    other ≠ place ∧ ∃ group ∈ d.shared, place ∈ group ∧ other ∈ group := by
  simp only [aliases, List.mem_filter, List.mem_flatten, decide_eq_true_eq, and_comm, and_assoc,
    and_left_comm]

theorem aliases_symm : other ∈ d.aliases place ↔ place ∈ d.aliases other := by
  rw [mem_aliases, mem_aliases]
  constructor <;> rintro ⟨hne, group, hgroup, hplace, hother⟩ <;>
    exact ⟨hne.symm, group, hgroup, hother, hplace⟩

/-- A place that something was moved away from is no name of anything. -/
theorem aliases_move (d : Disk) (hne : place ≠ other) (t : FileTree) :
    (d.move place other t).aliases place = [] := by
  refine List.eq_nil_iff_forall_not_mem.2 fun last hlast => ?_
  obtain ⟨-, group, hgroup, hplace, -⟩ := mem_aliases.1 hlast
  obtain ⟨places, -, rfl⟩ := List.mem_map.1 hgroup
  obtain ⟨old, -, hold⟩ := List.mem_map.1 hplace
  split at hold
  · exact hne hold.symm
  · contradiction

def SameFile (d : Disk) (place other : Place) : Prop :=
  other = place ∨ other ∈ d.aliases place ∧ ∃ old, d.tree.at? other = some (.file old)

theorem sameFile_self (d : Disk) (place : Place) : d.SameFile place place := .inl rfl

theorem at?_fill (hdir : d.tree.at? parent = some (.dir children))
    (h : d.SameFile (parent ++ [name]) other)
    (hfile : ∀ t, d.tree.at? (parent ++ [name]) = some t → t.isDirectory = false) :
    (d.fill (parent ++ [name]) content).tree.at? other = some (.file content) := by
  have hput : AlikeBut (· = parent ++ [name]) d.tree
      (FileTree.put (.file content) (parent ++ [name]) d.tree) := alikeBut_put hdir hfile rfl
  change (FileTree.recast _ _).at? other = _
  rw [at?_recast]
  rcases h with rfl | ⟨hmem, old, hat⟩
  · rw [at?_put _ hdir]
    simp [FileTree.recast, refill, Recast.under]
  · rw [hput.file (mem_aliases.1 hmem).1 hat]
    simp [FileTree.recast, refill, Recast.under, hmem]

/-- What is shown of a place after bytes were put into the file at another one. -/
def shownWith (d : Disk) (place : Place) (put : Option Bytes) (other : Place) : Option FileTree :=
  ((d.tree.at? other).map face).map fun t =>
    if other ∈ d.aliases place then t.filled put else t

theorem shownWith_none (d : Disk) (place other : Place) :
    d.shownWith place none other = (d.tree.at? other).map face := by
  simp [shownWith, filled, Function.comp_def]

theorem shownWith_of_not_sameFile {put : Option Bytes} (h : ¬d.SameFile place other) :
    d.shownWith place put other = (d.tree.at? other).map face := by
  cases hat : d.tree.at? other with
  | none => simp [shownWith, hat]
  | some t =>
      by_cases hmem : other ∈ d.aliases place
      · -- Only a file could have been given other bytes.
        cases t with
        | file old => exact absurd (.inr ⟨hmem, old, hat⟩) h
        | _ => cases put <;> simp [shownWith, hat, hmem, filled, face, FileTree.recast, recastAll]
      · simp [shownWith, hat, hmem]

theorem shown_fill (hdir : d.tree.at? parent = some (.dir children))
    (hfile : ∀ t, d.tree.at? (parent ++ [name]) = some t → t.isDirectory = false)
    (hne : other ≠ parent ++ [name]) :
    ((d.fill (parent ++ [name]) content).tree.at? other).map face =
      d.shownWith (parent ++ [name]) (some content) other := by
  have hput : (d.tree.at? other).map face =
      ((FileTree.put (.file content) (parent ++ [name]) d.tree).at? other).map face :=
    (alikeBut_put hdir hfile rfl).same other hne
  change ((FileTree.recast _ _).at? other).map face = _
  rw [at?_recast, Option.map_map, shownWith, hput, Option.map_map]
  refine Option.map_congr fun t _ => ?_
  by_cases hmem : other ∈ d.aliases (parent ++ [name]) <;>
    cases t <;> simp [face, FileTree.recast, recastAll, filled, refill, Recast.under, hmem]

theorem alikeBut_fill (hdir : d.tree.at? parent = some (.dir children))
    (hfile : ∀ t, d.tree.at? (parent ++ [name]) = some t → t.isDirectory = false) :
    AlikeBut (d.SameFile (parent ++ [name])) d.tree (d.fill (parent ++ [name]) content).tree := by
  refine ⟨fun other hother => ?_, ?_, fun other t hother hat => ?_⟩
  · have hne : other ≠ parent ++ [name] := fun heq => hother (.inl heq)
    rw [shown_fill hdir hfile hne, shownWith_of_not_sameFile hother]
  · rintro other t (rfl | ⟨-, old, hold⟩) hat
    · exact hfile t hat
    · cases hold.symm.trans hat
      rfl
  · cases (at?_fill hdir hother hfile).symm.trans hat
    rfl

theorem fill_eq_of_unshared (h : d.aliases place = []) (content : Bytes) :
    d.fill place content = d.setTree (put (.file content) place d.tree) := by
  have hsame : d.refill place content = fun _ old => old := by
    funext other old
    simp [refill, h]
  rw [fill, hsame, recast_id]

theorem wellFormed_fill (hd : d.tree.wellFormed = true)
    (hdir : d.tree.at? parent = some (.dir children)) (hname : isEntryName name = true)
    (content : Bytes) : (d.fill (parent ++ [name]) content).tree.wellFormed = true := by
  change (FileTree.recast _ _).wellFormed = true
  rw [wellFormed_recast]
  exact wellFormed_put hd hdir hname rfl

/-! ## Writing a file -/

theorem heed_of_fault?_eq_none {α : Type} (h : p.fault? = none) (r : Except DiskFault α) :
    p.heed r = r := by
  rw [Path.heed, h]

theorem eq_of_fault?_eq_some (h : p.fault? = some fault) :
    fault = .nullByte ∨ fault = .nameTooLong := by
  unfold Path.fault? at h
  split at h
  · exact .inl (Option.some.inj h).symm
  · split at h
    · exact .inr (Option.some.inj h).symm
    · cases h

theorem hasNull_of_fault? (h : p.fault? = none) : p.hasNull = false := by
  cases hnull : p.hasNull with
  | false => rfl
  | true => simp [Path.fault?, hnull] at h

theorem null_not_mem_of_fault? (h : p.fault? = none) {name : FileName} (hname : name ∈ p.names) :
    Path.null ∉ name := by
  have hclean := List.any_eq_false.1 (hasNull_of_fault? h) name hname
  simpa using hclean

theorem unlink_of_fault (h : p.fault? = some fault) : d.unlink p = .error ⟨fault, p, none⟩ := by
  rw [Disk.unlink, Path.heed, h]
  rcases eq_of_fault?_eq_some h with rfl | rfl <;> rfl

theorem writeFile_of_fault (h : p.fault? = some fault) (content : Bytes) :
    d.writeFile p content = .error ⟨fault, p, none⟩ := by
  simp [Disk.writeFile, Disk.blame, Path.heed, h, Except.mapError, bind, Except.bind]

theorem writeFile_eq_ok_iff : d.writeFile p content = .ok done ↔ p.fault? = none ∧
    ∃ place found,
      d.tree.findFrom true linkLimit (d.startOf p) p.names = .ok (place, found) ∧
      (∀ t, found = some t → t.isDirectory = false) ∧
      (found = some .pipe ∧ d = done ∨ found ≠ some .pipe ∧ d.fill place content = done) := by
  cases hfault : p.fault? with
  | some fault => simp [writeFile_of_fault hfault]
  | none =>
  unfold Disk.writeFile Disk.blame
  rw [heed_of_fault?_eq_none hfault]
  cases hfind : d.tree.findFrom true linkLimit (d.startOf p) p.names with
  | error e => simp [Except.mapError, bind, Except.bind]
  | ok r =>
      obtain ⟨place, found⟩ := r
      rcases found with _ | (_ | _ | _ | _) <;>
        simp [Except.mapError, bind, Except.bind, pure, Except.pure, throw, throwThe,
          MonadExceptOf.throw, isDirectory]

theorem writeFile_ok (h : d.writeFile p content = .ok done) :
    ∃ place found,
      d.tree.findFrom true linkLimit (d.startOf p) p.names = .ok (place, found) ∧
      (∀ t, found = some t → t.isDirectory = false) ∧
      ((found = some .pipe ∧ done = d) ∨ done = d.fill place content) := by
  obtain ⟨-, place, found, hfind, hfile, hdone⟩ := writeFile_eq_ok_iff.1 h
  exact ⟨place, found, hfind, hfile, hdone.imp (fun h => ⟨h.1, h.2.symm⟩) fun h => h.2.symm⟩

def receives (d : Disk) (p : Path) : Bool :=
  p.fault?.isNone &&
    match d.tree.findFrom true linkLimit (d.startOf p) p.names with
    | .ok (_, some (.dir _)) => false
    | .ok (_, some .pipe) => false
    | .ok _ => true
    | .error _ => false

def putIn? (d : Disk) (p : Path) (content : Bytes) : Option Bytes :=
  if d.receives p then some content else none

theorem receives_iff : d.receives p = true ↔ p.fault? = none ∧ ∃ place found,
    d.tree.findFrom true linkLimit (d.startOf p) p.names = .ok (place, found) ∧
      (∀ t, found = some t → t.isDirectory = false) ∧ found ≠ some .pipe := by
  unfold receives
  cases hfind : d.tree.findFrom true linkLimit (d.startOf p) p.names with
  | error e => simp
  | ok r =>
      obtain ⟨place, found⟩ := r
      rcases found with _ | (_ | _ | _ | _) <;> simp [isDirectory]

theorem putIn?_of_writeFile_error {cause : DiskError} (h : d.writeFile p content = .error cause) :
    d.putIn? p content = none := by
  refine if_neg fun hreceives => ?_
  obtain ⟨hfault, place, found, hfind, hfile, hpipe⟩ := receives_iff.1 hreceives
  cases (writeFile_eq_ok_iff.2 ⟨hfault, place, found, hfind, hfile, .inr ⟨hpipe, rfl⟩⟩).symm.trans h

theorem putIn?_of_found {found : Option FileTree} (hfault : p.fault? = none)
    (hfind : d.tree.findFrom true linkLimit (d.startOf p) p.names = .ok (place, found))
    (hfile : ∀ t, found = some t → t.isDirectory = false) (hpipe : found ≠ some .pipe) :
    d.putIn? p content = some content :=
  if_pos (receives_iff.2 ⟨hfault, place, found, hfind, hfile, hpipe⟩)

theorem putIn?_of_pipe
    (hfind : d.tree.findFrom true linkLimit (d.startOf p) p.names = .ok (place, some .pipe)) :
    d.putIn? p content = none := by
  simp [putIn?, receives, hfind]

theorem fault?_of_writeFile (h : d.writeFile p content = .ok done) : p.fault? = none :=
  (writeFile_eq_ok_iff.1 h).1

theorem shared_of_writeFile (h : d.writeFile p content = .ok done) : done.shared = d.shared := by
  obtain ⟨place, found, -, -, ⟨-, rfl⟩ | rfl⟩ := writeFile_ok h
  · rfl
  · rfl

theorem directory_writeFile (h : d.writeFile p content = .ok done)
    (hdir : d.tree.at? place = some (.dir children)) :
    ∃ children', done.tree.at? place = some (.dir children') := by
  obtain ⟨made, found, hfind, hfile, ⟨-, rfl⟩ | rfl⟩ := writeFile_ok h
  · exact ⟨children, hdir⟩
  · obtain ⟨entries, hentries⟩ := directory_put (.file content)
      (fun u hu => hfile u (by rw [← at?_of_findFrom hfind, hu])) hdir
    refine ⟨recastAll ((d.refill made content).under place) entries, ?_⟩
    change (FileTree.recast _ _).at? place = _
    rw [at?_recast, hentries]
    rfl

/-! ## Moving a file -/

theorem rename_eq_ok_iff : d.rename p q = .ok done ↔ (p.fault? = none ∧ q.fault? = none) ∧
    ∃ source moved goal found,
      d.tree.find false (d.startOf p) p.names = .ok (source, moved) ∧
      d.tree.findFrom false linkLimit (d.startOf q) q.names = .ok (goal, found) ∧
      (hasOwnName p = true ∧ hasOwnName q = true) ∧
      (∀ t, found = some t → t.isDirectory = false) ∧
      (if source = goal ∨ goal ∈ d.aliases source then d else d.move source goal moved) = done := by
  unfold Disk.rename
  cases hnull : q.hasNull with
  | true => simp [Path.fault?, hnull, throw, throwThe, MonadExceptOf.throw, bind, Except.bind]
  | false =>
  cases hfault : p.fault?.or q.fault? with
  | some fault =>
      have : ¬ (p.fault? = none ∧ q.fault? = none) := by
        rw [← Option.or_eq_none_iff, hfault]
        simp
      simp [this, throw, throwThe, MonadExceptOf.throw, bind, Except.bind]
  | none =>
  rw [Option.or_eq_none_iff] at hfault
  cases hsource : d.tree.find false (d.startOf p) p.names with
  | error e => simp [Except.mapError, bind, Except.bind]
  | ok r =>
  obtain ⟨source, moved⟩ := r
  cases hgoal : d.tree.findFrom false linkLimit (d.startOf q) q.names with
  | error e => simp [Except.mapError, bind, Except.bind]
  | ok r =>
  obtain ⟨goal, found⟩ := r
  by_cases hown : hasOwnName p = true ∧ hasOwnName q = true
  · by_cases hsame : source = goal ∨ goal ∈ d.aliases source <;>
      rcases found with _ | (_ | _ | _ | _) <;>
      simp [Except.mapError, bind, Except.bind, pure, Except.pure, throw, throwThe,
        MonadExceptOf.throw, isDirectory, hfault, hown, hsame]
  · have hnot : (!hasOwnName p || !hasOwnName q) = true := by
      rcases not_and_or.1 hown with hown | hown <;> simp [hown]
    simp [Except.mapError, bind, Except.bind, throw, throwThe, MonadExceptOf.throw, hown, hnot]

theorem rename_ok (h : d.rename p q = .ok done) :
    ∃ source moved goal found,
      d.tree.find false (d.startOf p) p.names = .ok (source, moved) ∧
      d.tree.findFrom false linkLimit (d.startOf q) q.names = .ok (goal, found) ∧
      hasOwnName q = true ∧ (∀ t, found = some t → t.isDirectory = false) := by
  obtain ⟨-, source, moved, goal, found, hsource, hgoal, hown, hfile, -⟩ := rename_eq_ok_iff.1 h
  exact ⟨source, moved, goal, found, hsource, hgoal, hown.2, hfile⟩

end Disk

end SourceScan
