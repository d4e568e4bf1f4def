import SourceScan.Proofs.Disk.LinkFree
import SourceScan.Scan.Plan

/-!
# Disks that differ at hidden places

Twins are two disks without links that differ at hidden places only, and no directory
stands at a hidden place.  Every answer of a disk that does not look at a hidden place is
the same on both.
-/

namespace SourceScan

namespace FileTree

variable {hidden : Place → Prop} {t t' u : FileTree} {place : Place} {content : Bytes}
  {children : List (FileName × FileTree)}

def face : FileTree → FileTree
  | .dir _ => .dir []
  | t => t

theorem directory_of_at?_append {above below : Place}
    (h : t.at? (above ++ below) = some (.dir children)) :
    ∃ entries, t.at? above = some (.dir entries) := by
  rw [at?_append] at h
  obtain ⟨u, hu, hbelow⟩ := Option.bind_eq_some_iff.1 h
  cases u with
  | dir entries => exact ⟨entries, hu⟩
  | file content => cases below <;> cases hbelow
  | link target => cases below <;> cases hbelow
  | pipe => cases below <;> cases hbelow

structure AlikeBut (hidden : Place → Prop) (t t' : FileTree) : Prop where
  same : ∀ place, ¬hidden place → (t.at? place).map face = (t'.at? place).map face
  left : ∀ place u, hidden place → t.at? place = some u → u.isDirectory = false
  right : ∀ place u, hidden place → t'.at? place = some u → u.isDirectory = false

namespace AlikeBut

theorem symm (h : AlikeBut hidden t t') : AlikeBut hidden t' t :=
  ⟨fun place hplace => (h.same place hplace).symm, h.right, h.left⟩

theorem isSome (h : AlikeBut hidden t t') (hplace : ¬hidden place) :
    (t.at? place).isSome = (t'.at? place).isSome := by
  rw [← Option.isSome_map, h.same place hplace, Option.isSome_map]

theorem at?_of_face (h : AlikeBut hidden t t') (hplace : ¬hidden place)
    (hat : t.at? place = some u) : ∃ u', t'.at? place = some u' ∧ u'.face = u.face := by
  have hsame := h.same place hplace
  rw [hat] at hsame
  exact Option.map_eq_some_iff.1 hsame.symm

theorem file (h : AlikeBut hidden t t') (hplace : ¬hidden place)
    (hat : t.at? place = some (.file content)) : t'.at? place = some (.file content) := by
  obtain ⟨u, hu, hface⟩ := h.at?_of_face hplace hat
  cases u with
  | file other =>
      cases hface
      exact hu
  | dir children => cases hface
  | link target => cases hface
  | pipe => cases hface

theorem directory (h : AlikeBut hidden t t') (hat : t.at? place = some (.dir children)) :
    ∃ children', t'.at? place = some (.dir children') := by
  have hplace : ¬hidden place := fun hhidden => by
    cases h.left place _ hhidden hat
  obtain ⟨u, hu, hface⟩ := h.at?_of_face hplace hat
  cases u with
  | dir children' => exact ⟨children', hu⟩
  | file other => cases hface
  | link target => cases hface
  | pipe => cases hface

end AlikeBut

end FileTree

namespace Disk

open FileTree

variable {hidden : Place → Prop} {d d' : Disk} {p : Path} {place : Place} {name : FileName}
  {children : List (FileName × FileTree)}

structure Twins (hidden : Place → Prop) (d d' : Disk) : Prop where
  wellFormed : d.tree.wellFormed = true
  wellFormed' : d'.tree.wellFormed = true
  linkFree : d.tree.LinkFree
  linkFree' : d'.tree.LinkFree
  workingDirectory : d'.workingDirectory = d.workingDirectory
  refusals : d'.refusals = d.refusals
  alike : AlikeBut hidden d.tree d'.tree

namespace Twins

theorem symm (h : Twins hidden d d') : Twins hidden d' d :=
  ⟨h.wellFormed', h.wellFormed, h.linkFree', h.linkFree, h.workingDirectory.symm,
    h.refusals.symm, h.alike.symm⟩

theorem resolve (h : Twins hidden d d') (p : Path) : d'.resolve p = d.resolve p := by
  have hstart : d'.startOf p = d.startOf p := by
    unfold startOf
    rw [h.workingDirectory]
  rw [resolve_of_linkFree h.wellFormed h.linkFree, resolve_of_linkFree h.wellFormed' h.linkFree',
    hstart]

theorem refused? (h : Twins hidden d d') (access : Access) (p : Path) :
    d'.refused? access p = d.refused? access p := by
  unfold Disk.refused?
  rw [h.refusals]

theorem isFile_entry (h : Twins hidden d d') (hdir : d.tree.at? place = some (.dir children))
    (hname : isEntryName name = true) (hplace : ¬hidden (place ++ [name])) :
    d'.isFile (absolute (place ++ [name])) = d.isFile (absolute (place ++ [name])) := by
  obtain ⟨children', hdir'⟩ := h.alike.directory hdir
  have hsame := h.alike.same _ hplace
  by_cases hlong : (absolute (place ++ [name])).fault? = some .nameTooLong
  · simp only [Disk.isFile, ask, hlong, if_true]
  unfold Disk.isFile
  rw [ask_eq_look hlong, ask_eq_look hlong, look_entry h.wellFormed h.linkFree hdir hname,
    look_entry h.wellFormed' h.linkFree' hdir' hname]
  cases hat : d.tree.at? (place ++ [name]) with
  | none =>
      rw [hat] at hsame
      rw [Option.map_eq_none_iff.1 hsame.symm]
  | some u =>
      obtain ⟨u', hat', hface⟩ := h.alike.at?_of_face hplace hat
      rw [hat']
      cases u <;> cases u' <;> first | rfl | cases hface

theorem list_ok (h : Twins hidden d d') (hdir : d.tree.at? place = some (.dir children))
    {entries : List FileName} (hlist : d.list (absolute place) = .ok entries) :
    ∃ entries', d'.list (absolute place) = .ok entries' := by
  obtain ⟨children', hdir'⟩ := h.alike.directory hdir
  have hrefused : d'.refused? .list (absolute place) = none := by
    rw [h.refused?]
    unfold Disk.list at hlist
    split at hlist
    · cases hlist
    · assumption
  exact ⟨_, (reaches_absolute h.wellFormed' hdir' rfl).list hrefused⟩

theorem load_entry (h : Twins hidden d d') (hdir : d.tree.at? place = some (.dir children))
    (hname : isEntryName name = true) (hplace : ¬hidden (place ++ [name])) :
    IgnoreFile.load d' (absolute (place ++ [name])) =
      IgnoreFile.load d (absolute (place ++ [name])) := by
  have hfile := h.isFile_entry hdir hname hplace
  have hread : d.isFile (absolute (place ++ [name])) = .ok true →
      d'.readFile (absolute (place ++ [name])) = d.readFile (absolute (place ++ [name])) := by
    intro htrue
    have hshort : (absolute (place ++ [name])).fault? ≠ some .nameTooLong := by
      intro hlong
      obtain ⟨e, he⟩ := exists_error_isFile.2 (.inl hlong)
      cases he.symm.trans htrue
    unfold Disk.isFile at htrue
    rw [ask_eq_look hshort, look_entry h.wellFormed h.linkFree hdir hname] at htrue
    cases hat : d.tree.at? (place ++ [name]) with
    | none => simp [hat, bind, Except.bind, pure, Except.pure] at htrue
    | some t =>
        cases t with
        | file content =>
            have hreach := reaches_absolute h.wellFormed hat rfl
            have hreach' := reaches_absolute h.wellFormed' (h.alike.file hplace hat) rfl
            unfold Disk.readFile
            rw [h.refused?, hreach.stat, hreach'.stat]
        | dir entries => simp [hat, bind, Except.bind, pure, Except.pure] at htrue
        | link target => simp [hat, bind, Except.bind, pure, Except.pure] at htrue
        | pipe => simp [hat, bind, Except.bind, pure, Except.pure] at htrue
  unfold IgnoreFile.load
  rw [hfile]
  cases hisFile : d.isFile (absolute (place ++ [name])) with
  | error e => rfl
  | ok isFile =>
      cases isFile with
      | false => rfl
      | true =>
          simp only [bind, Except.bind, hread hisFile]

theorem rootOf (h : Twins hidden d d') (hreal : d.resolve p = .ok (absolute place))
    (hdir : d.tree.at? place = some (.dir children)) : Plan.rootOf d' p = Plan.rootOf d p := by
  obtain ⟨children', hdir'⟩ := h.alike.directory hdir
  have hreach := reaches_absolute h.wellFormed hdir rfl
  have hreach' := reaches_absolute h.wellFormed' hdir' rfl
  have hask : (d'.ask (absolute place)).map (·.isSome) =
      (d.ask (absolute place)).map (·.isSome) := by
    unfold ask
    rw [hreach.look, hreach'.look]
    split <;> rfl
  have hthere : d'.exists? (absolute place) = d.exists? (absolute place) := hask
  simp only [Plan.rootOf, hreal, (h.resolve p).trans hreal, bind, Except.bind, Except.mapError,
    hthere, hreach.isDir, hreach'.isDir]
  rfl

end Twins

end Disk

end SourceScan
