import SourceScan.Proofs.Disk.Written
import SourceScan.Report.Artifact

/-!
# Disks that are the same inside a place

The veil takes the bytes of all files that lie outside of a place.  Two disks are the same
inside the place if they are the same under the veil, so that nothing but the bytes of files
outside tells them apart.  Then all else that they answer is the same, and so is what they
say of a report that is written to them.
-/

namespace SourceScan

open FileTree

/-- Leaves their bytes to the files below a place only. -/
def Recast.veil (top : Place) : Recast :=
  fun place content => if top <+: place then content else []

theorem Recast.veil_of_prefix {top place : Place} (h : top <+: place) (content : Bytes) :
    veil top place content = content :=
  if_pos h

namespace Disk

variable {d d' : Disk} {top place : Place} {p : Path} {t : FileTree} {content : Bytes}

def veiled (top : Place) (d : Disk) : Disk := d.recast (.veil top)

/-- Nothing but the bytes of files outside of the place tells the disks apart. -/
def SameWithin (top : Place) (d d' : Disk) : Prop := d.veiled top = d'.veiled top

theorem readFile_veiled (h : ∀ place content, d.Reaches p place (.file content) →
      top <+: place) : (d.veiled top).readFile p = d.readFile p :=
  readFile_recast fun place content hreach =>
    Recast.veil_of_prefix (h place content hreach) content

theorem SameWithin.symm (h : d.SameWithin top d') : d'.SameWithin top d :=
  Eq.symm (show d.veiled top = d'.veiled top from h)

/-! ## The same answers -/

namespace SameWithin

variable (h : d.SameWithin top d')
include h

theorem dirCount : d'.tree.dirCount = d.tree.dirCount := by
  have hsame := congrArg (fun e => e.tree.dirCount) h
  simpa only [veiled, recast, setTree, dirCount_recast] using hsame.symm

theorem startOf (p : Path) : d'.startOf p = d.startOf p :=
  (congrArg (fun e => Disk.startOf e p) h).symm

theorem exists? (p : Path) : d'.exists? p = d.exists? p := by
  have hsame := congrArg (fun e => Disk.exists? e p) h
  simpa only [veiled, exists?_recast] using hsame.symm

theorem isDir (p : Path) : d'.isDir p = d.isDir p := by
  have hsame := congrArg (fun e => Disk.isDir e p) h
  simpa only [veiled, isDir_recast] using hsame.symm

theorem isFile (p : Path) : d'.isFile p = d.isFile p := by
  have hsame := congrArg (fun e => Disk.isFile e p) h
  simpa only [veiled, isFile_recast] using hsame.symm

theorem isLink (p : Path) : d'.isLink p = d.isLink p := by
  have hsame := congrArg (fun e => Disk.isLink e p) h
  simpa only [veiled, isLink_recast] using hsame.symm

theorem resolve (p : Path) : d'.resolve p = d.resolve p := by
  have hsame := congrArg (fun e => Disk.resolve e p) h
  simpa only [veiled, resolve_recast] using hsame.symm

theorem resolveStrict? (p : Path) : d'.resolveStrict? p = d.resolveStrict? p := by
  have hsame := congrArg (fun e => Disk.resolveStrict? e p) h
  simpa only [veiled, resolveStrict?_recast] using hsame.symm

theorem list (p : Path) : d'.list p = d.list p := by
  have hsame := congrArg (fun e => Disk.list e p) h
  simpa only [veiled, list_recast] using hsame.symm

theorem rootOf (p : Path) : Plan.rootOf d' p = Plan.rootOf d p := by
  simp only [Plan.rootOf, h.resolve, h.exists?, h.isDir]

/-! ## Looking up -/

theorem findFrom_error {follow : Bool} {links : Nat} {names : List FileName} {e : DiskFault}
    (hfind : d.tree.findFrom follow links place names = .error e) :
    d'.tree.findFrom follow links place names = .error e := by
  have hsame := congrArg (fun e => e.tree.findFrom follow links place names) h
  simp only [veiled, recast, setTree, findFrom_recast, hfind] at hsame
  cases hother : d'.tree.findFrom follow links place names with
  | error e' =>
      rw [hother] at hsame
      cases hsame
      rfl
  | ok r =>
      rw [hother] at hsame
      cases hsame

theorem findFrom_ok {follow : Bool} {links : Nat} {names : List FileName} {last : Place}
    {found : Option FileTree}
    (hfind : d.tree.findFrom follow links place names = .ok (last, found)) :
    ∃ found', d'.tree.findFrom follow links place names = .ok (last, found') ∧
      found'.map (FileTree.recast ((Recast.veil top).under last)) =
        found.map (FileTree.recast ((Recast.veil top).under last)) := by
  have hsame := congrArg (fun e => e.tree.findFrom follow links place names) h
  simp only [veiled, recast, setTree, findFrom_recast, hfind] at hsame
  cases hother : d'.tree.findFrom follow links place names with
  | error e =>
      rw [hother] at hsame
      cases hsame
  | ok r =>
      rw [hother] at hsame
      simp only [Except.map, Except.ok.injEq, Prod.mk.injEq] at hsame
      obtain ⟨last', found'⟩ := r
      obtain ⟨rfl, hfound⟩ := hsame
      exact ⟨found', rfl, hfound.symm⟩

theorem find_error {follow : Bool} {names : List FileName} {e : DiskFault}
    (hfind : d.tree.find follow place names = .error e) :
    d'.tree.find follow place names = .error e := by
  have hsame := congrArg (fun e => e.tree.find follow place names) h
  simp only [veiled, recast, setTree, find_recast, hfind] at hsame
  cases hother : d'.tree.find follow place names with
  | error e' =>
      rw [hother] at hsame
      cases hsame
      rfl
  | ok r =>
      rw [hother] at hsame
      cases hsame

theorem find_ok {follow : Bool} {names : List FileName} {last : Place}
    (hfind : d.tree.find follow place names = .ok (last, t)) :
    ∃ t', d'.tree.find follow place names = .ok (last, t') ∧
      t'.recast ((Recast.veil top).under last) = t.recast ((Recast.veil top).under last) := by
  obtain ⟨found, hfind', hfound⟩ := h.findFrom_ok (find_eq_ok_iff.1 hfind)
  cases found with
  | none => cases hfound
  | some t' => exact ⟨t', find_eq_ok_iff.2 hfind', Option.some.inj hfound⟩

theorem reaches (hreach : d.Reaches p place t) : ∃ t', d'.Reaches p place t' ∧
    t'.recast ((Recast.veil top).under place) = t.recast ((Recast.veil top).under place) := by
  obtain ⟨t', hfind, ht'⟩ := h.find_ok hreach
  rw [← h.startOf] at hfind
  exact ⟨t', hfind, ht'⟩

theorem stat_error {e : DiskFault} (hstat : d.stat p = .error e) : d'.stat p = .error e := by
  unfold Disk.stat at hstat ⊢
  cases hfind : d.tree.find true (d.startOf p) p.names with
  | ok r =>
      rw [hfind] at hstat
      cases hstat
  | error e' =>
      rw [hfind] at hstat
      rw [h.startOf, h.find_error hfind]
      exact hstat

theorem reaches_file (hreach : d.Reaches p place (.file content)) (hin : top <+: place) :
    d'.Reaches p place (.file content) := by
  obtain ⟨t', hreach', ht'⟩ := h.reaches hreach
  cases t' with
  | file content' =>
      have hveil : ∀ bytes, (Recast.veil top).under place [] bytes = bytes := fun bytes => by
        rw [Recast.under, List.append_nil, Recast.veil_of_prefix hin]
      simp only [FileTree.recast, hveil, FileTree.file.injEq] at ht'
      rw [← ht']
      exact hreach'
  | dir children => cases ht'
  | link target => cases ht'
  | pipe => cases ht'

theorem readFile (hin : ∀ place content, d.Reaches p place (.file content) → top <+: place) :
    d'.readFile p = d.readFile p := by
  rw [← readFile_veiled hin, show d.veiled top = d'.veiled top from h, readFile_veiled]
  intro place content hreach
  obtain ⟨t, hreach', ht⟩ := h.symm.reaches hreach
  cases t with
  | file content' => exact hin place content' hreach'
  | dir children => cases ht
  | link target => cases ht
  | pipe => cases ht

/-! ## Writing -/

theorem setTree {t t' : FileTree}
    (ht : t.recast (.veil top) = t'.recast (.veil top)) :
    (d.setTree t).SameWithin top (d'.setTree t') := by
  unfold SameWithin veiled Disk.recast Disk.setTree at h ⊢
  simp only [Disk.mk.injEq] at h ⊢
  exact ⟨ht, h.2⟩

theorem tree : d.tree.recast (.veil top) = d'.tree.recast (.veil top) := congrArg Disk.tree h

theorem put {new new' : FileTree} (hnew : new'.recast ((Recast.veil top).under place) =
      new.recast ((Recast.veil top).under place)) :
    (d.setTree (.put new place d.tree)).SameWithin top
      (d'.setTree (.put new' place d'.tree)) := by
  refine h.setTree ?_
  rw [recast_put, recast_put, h.tree, hnew]

theorem erase (place : Place) :
    (d.setTree (d.tree.erase place)).SameWithin top (d'.setTree (d'.tree.erase place)) := by
  refine h.setTree ?_
  rw [recast_erase, recast_erase, h.tree]

theorem shared : d'.shared = d.shared := (congrArg Disk.shared h).symm

theorem setShared (shared : List (List Place)) :
    (d.setShared shared).SameWithin top (d'.setShared shared) := by
  unfold SameWithin veiled Disk.recast Disk.setTree at h ⊢
  simp only [Disk.setShared, Disk.mk.injEq] at h ⊢
  exact ⟨h.1, h.2.1, h.2.2.1, trivial⟩

theorem without (place : Place) : (d.without place).SameWithin top (d'.without place) := by
  unfold Disk.without
  rw [h.shared]
  exact (h.erase place).setShared _

theorem aliases (place : Place) : d'.aliases place = d.aliases place := by
  simp only [Disk.aliases, h.shared]

theorem fill (place : Place) (content : Bytes) :
    (d.fill place content).SameWithin top (d'.fill place content) := by
  have hput : (FileTree.put (.file content) place d.tree).recast (.veil top) =
      (FileTree.put (.file content) place d'.tree).recast (.veil top) := (h.put rfl).tree
  have hrefill : d'.refill place content = d.refill place content := by
    funext other old
    simp only [refill, h.aliases]
  -- What the other names hold is put in anew or was there before, so the veil may go first.
  have hveil : ∀ t : FileTree, (t.recast (d.refill place content)).recast (.veil top) =
      (t.recast (.veil top)).recast fun other old =>
        Recast.veil top other (d.refill place content other old) := by
    intro t
    rw [recast_recast, recast_recast]
    congr 1
    funext other old
    by_cases htop : top <+: other <;> by_cases hmem : other ∈ d.aliases place <;>
      simp [Recast.veil, refill, htop, hmem]
  unfold Disk.fill
  refine h.setTree ?_
  rw [hrefill, hveil, hveil, hput]

theorem move (source target : Place) (t : FileTree) :
    (d.move source target t).SameWithin top (d'.move source target t) := by
  unfold Disk.move
  rw [h.shared]
  exact ((h.erase source).put rfl).setShared _

theorem writeFile (p : Path) (content : Bytes) :
    (∃ e, d.writeFile p content = .error e ∧ d'.writeFile p content = .error e) ∨
      ∃ done done', d.writeFile p content = .ok done ∧ d'.writeFile p content = .ok done' ∧
        done.SameWithin top done' := by
  cases hfault : p.fault? with
  | some fault => exact .inl ⟨_, writeFile_of_fault hfault _, writeFile_of_fault hfault _⟩
  | none =>
  unfold Disk.writeFile
  rw [h.startOf, heed_of_fault?_eq_none hfault, heed_of_fault?_eq_none hfault]
  cases hfind : d.tree.findFrom true linkLimit (d.startOf p) p.names with
  | error e =>
      rw [h.findFrom_error hfind]
      exact .inl ⟨_, rfl, rfl⟩
  | ok r =>
      obtain ⟨place, found⟩ := r
      obtain ⟨found', hfind', hfound⟩ := h.findFrom_ok hfind
      rw [hfind']
      have hfill := h.fill place content
      rcases found with _ | (_ | _ | _ | _) <;> rcases found' with _ | (_ | _ | _ | _) <;>
        first
        | exact .inr ⟨_, _, rfl, rfl, hfill⟩
        | exact .inr ⟨_, _, rfl, rfl, h⟩
        | exact .inl ⟨_, rfl, rfl⟩
        | cases hfound

theorem unlink (p : Path) :
    (∃ e, d.unlink p = .error e ∧ d'.unlink p = .error e) ∨
      ∃ done done', d.unlink p = .ok done ∧ d'.unlink p = .ok done' ∧
        done.SameWithin top done' := by
  cases hfault : p.fault? with
  | some fault => exact .inl ⟨_, unlink_of_fault hfault, unlink_of_fault hfault⟩
  | none =>
  unfold Disk.unlink
  rw [h.startOf, heed_of_fault?_eq_none hfault, heed_of_fault?_eq_none hfault]
  cases hfind : d.tree.find false (d.startOf p) p.names with
  | error e =>
      rw [h.find_error hfind]
      cases e with
      | noEntry => exact .inr ⟨d, d', rfl, rfl, h⟩
      | _ => exact .inl ⟨_, rfl, rfl⟩
  | ok r =>
      obtain ⟨place, t⟩ := r
      obtain ⟨t', hfind', ht⟩ := h.find_ok hfind
      rw [hfind']
      have hgone := h.without place
      cases t <;> cases t' <;>
        first
        | exact .inr ⟨_, _, rfl, rfl, hgone⟩
        | exact .inl ⟨_, rfl, rfl⟩
        | cases ht

theorem rename (p q : Path) (hmoved : ∀ source t t',
      d.tree.find false (d.startOf p) p.names = .ok (source, t) →
      d'.tree.find false (d'.startOf p) p.names = .ok (source, t') → t' = t) :
    (∃ e, d.rename p q = .error e ∧ d'.rename p q = .error e) ∨
      ∃ done done', d.rename p q = .ok done ∧ d'.rename p q = .ok done' ∧
        done.SameWithin top done' := by
  rw [h.startOf] at hmoved
  unfold Disk.rename
  rw [h.startOf, h.startOf]
  cases hnull : q.hasNull with
  | true => exact .inl ⟨_, rfl, rfl⟩
  | false =>
  cases hfault : p.fault?.or q.fault? with
  | some fault => exact .inl ⟨_, rfl, rfl⟩
  | none =>
  cases hsource : d.tree.find false (d.startOf p) p.names with
  | error e =>
      rw [h.find_error hsource]
      exact .inl ⟨_, rfl, rfl⟩
  | ok r =>
  obtain ⟨source, moved⟩ := r
  obtain ⟨moved', hsource', -⟩ := h.find_ok hsource
  obtain rfl := hmoved source moved moved' hsource hsource'
  rw [hsource']
  cases hgoal : d.tree.findFrom false linkLimit (d.startOf q) q.names with
  | error e =>
      rw [h.findFrom_error hgoal]
      exact .inl ⟨_, rfl, rfl⟩
  | ok r =>
  obtain ⟨goal, found⟩ := r
  obtain ⟨found', hgoal', hfound⟩ := h.findFrom_ok hgoal
  rw [hgoal']
  have hmove := h.move source goal moved'
  simp only [Except.mapError, bind, Except.bind, h.aliases]
  cases !hasOwnName p || !hasOwnName q with
  | true => exact .inl ⟨_, rfl, rfl⟩
  | false =>
      generalize (decide (source = goal) || decide (goal ∈ d.aliases source)) = same
      -- What is found at the goal is of one kind on both disks.
      cases same <;> rcases found with _ | (_ | _ | _ | _) <;>
        rcases found' with _ | (_ | _ | _ | _) <;>
        first
        | exact .inr ⟨_, _, rfl, rfl, hmove⟩
        | exact .inr ⟨_, _, rfl, rfl, h⟩
        | exact .inl ⟨_, rfl, rfl⟩
        | cases hfound

/-! ## Writing a report -/

theorem cleanUp (staging target : Path) (cause : DiskError) :
    (Report.cleanUp d' staging target cause).2 = (Report.cleanUp d staging target cause).2 ∧
      (Report.cleanUp d staging target cause).1.SameWithin top
        (Report.cleanUp d' staging target cause).1 := by
  unfold Report.cleanUp
  split
  · exact ⟨rfl, h⟩
  rcases h.unlink staging with ⟨e, he, he'⟩ | ⟨done, done', hdone, hdone', hsame⟩
  · rw [he, he']
    exact ⟨rfl, h⟩
  · rw [hdone, hdone']
    exact ⟨rfl, hsame⟩

omit h in
theorem moved_eq {written written' : Disk} (hp : p.names ≠ [])
    (hwrite : d.writeFile p content = .ok written)
    (hwrite' : d'.writeFile p content = .ok written') (hsame : written.SameWithin top written')
    {source : Place} {t' : FileTree}
    (hfind : written.tree.find false (written.startOf p) p.names = .ok (source, t))
    (hfind' : written'.tree.find false (written'.startOf p) p.names = .ok (source, t')) :
    t' = t := by
  obtain ⟨u, hu, hveil⟩ := hsame.find_ok hfind
  rw [← hsame.startOf, hfind', Except.ok.injEq, Prod.mk.injEq] at hu
  obtain rfl := hu.2
  have hlinks : t'.isLink = t.isLink := by
    cases t <;> cases t' <;> first | rfl | cases hveil
  cases hlink : t.isLink with
  | true =>
      cases t <;> cases hlink
      cases t' <;> cases hveil
      rfl
  | false =>
      rw [hlink] at hlinks
      rcases found_of_writeFile hp hwrite hfind hlink with rfl | rfl <;>
        rcases found_of_writeFile hp hwrite' hfind' hlinks with rfl | rfl <;>
        first | rfl | cases hveil

/-- Writing a report has the same outcome on both disks, and leaves them the same inside the
place. -/
theorem write (r : Report) (target : Path) :
    (r.write target d').2 = (r.write target d).2 ∧
      (r.write target d).1.SameWithin top (r.write target d').1 := by
  unfold Report.write
  cases r.payload target with
  | error e => exact ⟨rfl, h⟩
  | ok bytes =>
  cases hbeside : target.staging? with
  | none => exact ⟨rfl, h⟩
  | some staging =>
  have hp : staging.names ≠ [] := by
    unfold Path.staging? Path.withName? at hbeside
    split at hbeside
    · cases hbeside
    · cases hbeside
      simp
  dsimp only
  rcases h.writeFile staging bytes with ⟨e, he, he'⟩ | ⟨written, written', hw, hw', hsame⟩
  · rw [he, he']
    exact h.cleanUp staging target e
  · rw [hw, hw']
    dsimp only
    rcases hsame.rename staging target
        (fun _ _ _ hfind hfind' => moved_eq hp hw hw' hsame hfind hfind') with
      ⟨e, he, he'⟩ | ⟨done, done', hdone, hdone', hdisks⟩
    · rw [he, he']
      exact hsame.cleanUp staging target e
    · rw [hdone, hdone']
      exact ⟨rfl, hdisks⟩

end SameWithin

end Disk

end SourceScan
