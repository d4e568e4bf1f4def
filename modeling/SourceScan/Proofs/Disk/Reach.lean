import SourceScan.Disk.Basic
import SourceScan.Proofs.Disk.Lookup
import SourceScan.Proofs.Steps

/-!
# What paths of a disk reach

`Reaches` says where a path leads through all links and what is there.  The answers of
a disk about a path follow from it, and so do those about the entries of a directory
that is reached.
-/

namespace SourceScan

namespace Disk

open FileTree

variable {d : Disk} {p : Path} {place : Place} {t : FileTree}

/-! ## Paths that lead somewhere -/

/-- The path leads through all links to the place, and that is what is there. -/
def Reaches (d : Disk) (p : Path) (place : Place) (t : FileTree) : Prop :=
  d.tree.find true (d.startOf p) p.names = .ok (place, t)

theorem Reaches.unique {place' : Place} {t' : FileTree} (h : d.Reaches p place t)
    (h' : d.Reaches p place' t') : place = place' ∧ t = t' := by
  unfold Reaches at h h'
  rw [h] at h'
  cases h'
  exact ⟨rfl, rfl⟩

theorem find_eq_ok_iff {root : FileTree} {follow : Bool} {start : Place}
    {names : List FileName} :
    root.find follow start names = .ok (place, t) ↔
      root.findFrom follow linkLimit start names = .ok (place, some t) := by
  unfold find
  cases root.findFrom follow linkLimit start names with
  | error e => simp [bind, Except.bind]
  | ok r =>
      obtain ⟨last, u⟩ := r
      cases u <;> simp [bind, Except.bind, pure, Except.pure, throw, throwThe,
        MonadExceptOf.throw]

theorem Reaches.leads (hd : d.tree.wellFormed = true) (h : d.Reaches p place t) :
    d.tree.at? place = some t ∧
      ∃ used ≤ linkLimit, Leads d.tree (d.startOf p) p.names used place :=
  leads_of_findFrom hd (find_eq_ok_iff.1 h)

theorem reaches_of_leads {used : Nat} (hat : d.tree.at? place = some t)
    (hused : used ≤ linkLimit)
    (h : Leads d.tree (d.startOf p) p.names used place) : d.Reaches p place t := by
  have hfind : d.tree.findFrom true linkLimit (d.startOf p) (p.names ++ []) =
      d.tree.findFrom true (linkLimit - used) place [] :=
    findFrom_of_leads h hused (.inl rfl)
  rw [List.append_nil, findFrom, hat] at hfind
  exact find_eq_ok_iff.2 hfind

theorem Reaches.stat (h : d.Reaches p place t) : d.stat p = .ok t := by
  unfold Disk.stat
  rw [show d.tree.find true (d.startOf p) p.names = .ok (place, t) from h]

theorem Reaches.look (h : d.Reaches p place t) : d.look p = .ok (some t) := by
  unfold Disk.look
  rw [h.stat]

theorem Reaches.hasNull (hd : d.tree.wellFormed = true) (h : d.Reaches p place t) :
    p.hasNull = false := by
  obtain ⟨-, used, -, hleads⟩ := h.leads hd
  simp only [Path.hasNull, List.any_eq_false, List.contains_iff_mem]
  exact fun name hname => (hleads.clean name hname).2

theorem stat_of_error {fault : DiskFault}
    (h : d.tree.find true (d.startOf p) p.names = .error fault) :
    d.stat p = .error (if p.hasNull then .nullByte else fault) := by
  rw [Disk.stat, h]

theorem Reaches.isDir (h : d.Reaches p place t) :
    d.isDir p = .ok t.isDirectory := by
  unfold Disk.isDir
  rw [h.look]
  cases t <;> rfl

theorem reaches_of_stat (h : d.stat p = .ok t) : ∃ place, d.Reaches p place t := by
  unfold Disk.stat at h
  cases hfind : d.tree.find true (d.startOf p) p.names with
  | error e => simp [hfind] at h
  | ok r =>
      obtain ⟨place, u⟩ := r
      simp only [hfind, Except.ok.injEq] at h
      exact ⟨place, by rw [← h]; exact hfind⟩

theorem reaches_of_look (h : d.look p = .ok (some t)) :
    ∃ place, d.Reaches p place t := by
  unfold Disk.look at h
  split at h
  · cases h
    exact reaches_of_stat ‹_›
  · cases h
  · cases h

theorem stat_eq_nullByte (hd : d.tree.wellFormed = true) :
    d.stat p = .error .nullByte ↔ p.hasNull = true := by
  cases hfind : d.tree.find true (d.startOf p) p.names with
  | ok r =>
      obtain ⟨place, t⟩ := r
      have hreach : d.Reaches p place t := hfind
      simp [hreach.stat, hreach.hasNull hd]
  | error fault =>
      have hfault : fault ≠ .nullByte := by
        rintro rfl
        unfold find at hfind
        cases hfrom : d.tree.findFrom true linkLimit (d.startOf p) p.names with
        | error e =>
            simp only [hfrom, bind, Except.bind, Except.error.injEq] at hfind
            exact findFrom_ne_nullByte _ _ _ _ _ (hfind ▸ hfrom)
        | ok r =>
            obtain ⟨last, found⟩ := r
            cases found <;> simp [hfrom, bind, Except.bind, pure, Except.pure, throw, throwThe,
              MonadExceptOf.throw] at hfind
      rw [stat_of_error hfind]
      cases p.hasNull <;> simp [hfault]

theorem resolve_of_real (hstat : d.stat p ≠ .error .nullByte)
    (h : d.tree.followNames false d.tree.linkCount [] (d.startOf p) p.names = .real place) :
    d.resolve p = .ok (absolute place) := by
  rw [Disk.resolve, h]
  dsimp only
  split
  · next hnull => exact absurd hnull hstat
  · rfl

theorem Reaches.resolve (hd : d.tree.wellFormed = true)
    (h : d.Reaches p place t) : d.resolve p = .ok (absolute place) := by
  obtain ⟨-, used, -, hleads⟩ := h.leads hd
  refine resolve_of_real (by simp [h.stat]) ?_
  rw [followNames_of_leads hleads false ⟨List.nodup_nil, by simp⟩ (by simp)]

theorem Reaches.resolveStrict? (hd : d.tree.wellFormed = true)
    (h : d.Reaches p place t) : d.resolveStrict? p = some (absolute place) := by
  obtain ⟨-, used, -, hleads⟩ := h.leads hd
  unfold Disk.resolveStrict?
  rw [followNames_of_leads hleads true ⟨List.nodup_nil, by simp⟩ (by simp)]

theorem reaches_absolute (hd : d.tree.wellFormed = true)
    (hat : d.tree.at? place = some t) (hplain : t.isLink = false) :
    d.Reaches (absolute place) place t := by
  have hleads : Leads d.tree [] ([] ++ place) 0 ([] ++ place) :=
    leads_of_at? hd hat hplain
  exact reaches_of_leads hat (Nat.zero_le _) hleads

theorem isAbsolute_leftover (names : List FileName) (h : p.isAbsolute = true) :
    (leftover p names).isAbsolute = true := by
  unfold leftover Path.join
  split
  · assumption
  · exact h

theorem isAbsolute_of_circle {root : FileTree} {strict : Bool} {fuel : Nat} {active : List Place}
    {names : List FileName} {left : Path}
    (h : root.followNames strict fuel active place names = .circle left) :
    left.isAbsolute = true := by
  fun_induction followNames root strict fuel active place names generalizing left
  case case2 ih => exact ih h
  case case3 ih => exact ih h
  case case5 ih => exact ih h
  case case6 =>
    cases h
    exact isAbsolute_leftover _ rfl
  case case7 =>
    cases h
    exact isAbsolute_leftover _ rfl
  case case8 ih => exact ih h
  case case9 hcircle ih =>
    cases h
    exact isAbsolute_leftover _ (ih hcircle)
  case case11 ih => exact ih h
  all_goals cases h

theorem isAbsolute_of_resolve {real : Path} (h : d.resolve p = .ok real) :
    real.isAbsolute = true := by
  unfold Disk.resolve at h
  split at h
  · split at h <;> cases h
    rfl
  · cases h
    rfl
  · next left hcircle =>
      dsimp only at h
      split at h <;> cases h
      have hleft := isAbsolute_of_circle hcircle
      exact hleft

/-! ## Names and paths that are too long -/

def TooLong (d : Disk) (p : Path) : Prop :=
  p.fault? = some .nameTooLong ∨ d.stat p = .error .nameTooLong

theorem ask_eq_look (h : p.fault? ≠ some .nameTooLong) : d.ask p = d.look p := if_neg h

theorem exists_error_look : (∃ e, d.look p = .error e) ↔ d.stat p = .error .nameTooLong := by
  unfold Disk.look
  cases d.stat p with
  | error fault => cases fault <;> simp
  | ok t => simp

theorem exists_error_ask : (∃ e, d.ask p = .error e) ↔ d.TooLong p := by
  unfold ask TooLong
  split
  · next hlong => simp [hlong]
  · next hshort => rw [exists_error_look, or_iff_right hshort]

theorem exists_error_isFile : (∃ e, d.isFile p = .error e) ↔ d.TooLong p := by
  rw [← exists_error_ask]
  unfold Disk.isFile
  rcases d.ask p with e | _ | _ | _ | _ | _ <;> simp [bind, Except.bind, pure, Except.pure]

/-! ## Entries of a directory -/

section Child

variable {children : List (FileName × FileTree)} {name : FileName} {u : FileTree}

theorem Reaches.list (h : d.Reaches p place (.dir children))
    (hfree : d.refused? .list p = none) :
    d.list p = .ok (children.map (·.1)) := by
  unfold Disk.list
  rw [hfree, h.stat]

theorem Reaches.list_eq (h : d.Reaches p place (.dir children)) {names : List FileName}
    (hlist : d.list p = .ok names) : names = children.map (·.1) := by
  unfold Disk.list at hlist
  rw [h.stat] at hlist
  split at hlist
  · cases hlist
  · cases hlist
    rfl

theorem Reaches.at?_child (hd : d.tree.wellFormed = true)
    (h : d.Reaches p place (.dir children)) :
    d.tree.at? (place ++ [name]) = Assoc.get? name children := by
  rw [at?_snoc, (h.leads hd).1]
  rfl

theorem Reaches.find_child (hd : d.tree.wellFormed = true)
    (h : d.Reaches p place (.dir children))
    (hget : Assoc.get? name children = some u) :
    d.tree.find false (d.startOf (p.child name)) (p.child name).names =
      .ok (place ++ [name], u) := by
  obtain ⟨hat, used, hused, hleads⟩ := h.leads hd
  have hnext : d.tree.at? (place ++ [name]) = some u := by
    rw [h.at?_child hd, hget]
  obtain ⟨hhere, hdots, -, hshort⟩ :=
    isEntryName_iff.1 (isEntryName_of_at? hd hnext)
  rw [find_eq_ok_iff]
  change d.tree.findFrom false linkLimit (d.startOf p) (p.names ++ [name]) = _
  rw [findFrom_of_leads hleads hused (.inr (by simp)), findFrom]
  simp only [hat, hhere, hdots, hnext, Nat.not_lt.2 hshort, Bool.false_eq_true,
    if_false]
  cases u with
  | link target => simp
  | file content => rw [findFrom, hnext]
  | dir children => rw [findFrom, hnext]
  | pipe => rw [findFrom, hnext]

theorem Reaches.isLink_child (hd : d.tree.wellFormed = true)
    (h : d.Reaches p place (.dir children))
    (hget : Assoc.get? name children = some u) :
    d.isLink (p.child name) = u.isLink := by
  unfold Disk.isLink
  rw [h.find_child hd hget]
  cases u <;> rfl

theorem Reaches.child (hd : d.tree.wellFormed = true)
    (h : d.Reaches p place (.dir children))
    (hget : Assoc.get? name children = some u) (hplain : u.isLink = false) :
    d.Reaches (p.child name) (place ++ [name]) u := by
  obtain ⟨hat, used, hused, hleads⟩ := h.leads hd
  have hnext : d.tree.at? (place ++ [name]) = some u := by
    rw [h.at?_child hd, hget]
  have hstep : Leads d.tree place [name] 0 (place ++ [name]) :=
    .down (isEntryName_of_at? hd hnext) hnext hplain (.done _)
  have hall := hleads.append hstep
  exact reaches_of_leads hnext hused hall

/-- What an entry reaches is found in the directory that the path above it reaches. -/
theorem Reaches.parent (hd : d.tree.wellFormed = true)
    (hname : isEntryName name = true) (h : d.Reaches (p.child name) place t) :
    ∃ parent children u, d.Reaches p parent (.dir children) ∧
      Assoc.get? name children = some u ∧
      (u.isLink = false → place = parent ++ [name] ∧ t = u) := by
  obtain ⟨hat, used, hused, hleads⟩ := h.leads hd
  change Leads d.tree (d.startOf p) (p.names ++ [name]) used place at hleads
  obtain ⟨parent, first, second, hfirst, hsecond, rfl⟩ := hleads.split
  have hparent : ∀ {children}, d.tree.at? parent = some (.dir children) →
      d.Reaches p parent (.dir children) :=
    fun hdir => reaches_of_leads hdir (by omega) hfirst
  cases hsecond with
  | stay _ here => simp [(isEntryName_iff.1 hname).1] at here
  | up => exact absurd rfl (isEntryName_iff.1 hname).2.1
  | @down _ _ _ _ _ u _ next plain rest =>
      cases rest
      obtain ⟨children, hdir, hget⟩ := directory_of_at?_snoc next
      refine ⟨parent, children, u, hparent hdir, hget, fun _ => ⟨rfl, ?_⟩⟩
      exact Option.some.inj (hat.symm.trans next)
  | link _ next follow rest =>
      obtain ⟨children, hdir, hget⟩ := directory_of_at?_snoc next
      exact ⟨parent, children, _, hparent hdir, hget, by simp [FileTree.isLink]⟩

end Child

theorem Reaches.startOf (hd : d.tree.wellFormed = true)
    {children : List (FileName × FileTree)} (h : d.Reaches p place (.dir children)) :
    HasPlain d.tree (d.startOf p) := by
  obtain ⟨hat, used, -, hleads⟩ := h.leads hd
  generalize d.startOf p = start, p.names = names at hleads ⊢
  cases hleads with
  | done => exact ⟨_, hat, rfl⟩
  | stay dir => exact ⟨_, dir, rfl⟩
  | up dir => exact ⟨_, dir, rfl⟩
  | down _ next =>
      obtain ⟨_, dir, -⟩ := directory_of_at?_snoc next
      exact ⟨_, dir, rfl⟩
  | link _ next =>
      obtain ⟨_, dir, -⟩ := directory_of_at?_snoc next
      exact ⟨_, dir, rfl⟩

theorem reaches_of_resolveStrict? (hd : d.tree.wellFormed = true)
    (hstart : HasPlain d.tree (d.startOf p)) {target : Path}
    (h : d.resolveStrict? p = some target) :
    ∃ place t, target = absolute place ∧ d.Reaches target place t := by
  unfold Disk.resolveStrict? at h
  cases hfollow : d.tree.followNames true d.tree.linkCount [] (d.startOf p)
      p.names with
  | real place =>
      simp only [hfollow, Option.some.injEq] at h
      obtain ⟨t, hat, hplain⟩ := hasPlain_of_followNames hstart hfollow
      subst h
      exact ⟨place, t, rfl, reaches_absolute hd hat hplain⟩
  | circle names => simp [hfollow] at h
  | missing => simp [hfollow] at h

theorem look_of_resolveStrict? (hd : d.tree.wellFormed = true) {target : Path}
    (h : d.resolveStrict? p = some target) : ∃ found, d.look p = .ok found := by
  have hne : d.tree.findFrom true linkLimit (d.startOf p) p.names ≠
      .error .nameTooLong := by
    unfold Disk.resolveStrict? at h
    split at h
    · rename_i last hfollow
      rw [← List.append_nil p.names]
      exact findFrom_ne_nameTooLong hd hfollow fun links => by
        rw [findFrom]
        simp
    · cases h
  unfold Disk.look
  split
  · exact ⟨_, rfl⟩
  · rename_i hstat
    exfalso
    unfold Disk.stat find at hstat
    cases hfind : d.tree.findFrom true linkLimit (d.startOf p) p.names with
    | error e =>
        simp only [hfind, bind, Except.bind, Except.error.injEq] at hstat
        split at hstat
        · cases hstat
        · exact hne (by rw [hfind, hstat])
    | ok r =>
        obtain ⟨last, found⟩ := r
        cases found with
        | none =>
            simp only [hfind, bind, Except.bind, throw, throwThe, MonadExceptOf.throw,
              Except.error.injEq] at hstat
            split at hstat <;> cases hstat
        | some t => simp [hfind, bind, Except.bind, pure, Except.pure] at hstat
  · exact ⟨_, rfl⟩

end Disk

end SourceScan
