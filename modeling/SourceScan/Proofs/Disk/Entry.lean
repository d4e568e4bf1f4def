import SourceScan.Proofs.Disk.Written

/-!
# The entries of a disk

The entry of a path is what lies there itself: a link is not followed, and of a directory it
is only said that there is one.  Disks that differ at hidden places have the same entries but
for the paths that lead to these places.
-/

namespace SourceScan

namespace FileTree

variable {root : FileTree} {place last : Place} {names : List FileName} {name : FileName}
  {links : Nat} {found : Option FileTree} {follow : Bool}

theorem exists_above (h : root.findFrom follow links place (names ++ [name]) = .ok (last, found)) :
    ∃ left above, ∀ follow name, root.findFrom follow links place (names ++ [name]) =
      root.findFrom follow left above [name] := by
  -- To follow the links at the end of the other names does not depend on `follow`.
  fun_induction findFrom root true links place names with
  | case1 links place => exact ⟨links, place, fun _ _ => rfl⟩
  | case2 => simp_all [findFrom]
  | case3 links place first names children hdir hhere ih =>
      have hstep : ∀ follow name, root.findFrom follow links place (first :: names ++ [name]) =
          root.findFrom follow links place (names ++ [name]) := fun follow name => by
        rw [List.cons_append, findFrom]
        simp only [hdir, hhere, if_true]
      simp only [hstep] at h ⊢
      exact ih h
  | case4 links place names children hdir hhere ih =>
      have hstep : ∀ follow name, root.findFrom follow links place
          (Path.dotDot :: names ++ [name]) =
            root.findFrom follow links place.dropLast (names ++ [name]) := fun follow name => by
        rw [List.cons_append, findFrom]
        simp only [hdir, hhere, Bool.false_eq_true, if_false, if_true]
      simp only [hstep] at h ⊢
      exact ih h
  | case5 => simp_all [findFrom]
  | case6 links place first names children hdir hhere hdots hlong hnone hlast =>
      rw [List.cons_append, findFrom] at h
      simp [hdir, hhere, hdots, hlong, hnone] at h
  | case7 links place first names children hdir hhere hdots hlong hnone hmore =>
      rw [List.cons_append, findFrom] at h
      simp [hdir, hhere, hdots, hlong, hnone] at h
  | case8 links place first names children hdir hhere hdots hlong target hlink hend =>
      simp at hend
  | case9 place first names children hdir hhere hdots hlong target hlink hend =>
      rw [List.cons_append, findFrom] at h
      simp [hdir, hhere, hdots, hlong, hlink] at h
  | case10 place first names children hdir hhere hdots hlong target hlink hend links ih =>
      have hstep : ∀ follow name, root.findFrom follow (links + 1) place
          (first :: names ++ [name]) = root.findFrom follow links (linkStart target place)
            (linkNames target ++ names ++ [name]) := fun follow name => by
        rw [List.cons_append, findFrom]
        simp [hdir, hhere, hdots, hlong, hlink]
      simp only [hstep] at h ⊢
      exact ih h
  | case11 links place first names children hdir hhere hdots hlong t hplain hnext ih =>
      have hstep : ∀ follow name, root.findFrom follow links place (first :: names ++ [name]) =
          root.findFrom follow links (place ++ [first]) (names ++ [name]) := fun follow name => by
        rw [List.cons_append, findFrom]
        simp only [hdir, hhere, hdots, hlong, hnext, Bool.false_eq_true, if_false]
      simp only [hstep] at h ⊢
      exact ih h
  | case12 => simp_all [findFrom]

theorem findFrom_single_ok (h : root.findFrom false links place [name] = .ok (last, found)) :
    (∃ children, root.at? place = some (.dir children)) ∧ last = descend place [name] := by
  have hdir : ∃ children, root.at? place = some (.dir children) := by
    rw [findFrom] at h
    split at h
    · cases h
    · exact ⟨_, by assumption⟩
    · cases h
  refine ⟨hdir, ?_⟩
  obtain ⟨children, hdir⟩ := hdir
  simp only [descend]
  by_cases hhere : staysHere name = true
  · simp only [findFrom, hdir, hhere, if_true, Except.ok.injEq, Prod.mk.injEq] at h
    rw [if_pos hhere, h.1]
  rw [if_neg hhere]
  by_cases hdots : name = Path.dotDot
  · subst hdots
    simp only [findFrom, hdir, hhere, if_true, Bool.false_eq_true, if_false, Except.ok.injEq,
      Prod.mk.injEq] at h
    rw [if_pos rfl, h.1]
  rw [if_neg hdots]
  by_cases hlong : nameLimit < (Utf8.encodeLenient name).length
  · simp [findFrom, hdir, hhere, hdots, hlong] at h
  · rw [findFrom_single hdir hhere hdots hlong (.inl rfl)] at h
    exact (Prod.mk.inj (Except.ok.inj h)).1.symm

end FileTree

namespace Disk

open FileTree

variable {hidden : Place → Prop} {d d' done : Disk} {p : Path} {place last : Place}
  {found : Option FileTree} {t : FileTree}

def placeOf? (d : Disk) (p : Path) : Option Place :=
  (d.tree.findFrom false linkLimit (d.startOf p) p.names).toOption.map (·.1)

def faceOf? (d : Disk) (p : Path) : Option FileTree :=
  (d.tree.find false (d.startOf p) p.names).toOption.map (·.2.face)

theorem placeOf?_eq_some : d.placeOf? p = some place ↔
    d.tree.findFrom false linkLimit (d.startOf p) p.names = .ok (place, d.tree.at? place) := by
  unfold placeOf?
  cases hfind : d.tree.findFrom false linkLimit (d.startOf p) p.names with
  | error e => simp [Except.toOption]
  | ok r =>
      obtain ⟨last, found⟩ := r
      have hat := at?_of_findFrom hfind
      simp only [Except.toOption, Option.map_some, Option.some.injEq, Except.ok.injEq,
        Prod.mk.injEq, ← hat]
      exact ⟨fun h => ⟨h, by rw [h]⟩, fun h => h.1⟩

theorem faceOf?_eq (d : Disk) (p : Path) :
    d.faceOf? p = (d.placeOf? p).bind fun place => (d.tree.at? place).map face := by
  unfold faceOf? placeOf? find
  cases hfind : d.tree.findFrom false linkLimit (d.startOf p) p.names with
  | error e => rfl
  | ok r =>
      obtain ⟨last, found⟩ := r
      have hat := at?_of_findFrom hfind
      cases found <;> simp [Except.toOption, bind, Except.bind, pure, Except.pure, throw, throwThe,
        MonadExceptOf.throw, hat]

theorem placeOf?_of_findFrom
    (h : d.tree.findFrom false linkLimit (d.startOf p) p.names = .ok (place, found)) :
    d.placeOf? p = some place := by
  rw [placeOf?, h]
  rfl

namespace SameBut

theorem placeOf?_eq (h : d.SameBut hidden d') (p : Path) : d'.placeOf? p = d.placeOf? p := by
  refine Option.ext fun last => ?_
  simp only [placeOf?_eq_some]
  exact ⟨fun hfind => h.symm.findFrom_ok hfind, fun hfind => h.findFrom_ok hfind⟩

theorem faceOf?_eq (h : d.SameBut hidden d')
    (hseen : ∀ place, hidden place → d.placeOf? p ≠ some place) :
    d'.faceOf? p = d.faceOf? p := by
  rw [Disk.faceOf?_eq, Disk.faceOf?_eq, h.placeOf?_eq p]
  cases hplace : d.placeOf? p with
  | none => rfl
  | some last => exact (h.alike.same last fun hlast => hseen last hlast hplace).symm

end SameBut

theorem unlink_ok (h : d.unlink p = .ok done) :
    (d.tree.find false (d.startOf p) p.names = .error .noEntry ∧ done = d) ∨
      ∃ place t, d.tree.find false (d.startOf p) p.names = .ok (place, t) ∧
        t.isDirectory = false ∧ done = d.without place := by
  cases hfault : p.fault? with
  | some fault => cases (unlink_of_fault hfault).symm.trans h
  | none =>
  unfold Disk.unlink at h
  rw [heed_of_fault?_eq_none hfault] at h
  split at h
  · cases h
  · next place t hfile hfind =>
      cases h
      refine .inr ⟨place, t, hfind, ?_, rfl⟩
      cases t with
      | dir children => exact (hfile children rfl).elim
      | file content => rfl
      | link target => rfl
      | pipe => rfl
  · next hfind =>
      cases h
      exact .inl ⟨hfind, rfl⟩
  · cases h

theorem sameBut_unlink {above : Place} {name : FileName}
    (hplace : d.placeOf? p = some (above ++ [name]))
    (hfree : ∀ target, d.tree.at? (above ++ [name]) ≠ some (.link target))
    (h : d.unlink p = .ok done) :
    d.SameBut (· = above ++ [name]) done ∧ done.faceOf? p = none := by
  have hat := placeOf?_eq_some.1 hplace
  rcases unlink_ok h with ⟨hfind, rfl⟩ | ⟨place, t, hfind, hfile, rfl⟩
  · refine ⟨sameBut_self ?_, by rw [faceOf?, hfind]; rfl⟩
    rintro _ rfl u hu
    rw [hu, ← find_eq_ok_iff, hfind] at hat
    cases hat
  · rw [find_eq_ok_iff, hat] at hfind
    obtain ⟨rfl, hthere⟩ := Prod.mk.inj (Except.ok.inj hfind)
    obtain ⟨children, hdir, -⟩ := directory_of_at?_snoc hthere
    have hgone : (d.tree.erase (above ++ [name])).at? (above ++ [name]) = none :=
      at?_erase d.tree hdir
    have hplain : ∀ u, d.tree.at? (above ++ [name]) = some u → u.isDirectory = false :=
      fun u hu => Option.some.inj (hthere.symm.trans hu) ▸ hfile
    have hsame : d.SameBut (· = above ++ [name]) (d.without (above ++ [name])) :=
      ⟨rfl, alikeBut_erase hdir hplain, by rintro _ rfl; exact hfree, by
        rintro _ rfl target hlink
        cases hgone.symm.trans hlink⟩
    refine ⟨hsame, ?_⟩
    rw [faceOf?_eq, hsame.placeOf?_eq, hplace, Option.bind_some]
    exact congrArg (Option.map face) hgone

end Disk

end SourceScan
