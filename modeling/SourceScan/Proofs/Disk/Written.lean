import SourceScan.Proofs.Disk.Update

/-!
# Looking up a file that was written

A look-up that ends where a file is written ends there again afterwards, whatever links it
passes through.  So what is moved away from a path after a file was written there is that
file, unless it is a link or a pipe.
-/

namespace SourceScan

namespace FileTree

variable {root : FileTree} {place last : Place} {names : List FileName} {links : Nat}
  {found : Option FileTree}

/-- A directory has an entry of that place, or may be given one, and it is no link. -/
def Spot (root : FileTree) (place : Place) : Prop :=
  ∃ parent name children, place = parent ++ [name] ∧
    root.at? parent = some (.dir children) ∧ ∀ target, root.at? place ≠ some (.link target)

theorem directory_dropLast {children : List (FileName × FileTree)}
    (h : root.at? place = some (.dir children)) :
    ∃ entries, root.at? place.dropLast = some (.dir entries) := by
  rcases List.eq_nil_or_concat' place with rfl | ⟨parent, name, rfl⟩
  · exact ⟨children, h⟩
  · rw [List.dropLast_concat]
    exact directory_of_at?_append h

theorem directory_linkStart {children : List (FileName × FileTree)} (target : RawText)
    (h : root.at? place = some (.dir children)) :
    ∃ entries, root.at? (linkStart target place) = some (.dir entries) := by
  unfold linkStart
  split
  · exact directory_of_at?_append (show root.at? ([] ++ place) = some (.dir children) from h)
  · exact ⟨children, h⟩

theorem spot_of_findFrom
    (hplace : (∃ children, root.at? place = some (.dir children)) ∨ root.Spot place)
    (h : root.findFrom true links place names = .ok (last, found))
    (hfile : ∀ t, found = some t → t.isDirectory = false) : root.Spot last := by
  fun_induction findFrom root true links place names with
  | case1 links place =>
      cases h
      refine hplace.resolve_left ?_
      rintro ⟨children, hdir⟩
      cases hfile _ hdir
  | case2 => cases h
  | case3 links place name names children hdir hhere ih => exact ih (.inl ⟨children, hdir⟩) h
  | case4 links place names children hdir hhere ih => exact ih (.inl (directory_dropLast hdir)) h
  | case5 => cases h
  | case6 links place name names children hdir hhere hdots hlong hnone hlast =>
      cases h
      exact ⟨place, name, children, rfl, hdir, by simp [hnone]⟩
  | case7 => cases h
  | case8 links place name names children hdir hhere hdots hlong target hlink hend =>
      simp at hend
  | case9 => cases h
  | case10 place name names children hdir hhere hdots hlong target hlink hend links ih =>
      exact ih (.inl (directory_linkStart target hdir)) h
  | case11 links place name names children hdir hhere hdots hlong t hplain hnext ih =>
      refine ih (.inr ⟨place, name, children, rfl, hdir, fun target hlink => ?_⟩) h
      rw [hnext] at hlink
      exact hplain target (Option.some.inj hlink)
  | case12 => cases h

theorem findFrom_follow
    (h : ∀ last target, root.findFrom false links place names ≠ .ok (last, some (.link target))) :
    root.findFrom true links place names = root.findFrom false links place names := by
  fun_induction findFrom root false links place names with
  | case1 links place => rw [findFrom]
  | case2 => simp_all [findFrom]
  | case3 links place name names children hdir hhere ih =>
      rw [findFrom]
      simp only [hdir, hhere, if_true]
      exact ih h
  | case4 links place names children hdir hhere ih =>
      rw [findFrom]
      simp only [hdir, hhere, Bool.false_eq_true, if_false, if_true]
      exact ih h
  | case5 => simp_all [findFrom]
  | case6 => simp_all [findFrom]
  | case7 => simp_all [findFrom]
  | case8 links place name names children hdir hhere hdots hlong target hlink hend =>
      exact absurd rfl (h _ target)
  | case9 => simp_all [findFrom]
  | case10 place name names children hdir hhere hdots hlong target hlink hend links ih =>
      rw [findFrom]
      simp only [hdir, hhere, hdots, hlong, hlink, Bool.false_eq_true, if_false, Bool.not_true,
        Bool.and_false]
      exact ih h
  | case11 links place name names children hdir hhere hdots hlong u hplain hnext ih =>
      rw [findFrom]
      simp only [hdir, hhere, hdots, hlong, hnext, Bool.false_eq_true, if_false]
      cases u with
      | link target => exact absurd rfl (hplain target)
      | file content => exact ih h
      | dir entries => exact ih h
      | pipe => exact ih h
  | case12 => simp_all [findFrom]

end FileTree

namespace Disk

open FileTree

variable {hidden hidden' : Place → Prop} {d d' d'' written : Disk} {p : Path} {content : Bytes}
  {source place parent last : Place} {name : FileName} {names : List FileName}
  {children : List (FileName × FileTree)} {t : FileTree} {found : Option FileTree}

/-- Disks that differ at hidden places only, where neither has a directory or a link. -/
structure SameBut (hidden : Place → Prop) (d d' : Disk) : Prop where
  workingDirectory : d'.workingDirectory = d.workingDirectory
  alike : AlikeBut hidden d.tree d'.tree
  free : ∀ place, hidden place → ∀ target, d.tree.at? place ≠ some (.link target)
  free' : ∀ place, hidden place → ∀ target, d'.tree.at? place ≠ some (.link target)

namespace SameBut

theorem symm (h : d.SameBut hidden d') : d'.SameBut hidden d :=
  ⟨h.workingDirectory.symm, h.alike.symm, h.free', h.free⟩

theorem startOf (h : d.SameBut hidden d') (p : Path) : d'.startOf p = d.startOf p := by
  unfold Disk.startOf
  rw [h.workingDirectory]

theorem link (h : d.SameBut hidden d') {target : RawText}
    (hat : d.tree.at? last = some (.link target)) : d'.tree.at? last = some (.link target) := by
  have hseen : ¬hidden last := fun hlast => h.free last hlast target hat
  obtain ⟨u, hu, hface⟩ := h.alike.at?_of_face hseen hat
  cases u <;> cases hface
  exact hu

/-- What differs at more places may differ at links, if both disks have them. -/
theorem trans (h : d.SameBut hidden d') (h' : d'.SameBut hidden' d'') :
    d.SameBut (fun place => hidden place ∨ hidden' place) d'' where
  workingDirectory := h'.workingDirectory.trans h.workingDirectory
  alike := h.alike.trans h'.alike
  free place := by
    rintro (hplace | hplace) target hat
    · exact h.free place hplace target hat
    · exact h'.free place hplace target (h.link hat)
  free' place := by
    rintro (hplace | hplace) target hat
    · exact h.free' place hplace target (h'.symm.link hat)
    · exact h'.free' place hplace target hat

theorem findFrom_ok (h : d.SameBut hidden d') {follow : Bool} {links : Nat}
    (hfind : d.tree.findFrom follow links (d.startOf p) names = .ok (last, found)) :
    d'.tree.findFrom follow links (d'.startOf p) names = .ok (last, d'.tree.at? last) := by
  rw [h.startOf p]
  exact findFrom_congr (fun _ _ => h.alike.directory) (fun _ _ => ⟨h.link, h.symm.link⟩) hfind

end SameBut

theorem sameBut_self (h : ∀ place, hidden place → ∀ t, d.tree.at? place = some t →
      t.isDirectory = false ∧ t.isLink = false) : d.SameBut hidden d := by
  have hfree : ∀ place, hidden place → ∀ target, d.tree.at? place ≠ some (.link target) :=
    fun place hplace target hat => by cases (h place hplace _ hat).2
  exact ⟨rfl, ⟨fun _ _ => rfl, fun place t hplace hat => (h place hplace t hat).1,
    fun place t hplace hat => (h place hplace t hat).1⟩, hfree, hfree⟩

theorem sameBut_fill (hdir : d.tree.at? parent = some (.dir children))
    (hfile : ∀ t, d.tree.at? (parent ++ [name]) = some t → t.isDirectory = false)
    (hfree : ∀ target, d.tree.at? (parent ++ [name]) ≠ some (.link target)) :
    d.SameBut (d.SameFile (parent ++ [name])) (d.fill (parent ++ [name]) content) where
  workingDirectory := rfl
  alike := alikeBut_fill hdir hfile
  free := by
    rintro other (rfl | ⟨-, old, hat⟩) target hlink
    · exact hfree target hlink
    · cases hat.symm.trans hlink
  free' other hother target hlink := by
    cases (at?_fill hdir hother hfile).symm.trans hlink

theorem spot_of_writable (hp : p.names ≠ [])
    (hfind : d.tree.findFrom true linkLimit (d.startOf p) p.names = .ok (place, found))
    (hfile : ∀ t, found = some t → t.isDirectory = false) : d.tree.Spot place := by
  obtain ⟨name, names, hnames⟩ := List.exists_cons_of_ne_nil hp
  have hstart : ∃ children, d.tree.at? (d.startOf p) = some (.dir children) := by
    rw [hnames, findFrom] at hfind
    split at hfind
    · cases hfind
    · exact ⟨_, by assumption⟩
    · cases hfind
  exact spot_of_findFrom (.inl hstart) hfind hfile

/-- The bytes are under all names of the file, unless a pipe took them in. -/
theorem sameBut_writeFile (hp : p.names ≠ []) (hwrite : d.writeFile p content = .ok written) :
    ∃ made found,
      d.tree.findFrom true linkLimit (d.startOf p) p.names = .ok (made, found) ∧
      (∀ t, found = some t → t.isDirectory = false) ∧ d.SameBut (d.SameFile made) written ∧
      ((∀ other, d.SameFile made other → written.tree.at? other = some (.file content)) ∨
        written.tree.at? made = some .pipe ∧ written = d) := by
  obtain ⟨made, found, hmade, hfile, hwritten⟩ := writeFile_ok hwrite
  refine ⟨made, found, hmade, hfile, ?_⟩
  have hat : d.tree.at? made = found := at?_of_findFrom hmade
  rcases hwritten with ⟨rfl, rfl⟩ | rfl
  · refine ⟨sameBut_self ?_, .inr ⟨hat, rfl⟩⟩
    rintro other (rfl | ⟨-, old, hold⟩) t ht
    · cases hat.symm.trans ht
      exact ⟨rfl, rfl⟩
    · cases hold.symm.trans ht
      exact ⟨rfl, rfl⟩
  · obtain ⟨parent, last, children, rfl, hdir, hfree⟩ := spot_of_writable hp hmade hfile
    exact ⟨sameBut_fill hdir (hat ▸ hfile) hfree,
      .inl fun other hother => at?_fill hdir hother (hat ▸ hfile)⟩

/-- Under the other names of the file are the bytes that got into it. -/
theorem shown_of_writeFile (hp : p.names ≠ []) (hwrite : d.writeFile p content = .ok written)
    (hmade : d.tree.findFrom true linkLimit (d.startOf p) p.names = .ok (place, found))
    (hne : last ≠ place) :
    (written.tree.at? last).map face = d.shownWith place (d.putIn? p content) last := by
  obtain ⟨hfault, made, found', hfind, hfile, hdone⟩ := writeFile_eq_ok_iff.1 hwrite
  obtain ⟨rfl, rfl⟩ := Prod.mk.inj (Except.ok.inj (hmade.symm.trans hfind))
  rcases hdone with ⟨rfl, rfl⟩ | ⟨hpipe, rfl⟩
  · rw [putIn?_of_pipe hmade, shownWith_none]
  · obtain ⟨parent, name, children, rfl, hdir, -⟩ := spot_of_writable hp hmade hfile
    have hplain : ∀ t, d.tree.at? (parent ++ [name]) = some t → t.isDirectory = false :=
      fun t hat => hfile t ((at?_of_findFrom hmade).symm.trans hat)
    rw [putIn?_of_found hfault hmade hfile hpipe, shown_fill hdir hplain hne]

/-- What is found at a path after a file was written to it, unless it is a link: the file,
or a pipe that took it in. -/
theorem found_of_writeFile (hp : p.names ≠ []) (hwrite : d.writeFile p content = .ok written)
    (hfind : written.tree.find false (written.startOf p) p.names = .ok (source, t))
    (hplain : t.isLink = false) : t = .file content ∨ t = .pipe := by
  obtain ⟨made, found, hmade, -, hsame, hat⟩ := sameBut_writeFile hp hwrite
  have hfound := find_eq_ok_iff.1 hfind
  have hagain := hsame.findFrom_ok hmade
  rw [findFrom_follow, hfound] at hagain
  · obtain ⟨rfl, hlast⟩ := Prod.mk.inj (Except.ok.inj hagain)
    rcases hat with hall | ⟨hpipe, -⟩
    · exact .inl (Option.some.inj (hlast.trans (hall _ (sameFile_self ..))))
    · exact .inr (Option.some.inj (hlast.trans hpipe))
  · intro last target hlink
    rw [hfound] at hlink
    cases hlink
    cases hplain

end Disk

end SourceScan
