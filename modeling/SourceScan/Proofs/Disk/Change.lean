import SourceScan.Proofs.Disk.Reach
import SourceScan.Proofs.Path

/-!
# Changing a tree at one place

Putting something at a place leaves all directories where they are, unless one stood at
that place.  So a path that leads through directories leads where it led before, and what
it ends at is named as entries are.
-/

namespace SourceScan

namespace FileTree

variable {new root t : FileTree} {p q place : Place} {name : FileName}
  {children : List (FileName × FileTree)}

theorem at?_cons_dir (name : FileName) (place : Place)
    (children : List (FileName × FileTree)) :
    (FileTree.dir children).at? (name :: place) =
      (Assoc.get? name children).bind (at? place) :=
  rfl

theorem directory_put (new : FileTree)
    (hp : ∀ u, root.at? p = some u → u.isDirectory = false)
    (hq : root.at? q = some (.dir children)) :
    ∃ children', (put new p root).at? q = some (.dir children') := by
  induction p generalizing root q with
  | nil =>
      have hroot := hp root rfl
      cases q with
      | nil =>
          cases hq
          simp [isDirectory] at hroot
      | cons name q =>
          obtain ⟨u, hchild, -⟩ := Option.bind_eq_some_iff.1 hq
          cases root with
          | dir entries => simp [isDirectory] at hroot
          | file content => simp [child?] at hchild
          | link target => simp [child?] at hchild
          | pipe => simp [child?] at hchild
  | cons first p ih =>
      cases root with
      | dir entries =>
          cases q with
          | nil => exact ⟨_, rfl⟩
          | cons name q =>
              rw [at?_cons_dir] at hq
              obtain ⟨u, hget, hat⟩ := Option.bind_eq_some_iff.1 hq
              rw [put, at?_cons_dir, Assoc.get?_put]
              -- Only the entry on the way to the change may differ.
              by_cases hname : first = name
              · subst hname
                rw [if_pos rfl, hget]
                exact ih (fun v hv => hp v (by rw [at?_cons_dir, hget]; exact hv)) hat
              · rw [if_neg hname, hget]
                exact ⟨children, hat⟩
      | file content => exact ⟨children, hq⟩
      | link target => exact ⟨children, hq⟩
      | pipe => exact ⟨children, hq⟩

theorem at?_of_findFrom {follow : Bool} {links : Nat} {names : List FileName}
    {last : Place} {found : Option FileTree}
    (h : root.findFrom follow links place names = .ok (last, found)) :
    root.at? last = found := by
  fun_induction findFrom root follow links place names with
  | case1 links place =>
      simp only [Except.ok.injEq, Prod.mk.injEq] at h
      obtain ⟨rfl, rfl⟩ := h
      rfl
  | case2 => cases h
  | case3 _ _ _ _ _ _ _ ih => exact ih h
  | case4 _ _ _ _ _ _ ih => exact ih h
  | case5 => cases h
  | case6 _ _ _ _ _ _ _ _ _ hnone _ =>
      simp only [Except.ok.injEq, Prod.mk.injEq] at h
      obtain ⟨rfl, rfl⟩ := h
      exact hnone
  | case7 => cases h
  | case8 _ _ _ _ _ _ _ _ _ _ hlink _ =>
      simp only [Except.ok.injEq, Prod.mk.injEq] at h
      obtain ⟨rfl, rfl⟩ := h
      exact hlink
  | case9 => cases h
  | case10 _ _ _ _ _ _ _ _ _ _ _ _ ih => exact ih h
  | case11 _ _ _ _ _ _ _ _ _ _ _ _ ih => exact ih h
  | case12 => cases h

theorem isEntryName_of_findFrom {follow : Bool} {links : Nat} {names : List FileName}
    {last : Place} {found : Option FileTree}
    (hlinks : ∀ q target, root.at? q = some (.link target) → Path.null ∉ target)
    (hplace : ∀ entry ∈ place, isEntryName entry = true)
    (hnames : ∀ name ∈ names, Path.slash ∉ name ∧ Path.null ∉ name)
    (h : root.findFrom follow links place names = .ok (last, found)) :
    ∀ entry ∈ last, isEntryName entry = true := by
  -- Each name is checked before it is added to the place.
  have hnext : ∀ {place : Place} {name : FileName},
      (∀ entry ∈ place, isEntryName entry = true) → ¬staysHere name = true →
      name ≠ Path.dotDot → Path.slash ∉ name ∧ Path.null ∉ name →
      ¬nameLimit < (Utf8.encodeLenient name).length →
      ∀ entry ∈ place ++ [name], isEntryName entry = true := by
    intro place name hplace hhere hdots hclean hshort entry hentry
    rcases List.mem_append.1 hentry with hentry | hentry
    · exact hplace entry hentry
    · rw [List.mem_singleton.1 hentry]
      exact isEntryName_iff.2 ⟨by simpa using hhere, hdots, hclean, Nat.not_lt.1 hshort⟩
  fun_induction findFrom root follow links place names with
  | case1 links place =>
      cases h
      exact hplace
  | case2 => cases h
  | case3 _ _ _ _ _ _ _ ih =>
      exact ih hplace (fun name hname => hnames name (List.mem_cons_of_mem _ hname)) h
  | case4 _ _ _ _ _ _ ih =>
      exact ih (fun entry hentry => hplace entry (List.mem_of_mem_dropLast hentry))
        (fun name hname => hnames name (List.mem_cons_of_mem _ hname)) h
  | case5 => cases h
  | case6 links place name names children dir hhere hdots hshort hnone =>
      cases h
      exact hnext hplace hhere hdots (hnames _ List.mem_cons_self) hshort
  | case7 => cases h
  | case8 links place name names children dir hhere hdots hshort target =>
      cases h
      exact hnext hplace hhere hdots (hnames _ List.mem_cons_self) hshort
  | case9 => cases h
  | case10 place name names children dir hhere hdots hshort target hlink hgo links ih =>
      refine ih ?_ ?_ h
      · unfold linkStart
        split
        · simp
        · exact hplace
      · intro other hother
        rcases List.mem_append.1 hother with hother | hother
        · exact ⟨Text.not_mem_of_mem_splitOn hother,
            fun hnull => hlinks _ target hlink (Text.mem_of_mem_splitOn hother hnull)⟩
        · exact hnames other (List.mem_cons_of_mem _ hother)
  | case11 links place name names children dir hhere hdots hshort t ht hplain ih =>
      refine ih (hnext hplace hhere hdots (hnames _ List.mem_cons_self) hshort) ?_ h
      exact fun other hother => hnames other (List.mem_cons_of_mem _ hother)
  | case12 => cases h

theorem findFrom_single {follow : Bool} {links : Nat} (hdir : root.at? place = some (.dir children))
    (hhere : ¬staysHere name = true) (hdots : name ≠ Path.dotDot)
    (hshort : ¬nameLimit < (Utf8.encodeLenient name).length)
    (hend : follow = false ∨ ∀ target, root.at? (place ++ [name]) ≠ some (.link target)) :
    root.findFrom follow links place [name] =
      .ok (place ++ [name], root.at? (place ++ [name])) := by
  rw [findFrom, hdir]
  simp only [hhere, hdots, hshort, Bool.false_eq_true, if_false]
  cases hat : root.at? (place ++ [name]) with
  | none => rfl
  | some t =>
      cases t with
      | link target =>
          rcases hend with rfl | hend
          · rfl
          · exact absurd hat (hend target)
      | file content => simp only [findFrom, hat]
      | dir entries => simp only [findFrom, hat]
      | pipe => simp only [findFrom, hat]

/-- A name is looked up in a directory that is there, and the look-up ends at it unless
it goes on through a link. -/
theorem findFrom_entry {last : Place} {found : Option FileTree} {follow : Bool}
    (hnames : ∀ entry ∈ place, isEntryName entry = true)
    (hdir : root.at? place = some (.dir children))
    (hhere : staysHere name = false) (hdots : name ≠ Path.dotDot)
    (hend : follow = false ∨
      ∀ target, root.at? (place ++ [name]) ≠ some (.link target))
    (h : root.findFrom follow linkLimit [] (place ++ [name]) = .ok (last, found)) :
    last = place ++ [name] ∧ (Utf8.encodeLenient name).length ≤ nameLimit := by
  have hleads : Leads root [] place 0 ([] ++ place) := leads_of_names hnames hdir rfl
  rw [findFrom_of_leads hleads (Nat.zero_le _) (.inr (by simp)), List.nil_append] at h
  by_cases hlong : nameLimit < (Utf8.encodeLenient name).length
  · rw [findFrom] at h
    simp [hdir, hhere, hdots, hlong] at h
  · rw [findFrom_single hdir (by simp [hhere]) hdots hlong hend] at h
    simp only [Except.ok.injEq, Prod.mk.injEq] at h
    exact ⟨h.1.symm, Nat.not_lt.1 hlong⟩

/-- A look-up ends at the same place in every tree that has the same directories and links. -/
theorem findFrom_congr {root' : FileTree} {follow : Bool} {links : Nat} {names : List FileName}
    {last : Place} {found : Option FileTree}
    (hdirs : ∀ q children, root.at? q = some (.dir children) →
      ∃ children', root'.at? q = some (.dir children'))
    (hlinks : ∀ q target, root.at? q = some (.link target) ↔ root'.at? q = some (.link target))
    (h : root.findFrom follow links place names = .ok (last, found)) :
    root'.findFrom follow links place names = .ok (last, root'.at? last) := by
  fun_induction findFrom root follow links place names with
  | case1 links place =>
      cases h
      rw [findFrom]
  | case2 => cases h
  | case3 links place name names children hdir hhere ih =>
      obtain ⟨children', hdir'⟩ := hdirs _ _ hdir
      rw [findFrom]
      simp only [hdir', hhere, if_true]
      exact ih h
  | case4 links place names children hdir hhere ih =>
      obtain ⟨children', hdir'⟩ := hdirs _ _ hdir
      rw [findFrom]
      simp only [hdir', hhere, Bool.false_eq_true, if_false, if_true]
      exact ih h
  | case5 => cases h
  | case6 links place name names children hdir hhere hdots hlong hnone hlast =>
      obtain ⟨children', hdir'⟩ := hdirs _ _ hdir
      obtain rfl : names = [] := List.isEmpty_iff.1 hlast
      cases h
      exact findFrom_single hdir' hhere hdots hlong (.inr fun target => by simp [← hlinks, hnone])
  | case7 => cases h
  | case8 links place name names children hdir hhere hdots hlong target hlink hend =>
      obtain ⟨children', hdir'⟩ := hdirs _ _ hdir
      simp only [Bool.and_eq_true, Bool.not_eq_true'] at hend
      obtain ⟨hlast, rfl⟩ := hend
      obtain rfl : names = [] := List.isEmpty_iff.1 hlast
      cases h
      exact findFrom_single hdir' hhere hdots hlong (.inl rfl)
  | case9 => cases h
  | case10 place name names children hdir hhere hdots hlong target hlink hend links ih =>
      obtain ⟨children', hdir'⟩ := hdirs _ _ hdir
      rw [findFrom]
      simp only [hdir', hhere, hdots, hlong, (hlinks _ _).1 hlink, hend, Bool.false_eq_true,
        if_false]
      exact ih h
  | case11 links place name names children hdir hhere hdots hlong t hother hnext ih =>
      obtain ⟨children', hdir'⟩ := hdirs _ _ hdir
      cases names with
      | nil =>
          rw [findFrom] at h
          cases h
          refine findFrom_single hdir' hhere hdots hlong (.inr fun target hlink => ?_)
          exact hother target (Option.some.inj (hnext.symm.trans ((hlinks _ _).2 hlink)))
      | cons second names =>
          -- More names are looked up, so there is a directory to look them up in.
          have hdeeper : ∃ entries, root.at? (place ++ [name]) = some (.dir entries) := by
            rw [findFrom, hnext] at h
            cases t with
            | dir entries => exact ⟨entries, hnext⟩
            | file content => cases h
            | link target => cases h
            | pipe => cases h
          obtain ⟨entries, hdeeper⟩ := hdeeper
          obtain ⟨entries', hdeeper'⟩ := hdirs _ _ hdeeper
          rw [findFrom]
          simp only [hdir', hhere, hdots, hlong, hdeeper', Bool.false_eq_true, if_false]
          exact ih h
  | case12 => cases h

end FileTree

end SourceScan
