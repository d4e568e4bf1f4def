import SourceScan.Proofs.Walk.Descent

/-!
# Where a walk gets to

`Enters` says which directories a walk goes into if nothing is refused, and it speaks of
each path on its own.  A refusal takes away what lies below `Lost` directories: those
that cannot be listed, and those that are met again under another name after their
listing was refused.
-/

namespace SourceScan

def Sight.isEntry : Sight → Bool
  | .misnamed _ | .file .. => true
  | _ => false

namespace Walk

open FileTree Disk

variable {w : Walk}

/-- Every directory down to this one is accepted, and no two of them are the same. -/
structure Enters (w : Walk) (dir : List FileName) : Prop where
  named : ∀ name ∈ dir, isEntryName name = true
  opens : ∀ above, above <+: dir → w.Opens above
  apart : ∀ above below, above <+: below → below <+: dir → above ≠ below →
    w.real above ≠ w.real below

/-- The walk was denied the names of the same directory before. -/
def Shadowed (w : Walk) (dir : List FileName) : Prop :=
  ∃ other, .listing other ∈ w.sights ∧ NamesBefore other dir ∧ w.Refused other ∧
    w.real other = w.real dir

def Lost (w : Walk) (dir : List FileName) : Prop := w.Refused dir ∨ w.Shadowed dir

theorem Enters.above {dir above : List FileName} (h : w.Enters dir)
    (habove : above <+: dir) : w.Enters above :=
  ⟨fun name hname => h.named name (habove.subset hname),
    fun other hother => h.opens other (hother.trans habove),
    fun a b hab hb => h.apart a b hab (hb.trans habove)⟩

theorem enters_nil (hroot : w.Opens []) : w.Enters [] := by
  refine ⟨by simp, ?_, ?_⟩
  · intro above habove
    rw [List.prefix_nil.1 habove]
    exact hroot
  · intro above below hab hbelow hne
    rw [List.prefix_nil.1 hbelow] at hab hne
    exact absurd (List.prefix_nil.1 hab) hne

theorem prefix_snoc_iff {above dir : List FileName} {name : FileName} :
    above <+: dir ++ [name] ↔ above <+: dir ∨ above = dir ++ [name] := by
  rw [List.prefix_concat_iff, or_comm]

theorem Holds.isEntryName (hd : w.disk.tree.wellFormed = true) {dir : List FileName}
    {name : FileName} (h : w.Holds dir name) : isEntryName name = true := by
  obtain ⟨place, children, hreach, hmem⟩ := h
  have hwell := wellFormed_at hd (hreach.leads hd).1
  simp only [wellFormed, Bool.and_eq_true] at hwell
  obtain ⟨t, hget⟩ := get?_of_mem hmem
  exact (wellFormed_of_mem hwell.2 (mem_of_get? hget)).1

theorem holds_of_reaches (hd : w.disk.tree.wellFormed = true) {dir : List FileName}
    {name : FileName} (hname : FileTree.isEntryName name = true) {place : Place}
    {t : FileTree} (h : w.disk.Reaches (w.pathOf (dir ++ [name])) place t) :
    w.Holds dir name := by
  rw [pathOf_snoc] at h
  obtain ⟨parent, children, u, hparent, hget, -⟩ := h.parent hd hname
  exact ⟨parent, children, hparent, List.mem_map.2 ⟨_, mem_of_get? hget, rfl⟩⟩

theorem enters_snoc (hd : w.disk.tree.wellFormed = true) {dir : List FileName}
    {name : FileName} :
    w.Enters (dir ++ [name]) ↔ w.Enters dir ∧ w.Holds dir name ∧
      w.Opens (dir ++ [name]) ∧ ∀ above, above <+: dir →
        w.real above ≠ w.real (dir ++ [name]) := by
  constructor
  · intro h
    have hopens := h.opens _ (List.prefix_refl _)
    obtain ⟨place, children, hreach, -⟩ := id hopens
    refine ⟨h.above (List.prefix_append _ _),
      holds_of_reaches hd (h.named name (by simp)) hreach, hopens, ?_⟩
    intro above habove
    refine h.apart above _ (habove.trans (List.prefix_append _ _)) (List.prefix_refl _) ?_
    rintro rfl
    exact not_prefix_self habove
  · rintro ⟨h, hholds, hopens, hapart⟩
    refine ⟨?_, ?_, ?_⟩
    · intro other hother
      rcases List.mem_append.1 hother with hother | hother
      · exact h.named other hother
      · rw [List.mem_singleton.1 hother]
        exact hholds.isEntryName hd
    · intro above habove
      rcases prefix_snoc_iff.1 habove with habove | rfl
      · exact h.opens above habove
      · exact hopens
    · intro above below hab hbelow hne
      rcases prefix_snoc_iff.1 hbelow with hbelow | rfl
      · exact h.apart above below hab hbelow hne
      · exact hapart above ((prefix_snoc_iff.1 hab).resolve_right hne)

theorem fresh_iff {dir : List FileName} :
    w.Fresh [] [] w.sights dir ↔
      (∀ above, above <+: dir → above ≠ dir → w.real above ≠ w.real dir) ∧
        ¬w.Shadowed dir := by
  constructor
  · intro h
    refine ⟨fun above habove => h.inner above List.nil_prefix habove, ?_⟩
    rintro ⟨other, hother, hlt, hrefused, heq⟩
    exact h.denied other hother hlt hrefused heq
  · rintro ⟨hinner, hshadowed⟩
    refine ⟨by simp, fun above _ => hinner above, ?_⟩
    intro other hother hlt hrefused heq
    exact hshadowed ⟨other, hother, hlt, hrefused, heq⟩

/-! ## Which sights a walk has -/

section Sights

variable (hd : w.disk.tree.wellFormed = true) (hroot : w.Opens [])
include hd hroot

theorem turn_mem_iff {dir : List FileName} {name : FileName} :
    .turn (dir ++ [name]) ∈ w.sights ↔
      .listing dir ∈ w.sights ∧ ¬w.Refused dir ∧ w.Holds dir name :=
  (course_sights hd hroot dir (List.nil_prefix)).turn_iff name

/-- A walk asks for the names in a directory if it would do so without refusals, unless
the directory is denied or in a lost one. -/
theorem listing_mem_iff {dir : List FileName} :
    .listing dir ∈ w.sights ↔ w.Enters dir ∧
      (∀ above, above <+: dir → above ≠ dir → ¬w.Lost above) ∧ ¬w.Shadowed dir := by
  -- The rules of the course lead from a directory to the one above.
  induction dir using List.reverseRecOn with
  | nil =>
      rw [(course_sights hd hroot [] List.nil_prefix).listing_iff, fresh_iff]
      have hself : ∀ above : List FileName, above <+: [] → above ≠ [] → False :=
        fun above habove hne => hne (List.prefix_nil.1 habove)
      constructor
      · rintro ⟨-, hopens, -, hshadowed⟩
        exact ⟨enters_nil hopens, fun above h h' => absurd h' (by simpa using h), hshadowed⟩
      · rintro ⟨-, -, hshadowed⟩
        exact ⟨.inl rfl, hroot, fun above h h' => (hself above h h').elim, hshadowed⟩
  | append_singleton dir name ih =>
      rw [(course_sights hd hroot _ List.nil_prefix).listing_iff, fresh_iff,
        enters_snoc hd]
      have hcomes : Comes [] w.sights (dir ++ [name]) ↔
          .turn (dir ++ [name]) ∈ w.sights := by
        simp [Comes]
      rw [hcomes, turn_mem_iff hd hroot, ih]
      constructor
      · rintro ⟨⟨⟨henters, hlost, hdir⟩, hrefused, hholds⟩, hopens, hinner, hshadowed⟩
        refine ⟨⟨henters, hholds, hopens, fun above habove => ?_⟩, fun above habove hne => ?_,
          hshadowed⟩
        · refine hinner above (habove.trans (List.prefix_append _ _)) ?_
          rintro rfl
          exact not_prefix_self habove
        · rcases prefix_snoc_iff.1 habove with habove | heq
          · by_cases hsame : above = dir
            · subst hsame
              exact fun h => h.elim hrefused hdir
            · exact hlost above habove hsame
          · exact absurd heq hne
      · rintro ⟨⟨henters, hholds, hopens, hapart⟩, hlost, hshadowed⟩
        have habove : ∀ above, above <+: dir → ¬w.Lost above := by
          intro above habove
          refine hlost above (habove.trans (List.prefix_append _ _)) ?_
          rintro rfl
          exact not_prefix_self habove
        have hdir := habove dir (List.prefix_refl _)
        refine ⟨⟨⟨henters, fun above h _ => habove above h, fun h => hdir (.inr h)⟩,
          fun h => hdir (.inl h), hholds⟩, hopens, fun above h hne => ?_, hshadowed⟩
        exact hapart above ((prefix_snoc_iff.1 h).resolve_right hne)

theorem came_iff {dir : List FileName} {name : FileName} :
    Comes [] w.sights (dir ++ [name]) ↔ w.Enters dir ∧ w.Holds dir name ∧
      ∀ above, above <+: dir → ¬w.Lost above := by
  have hcomes : Comes [] w.sights (dir ++ [name]) ↔
      .turn (dir ++ [name]) ∈ w.sights := by
    simp [Comes]
  rw [hcomes, turn_mem_iff hd hroot, listing_mem_iff hd hroot]
  constructor
  · rintro ⟨⟨henters, hlost, hshadowed⟩, hrefused, hholds⟩
    refine ⟨henters, hholds, fun above habove => ?_⟩
    by_cases hsame : above = dir
    · subst hsame
      exact fun h => h.elim hrefused hshadowed
    · exact hlost above habove hsame
  · rintro ⟨henters, hholds, hlost⟩
    have hdir := hlost dir (List.prefix_refl _)
    exact ⟨⟨henters, fun above h _ => hlost above h, fun h => hdir (.inr h)⟩,
      fun h => hdir (.inl h), hholds⟩

theorem file_mem_iff {dir : List FileName} {name : FileName} {size : Nat} :
    .file (dir ++ [name]) size ∈ w.sights ↔
      (w.Enters dir ∧ ∀ above, above <+: dir → ¬w.Lost above) ∧
      FileTree.isEntryName name = true ∧ ∃ place content,
        w.Accepts (dir ++ [name]) place (.file content) ∧ content.length = size := by
  rw [(course_sights hd hroot _ List.nil_prefix).file_iff, came_iff hd hroot]
  constructor
  · rintro ⟨⟨henters, hholds, hlost⟩, haccepts⟩
    exact ⟨⟨henters, hlost⟩, hholds.isEntryName hd, haccepts⟩
  · rintro ⟨⟨henters, hlost⟩, hname, place, content, haccepts, hsize⟩
    exact ⟨⟨henters, holds_of_reaches hd hname haccepts.reaches, hlost⟩, place, content,
      haccepts, hsize⟩

theorem misnamed_mem_iff {dir : List FileName} {name : FileName} :
    .misnamed (dir ++ [name]) ∈ w.sights ↔
      (w.Enters dir ∧ ∀ above, above <+: dir → ¬w.Lost above) ∧ w.Holds dir name ∧
        (Path.joined (dir ++ [name])).text? = none := by
  rw [(course_sights hd hroot _ List.nil_prefix).misnamed_iff, came_iff hd hroot]
  constructor
  · rintro ⟨⟨henters, hholds, hlost⟩, htext⟩
    exact ⟨⟨henters, hlost⟩, hholds, htext⟩
  · rintro ⟨⟨henters, hlost⟩, hholds, htext⟩
    exact ⟨⟨henters, hholds, hlost⟩, htext⟩

theorem listing_root_mem : .listing [] ∈ w.sights := by
  refine (listing_mem_iff hd hroot).2 ⟨enters_nil hroot, fun above habove hne => ?_, ?_⟩
  · exact absurd (List.prefix_nil.1 habove) hne
  · rintro ⟨other, -, hlt, -⟩
    cases hlt

theorem failure_mem_iff {names : List FileName} {e : ScanError} :
    .failure names e ∈ w.sights ↔ names = [] ∧
      ∃ cause, w.disk.list (w.pathOf []) = .error cause ∧ e = .rootUnreadable cause := by
  rw [(course_sights hd hroot names List.nil_prefix).failure_iff]
  refine and_congr_right fun hnames => ?_
  subst hnames
  exact and_iff_right (listing_root_mem hd hroot)

theorem sights_of_refused_root {cause : DiskError}
    (hlist : w.disk.list (w.pathOf []) = .error cause) :
    w.sights = [.listing [], .failure [] (.rootUnreadable cause)] := by
  obtain ⟨place, children, hreach, -⟩ := hroot
  have hreal : w.real [] = .ok (absolute place) := hreach.resolve hd
  unfold sights
  rw [dirSights_refused hreal List.not_mem_nil hlist]
  rfl

theorem entry_names {x : Sight} (hx : x ∈ w.sights) (hentry : x.isEntry = true) :
    ∃ dir name, x.names = dir ++ [name] ∧ w.Enters dir ∧
      FileTree.isEntryName name = true := by
  have hkeeps := course_sights hd hroot [] List.nil_prefix
  rcases List.eq_nil_or_concat' x.names with hnil | ⟨dir, name, h⟩
  · exfalso
    cases x with
    | misnamed names =>
        obtain rfl : names = [] := hnil
        exact hroot.text?_ne_none (hkeeps.misnamed_iff.1 hx).2
    | file names size =>
        obtain rfl : names = [] := hnil
        obtain ⟨-, _, _, h, -⟩ := (hkeeps.file_iff size).1 hx
        exact hroot.not_file h
    | listing dir => cases hentry
    | turn names => cases hentry
    | failure names e => cases hentry
  · refine ⟨dir, name, h, ?_⟩
    cases x with
    | misnamed names =>
        obtain rfl : names = dir ++ [name] := h
        obtain ⟨⟨henters, -⟩, hholds, -⟩ := (misnamed_mem_iff hd hroot).1 hx
        exact ⟨henters, hholds.isEntryName hd⟩
    | file names size =>
        obtain rfl : names = dir ++ [name] := h
        obtain ⟨⟨henters, -⟩, hname, -⟩ := (file_mem_iff hd hroot).1 hx
        exact ⟨henters, hname⟩
    | listing dir => cases hentry
    | turn names => cases hentry
    | failure names e => cases hentry

theorem named_of_entry {x : Sight} (hx : x ∈ w.sights) (hentry : x.isEntry = true) :
    x.names ≠ [] ∧ ∀ name ∈ x.names, FileTree.isEntryName name = true := by
  obtain ⟨dir, name, heq, henters, hname⟩ := entry_names hd hroot hx hentry
  rw [heq]
  refine ⟨by simp, fun other hother => ?_⟩
  rcases List.mem_append.1 hother with hother | hother
  · exact henters.named other hother
  · rw [List.mem_singleton.1 hother]
    exact hname

end Sights

end Walk

end SourceScan
