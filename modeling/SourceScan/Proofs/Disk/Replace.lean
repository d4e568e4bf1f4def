import SourceScan.Proofs.Disk.Change
import SourceScan.Proofs.Disk.Twins

/-!
# Replacing and removing a file

Putting a file into a directory and removing one from it are edits of the entries of that
directory, at a single name.  So the tree before and the tree after are alike but for one
place, and a look-up ends at the same place in both.
-/

namespace SourceScan

theorem Assoc.keys_put {α β : Type} [DecidableEq α] (key : α) (value : β)
    (entries : List (α × β)) : (put key value entries).map (·.1) =
      if key ∈ entries.map (·.1) then entries.map (·.1) else entries.map (·.1) ++ [key] := by
  induction entries with
  | nil => simp [put]
  | cons e es ih =>
      by_cases he : e.1 = key
      · simp [put, he]
      · rw [put, if_neg he, List.map_cons, ih]
        simp only [List.map_cons, List.mem_cons, Ne.symm he, false_or]
        split <;> rfl

namespace FileTree

variable {new root root' t : FileTree} {p q place last : Place} {name : FileName}
  {children : List (FileName × FileTree)}
  {f : List (FileName × FileTree) → List (FileName × FileTree)}

/-! ## Editing a directory -/

def edit (f : List (FileName × FileTree) → List (FileName × FileTree)) :
    Place → FileTree → FileTree
  | [], .dir children => .dir (f children)
  | name :: place, .dir children =>
      match Assoc.get? name children with
      | some t => .dir (Assoc.put name (edit f place t) children)
      | none => .dir children
  | _, t => t

theorem put_snoc (new : FileTree) (hdir : root.at? place = some (.dir children)) :
    put new (place ++ [name]) root = edit (Assoc.put name new) place root := by
  induction place generalizing root with
  | nil =>
      cases hdir
      rfl
  | cons first place ih =>
      obtain ⟨u, hchild, hat⟩ := Option.bind_eq_some_iff.1 hdir
      cases root with
      | dir entries =>
          have hget : Assoc.get? first entries = some u := hchild
          simp only [List.cons_append, put, edit, hget, Option.getD_some, ih hat]
      | file content => cases hchild
      | link target => cases hchild
      | pipe => cases hchild

theorem erase_snoc (root : FileTree) (place : Place) (name : FileName) :
    erase (place ++ [name]) root = edit (Assoc.erase name) place root := by
  induction place generalizing root with
  | nil => cases root <;> rfl
  | cons first place ih =>
      obtain ⟨second, rest, heq⟩ := List.exists_cons_of_ne_nil (l := place ++ [name]) (by simp)
      cases root with
      | dir entries =>
          rw [List.cons_append, heq, edit]
          cases hget : Assoc.get? first entries with
          | none => simp [erase, hget]
          | some u => simp [erase, hget, ← heq, ih]
      | file content => simp [erase, edit]
      | link target => simp [erase, edit]
      | pipe => simp [erase, edit]

theorem at?_edit (hdir : root.at? place = some (.dir children)) (rest : Place) :
    (edit f place root).at? (place ++ rest) = (FileTree.dir (f children)).at? rest := by
  induction place generalizing root with
  | nil =>
      cases hdir
      rfl
  | cons first place ih =>
      obtain ⟨u, hchild, hat⟩ := Option.bind_eq_some_iff.1 hdir
      cases root with
      | dir entries =>
          have hget : Assoc.get? first entries = some u := hchild
          simp only [edit, hget, List.cons_append, at?_cons_dir, Assoc.get?_put, if_true,
            Option.bind_some, ih hat]
      | file content => cases hchild
      | link target => cases hchild
      | pipe => cases hchild

theorem face_edit (hf : ∀ children other, other ≠ name →
      Assoc.get? other (f children) = Assoc.get? other children)
    (hq : ¬(place ++ [name]) <+: q) :
    ((edit f place root).at? q).map face = (root.at? q).map face := by
  induction place generalizing root q with
  | nil =>
      cases root with
      | dir entries =>
          cases q with
          | nil => rfl
          | cons other q =>
              have hne : other ≠ name := by
                rintro rfl
                exact hq ⟨q, rfl⟩
              rw [edit, at?_cons_dir, at?_cons_dir, hf entries other hne]
      | file content => rfl
      | link target => rfl
      | pipe => rfl
  | cons first place ih =>
      cases root with
      | dir entries =>
          rw [edit]
          cases hget : Assoc.get? first entries with
          | none => rfl
          | some u =>
              cases q with
              | nil => rfl
              | cons other q =>
                  simp only [at?_cons_dir, Assoc.get?_put]
                  -- The edit is made below this entry, or below another one.
                  by_cases hother : first = other
                  · subst hother
                    rw [if_pos rfl, hget]
                    refine ih fun hprefix => hq ?_
                    rwa [List.cons_append, List.cons_prefix_cons, and_iff_right rfl]
                  · rw [if_neg hother]
      | file content => rfl
      | link target => rfl
      | pipe => rfl

theorem wellFormed_putEntry (hdir : (FileTree.dir children).wellFormed = true)
    (hname : isEntryName name = true) (ht : t.wellFormed = true) :
    (FileTree.dir (Assoc.put name t children)).wellFormed = true := by
  have hall : ∀ entries : List (FileName × FileTree), wellFormedAll entries = true →
      wellFormedAll (Assoc.put name t entries) = true := by
    intro entries
    induction entries with
    | nil => simp [Assoc.put, wellFormedAll, hname, ht]
    | cons e es ih =>
        obtain ⟨key, u⟩ := e
        intro h
        simp only [wellFormedAll, Bool.and_eq_true] at h
        rw [Assoc.put]
        split
        · simp only [wellFormedAll, hname, ht, h.2, Bool.and_self]
        · simp only [wellFormedAll, h.1.1, h.1.2, ih h.2, Bool.and_self]
  simp only [wellFormed, Bool.and_eq_true, decide_eq_true_eq] at hdir ⊢
  refine ⟨?_, hall children hdir.2⟩
  rw [Assoc.keys_put]
  split
  · exact hdir.1
  · next hnew =>
      refine List.nodup_append.2 ⟨hdir.1, List.nodup_singleton _, ?_⟩
      intro a ha b hb hab
      rw [hab, List.mem_singleton.1 hb] at ha
      exact hnew ha

theorem wellFormed_eraseEntry (name : FileName)
    (hdir : (FileTree.dir children).wellFormed = true) :
    (FileTree.dir (Assoc.erase name children)).wellFormed = true := by
  have hall : ∀ entries : List (FileName × FileTree), wellFormedAll entries = true →
      wellFormedAll (Assoc.erase name entries) = true := by
    intro entries
    induction entries with
    | nil => exact id
    | cons e es ih =>
        obtain ⟨key, u⟩ := e
        intro h
        simp only [wellFormedAll, Bool.and_eq_true] at h
        rw [Assoc.erase, List.filter_cons]
        split
        · simp only [wellFormedAll, h.1.1, h.1.2, Bool.and_self, Bool.true_and]
          exact ih h.2
        · exact ih h.2
  simp only [wellFormed, Bool.and_eq_true, decide_eq_true_eq] at hdir ⊢
  exact ⟨hdir.1.sublist (List.filter_sublist.map _), hall children hdir.2⟩

theorem wellFormed_edit (hf : ∀ children, (FileTree.dir children).wellFormed = true →
      (FileTree.dir (f children)).wellFormed = true)
    (hroot : root.wellFormed = true) : (edit f place root).wellFormed = true := by
  induction place generalizing root with
  | nil =>
      cases root with
      | dir entries => exact hf entries hroot
      | file content => exact hroot
      | link target => exact hroot
      | pipe => exact hroot
  | cons first place ih =>
      cases root with
      | dir entries =>
          rw [edit]
          cases hget : Assoc.get? first entries with
          | none => exact hroot
          | some u =>
              have hentry : isEntryName first = true ∧ u.wellFormed = true := by
                simp only [wellFormed, Bool.and_eq_true] at hroot
                exact wellFormed_of_mem hroot.2 (mem_of_get? hget)
              exact wellFormed_putEntry hroot hentry.1 (ih hentry.2)
      | file content => exact hroot
      | link target => exact hroot
      | pipe => exact hroot

/-! ## Trees that are alike but for a file -/

theorem at?_below (hfile : ∀ u, root.at? p = some u → u.isDirectory = false)
    (hq : p <+: q) (hne : q ≠ p) : root.at? q = none := by
  obtain ⟨rest, rfl⟩ := hq
  rw [at?_append]
  cases hat : root.at? p with
  | none => rfl
  | some u =>
      cases rest with
      | nil => exact absurd (List.append_nil p) hne
      | cons name rest =>
          cases u with
          | dir children => cases hfile _ hat
          | file content => rfl
          | link target => rfl
          | pipe => rfl

theorem alikeBut_of_face
    (hsame : ∀ q, ¬p <+: q → (root.at? q).map face = (root'.at? q).map face)
    (hfile : ∀ u, root.at? p = some u → u.isDirectory = false)
    (hfile' : ∀ u, root'.at? p = some u → u.isDirectory = false) :
    AlikeBut (· = p) root root' := by
  refine ⟨fun q hq => ?_, ?_, ?_⟩
  · by_cases hprefix : p <+: q
    · rw [at?_below hfile hprefix hq, at?_below hfile' hprefix hq]
    · exact hsame q hprefix
  · rintro place u rfl hat
    exact hfile u hat
  · rintro place u rfl hat
    exact hfile' u hat

theorem at?_put (new : FileTree) (hdir : root.at? place = some (.dir children)) :
    (put new (place ++ [name]) root).at? (place ++ [name]) = some new := by
  rw [put_snoc new hdir, at?_edit hdir, at?_cons_dir, Assoc.get?_put, if_pos rfl]
  rfl

theorem at?_erase (root : FileTree) (hdir : root.at? place = some (.dir children)) :
    (erase (place ++ [name]) root).at? (place ++ [name]) = none := by
  rw [erase_snoc, at?_edit hdir, at?_cons_dir, Assoc.get?_erase, if_pos rfl]
  rfl

theorem alikeBut_put (hdir : root.at? place = some (.dir children))
    (hfile : ∀ u, root.at? (place ++ [name]) = some u → u.isDirectory = false)
    (hnew : new.isDirectory = false) :
    AlikeBut (· = place ++ [name]) root (put new (place ++ [name]) root) := by
  refine alikeBut_of_face (fun q hq => ?_) hfile fun u hat => ?_
  · rw [put_snoc new hdir]
    refine (face_edit (fun entries other hother => ?_) hq).symm
    rw [Assoc.get?_put, if_neg hother.symm]
  · rw [at?_put new hdir] at hat
    cases hat
    exact hnew

theorem alikeBut_erase (hdir : root.at? place = some (.dir children))
    (hfile : ∀ u, root.at? (place ++ [name]) = some u → u.isDirectory = false) :
    AlikeBut (· = place ++ [name]) root (erase (place ++ [name]) root) := by
  refine alikeBut_of_face (fun q hq => ?_) hfile fun u hat => ?_
  · rw [erase_snoc]
    refine (face_edit (fun entries other hother => ?_) hq).symm
    rw [Assoc.get?_erase, if_neg hother.symm]
  · rw [at?_erase root hdir] at hat
    cases hat

theorem wellFormed_put (hroot : root.wellFormed = true)
    (hdir : root.at? place = some (.dir children)) (hname : isEntryName name = true)
    (hnew : new.wellFormed = true) : (put new (place ++ [name]) root).wellFormed = true := by
  rw [put_snoc new hdir]
  exact wellFormed_edit (fun entries h => wellFormed_putEntry h hname hnew) hroot

theorem wellFormed_erase (hroot : root.wellFormed = true) (place : Place) (name : FileName) :
    (erase (place ++ [name]) root).wellFormed = true := by
  rw [erase_snoc]
  exact wellFormed_edit (fun entries => wellFormed_eraseEntry name) hroot

theorem isDirectory_face (t : FileTree) : t.face.isDirectory = t.isDirectory := by
  cases t <;> rfl

namespace AlikeBut

variable {hidden hidden' : Place → Prop} {t' t'' : FileTree}

theorem trans (h : AlikeBut hidden t t') (h' : AlikeBut hidden' t' t'') :
    AlikeBut (fun place => hidden place ∨ hidden' place) t t'' := by
  have hfile : ∀ {u v : FileTree}, u.face = v.face → v.isDirectory = false →
      u.isDirectory = false := by
    intro u v hface hv
    rw [← isDirectory_face, hface, isDirectory_face, hv]
  refine ⟨fun place hplace => ?_, fun place u hplace hat => ?_, fun place u hplace hat => ?_⟩
  · rw [not_or] at hplace
    rw [h.same place hplace.1, h'.same place hplace.2]
  · by_cases hhidden : hidden place
    · exact h.left place u hhidden hat
    · obtain ⟨v, hv, hface⟩ := h.at?_of_face hhidden hat
      exact hfile hface.symm (h'.left place v (hplace.resolve_left hhidden) hv)
  · by_cases hhidden : hidden' place
    · exact h'.right place u hhidden hat
    · obtain ⟨v, hv, hface⟩ := h'.symm.at?_of_face hhidden hat
      exact hfile hface.symm (h.right place v (hplace.resolve_right hhidden) hv)

theorem mono (h : AlikeBut hidden t t') (hsub : ∀ place, hidden' place → hidden place)
    (hnone : ∀ place, hidden place → ¬hidden' place →
      t.at? place = none ∧ t'.at? place = none) : AlikeBut hidden' t t' := by
  refine ⟨fun place hplace => ?_, fun place u hplace => h.left place u (hsub place hplace),
    fun place u hplace => h.right place u (hsub place hplace)⟩
  by_cases hhidden : hidden place
  · obtain ⟨hleft, hright⟩ := hnone place hhidden hplace
    rw [hleft, hright]
  · exact h.same place hhidden

theorem linkFree (h : AlikeBut hidden t t') (ht : t.LinkFree)
    (hhidden : ∀ place target, hidden place → t'.at? place ≠ some (.link target)) :
    t'.LinkFree := by
  intro place target hat
  by_cases hplace : hidden place
  · exact hhidden place target hplace hat
  · obtain ⟨u, hu, hface⟩ := h.symm.at?_of_face hplace hat
    cases u <;> cases hface
    exact ht place _ hu

end AlikeBut

/-! ## Looking up without links -/

theorem descend_append (place : Place) (names more : List FileName) :
    descend place (names ++ more) = descend (descend place names) more := by
  induction names generalizing place with
  | nil => rw [List.nil_append, descend]
  | cons name names ih =>
      rw [List.cons_append, descend, descend]
      split
      · exact ih place
      · split
        · exact ih _
        · exact ih _

theorem descend_snoc (names : List FileName) (hhere : staysHere name = false)
    (hdots : name ≠ Path.dotDot) :
    descend place (names ++ [name]) = descend place names ++ [name] := by
  rw [descend_append, descend, hhere, if_neg Bool.false_ne_true, if_neg hdots, descend]

theorem length_descend_le (place : Place) (names : List FileName) :
    (descend place names).length ≤ place.length + names.length := by
  induction names generalizing place with
  | nil => exact Nat.le_refl _
  | cons name names ih =>
      rw [descend, List.length_cons]
      split
      · exact (ih place).trans (by omega)
      · split
        · refine (ih _).trans ?_
          rw [List.length_dropLast]
          omega
        · refine (ih _).trans ?_
          rw [List.length_append, List.length_singleton]
          omega

namespace LinkFree

variable {names : List FileName} {follow : Bool} {links : Nat} {found : Option FileTree}

theorem place_of_findFrom (h : root.LinkFree)
    (hfind : root.findFrom follow links place names = .ok (last, found)) :
    last = descend place names := by
  fun_induction findFrom root follow links place names with
  | case1 links place =>
      cases hfind
      rw [descend]
  | case2 => cases hfind
  | case3 links place name names children hdir hhere ih =>
      rw [descend, if_pos hhere]
      exact ih hfind
  | case4 links place names children hdir hhere ih =>
      rw [descend, if_neg hhere, if_pos rfl]
      exact ih hfind
  | case5 => cases hfind
  | case6 links place name names children hdir hhere hdots hlong hnone hlast =>
      cases hfind
      obtain rfl : names = [] := List.isEmpty_iff.1 hlast
      rw [descend, if_neg hhere, if_neg hdots, descend]
  | case7 => cases hfind
  | case8 links place name names children hdir hhere hdots hlong target hat =>
      exact absurd hat (h _ _)
  | case9 => cases hfind
  | case10 place name names children hdir hhere hdots hlong target hat =>
      exact absurd hat (h _ _)
  | case11 links place name names children hdir hhere hdots hlong t hat hplain ih =>
      rw [descend, if_neg hhere, if_neg hdots]
      exact ih hfind
  | case12 => cases hfind

theorem directory_of_findFrom (h : root.LinkFree)
    (hfind : root.findFrom follow links place (names ++ [name]) = .ok (last, found)) :
    ∃ children, root.at? (descend place names) = some (.dir children) := by
  induction names generalizing place with
  | nil =>
      rw [List.nil_append, findFrom] at hfind
      rw [descend]
      cases hat : root.at? place with
      | none => simp [hat] at hfind
      | some t =>
          cases t with
          | dir children => exact ⟨children, rfl⟩
          | file content => simp [hat] at hfind
          | link target => simp [hat] at hfind
          | pipe => simp [hat] at hfind
  | cons first names ih =>
      rw [List.cons_append, findFrom] at hfind
      rw [descend]
      split at hfind
      · cases hfind
      · split at hfind
        · next hhere =>
            rw [if_pos hhere]
            exact ih hfind
        · next hhere =>
            rw [if_neg hhere]
            split at hfind
            · next hdots =>
                rw [if_pos hdots]
                exact ih hfind
            · next hdots =>
                rw [if_neg hdots]
                split at hfind
                · cases hfind
                · split at hfind
                  · simp at hfind
                  · next hat => exact absurd hat (h _ _)
                  · exact ih hfind
      · cases hfind

end LinkFree

end FileTree

end SourceScan
