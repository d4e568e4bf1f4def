import SourceScan.Path
import SourceScan.Proofs.Disk.Tree

/-!
# Paths made of entry names

The names of entries can be joined into one text and read back from it.
-/

namespace SourceScan

theorem Text.splitOn_eq {α : Type} [DecidableEq α] (sep : α) (s : List α) :
    Text.splitOn sep s = s.splitOn sep := by
  have hgo : ∀ (s word : List α) (words : List (List α)),
      Text.splitOn.go sep s word words =
        words.reverse ++ s.splitOnPPrepend (· == sep) word := by
    intro s
    induction s with
    | nil =>
        intro word words
        simp [Text.splitOn.go]
    | cons c s ih =>
        intro word words
        by_cases hc : c = sep
        · rw [Text.splitOn.go, if_pos hc, ih, List.splitOnPPrepend_cons_pos (by simpa using hc)]
          simp
        · rw [Text.splitOn.go, if_neg hc, ih, List.splitOnPPrepend_cons_neg (by simpa using hc)]
  rw [Text.splitOn, hgo]
  rfl

theorem Text.splitOn_cons {α : Type} [DecidableEq α] (sep c : α) (s : List α) :
    Text.splitOn sep (c :: s) =
      if c = sep then [] :: Text.splitOn sep s else (Text.splitOn sep s).modifyHead (c :: ·) := by
  simp only [Text.splitOn_eq, List.splitOn_cons_eq_if_modifyHead, beq_iff_eq]

theorem Text.splitOn_append_cons {α : Type} [DecidableEq α] (sep : α) (s t : List α) :
    Text.splitOn sep (s ++ sep :: t) = Text.splitOn sep s ++ Text.splitOn sep t := by
  rw [Text.splitOn_eq, Text.splitOn_eq, Text.splitOn_eq, List.splitOn_append_cons_self]

theorem Text.not_mem_of_mem_splitOn {α : Type} [DecidableEq α] {sep : α} {s piece : List α}
    (h : piece ∈ Text.splitOn sep s) : sep ∉ piece := by
  have hgo : ∀ (s word : List α) (words : List (List α)), sep ∉ word →
      (∀ piece ∈ words, sep ∉ piece) →
      ∀ piece ∈ Text.splitOn.go sep s word words, sep ∉ piece := by
    intro s
    induction s with
    | nil =>
        intro word words hword hwords piece hpiece
        rw [Text.splitOn.go, List.mem_reverse] at hpiece
        rcases List.mem_cons.1 hpiece with rfl | hpiece
        · simpa using hword
        · exact hwords piece hpiece
    | cons c s ih =>
        intro word words hword hwords
        rw [Text.splitOn.go]
        split
        · refine ih [] _ (by simp) fun piece hpiece => ?_
          rcases List.mem_cons.1 hpiece with rfl | hpiece
          · simpa using hword
          · exact hwords piece hpiece
        · rename_i hc
          exact ih _ words (by simp [Ne.symm hc, hword]) hwords
  exact hgo s [] [] (by simp) (by simp) piece h

theorem Text.mem_of_mem_splitOn {α : Type} [DecidableEq α] {sep c : α} {s piece : List α}
    (h : piece ∈ Text.splitOn sep s) (hc : c ∈ piece) : c ∈ s := by
  induction s generalizing piece with
  | nil =>
      rw [Text.splitOn_eq, List.splitOn_nil, List.mem_singleton] at h
      rw [h] at hc
      cases hc
  | cons d s ih =>
      rw [Text.splitOn_cons] at h
      split at h
      · rcases List.mem_cons.1 h with rfl | h
        · cases hc
        · exact List.mem_cons_of_mem _ (ih h hc)
      · cases hsplit : Text.splitOn sep s with
        | nil => simp [hsplit] at h
        | cons first rest =>
            rw [hsplit] at ih h
            rcases List.mem_cons.1 h with rfl | h
            · rcases List.mem_cons.1 hc with rfl | hc
              · exact List.mem_cons_self
              · exact List.mem_cons_of_mem _ (ih List.mem_cons_self hc)
            · exact List.mem_cons_of_mem _ (ih (List.mem_cons_of_mem _ h) hc)

namespace Path

open FileTree

variable {names names' : List FileName}

theorem slash_not_mem {name : FileName} (h : isEntryName name = true) : slash ∉ name :=
  (isEntryName_iff.1 h).2.2.1.1

theorem ne_nil_of_isEntryName {name : FileName} (h : isEntryName name = true) :
    name ≠ [] ∧ name ≠ [dot] := by
  have hstays := (isEntryName_iff.1 h).1
  simpa [staysHere] using hstays

theorem joined_cons (name : FileName) (hne : names ≠ []) :
    joined (name :: names) = name ++ slash :: joined names := by
  rw [joined, List.intercalate_cons_of_ne_nil hne, List.append_assoc]
  rfl

theorem joined_eq_append (name : FileName) (names : List FileName) :
    ∃ rest, joined (name :: names) = name ++ rest := by
  cases names with
  | nil => exact ⟨[], by rw [joined_singleton, List.append_nil]⟩
  | cons next names => exact ⟨_, joined_cons name (by simp)⟩

theorem joined_snoc (name : FileName) (hne : names ≠ []) :
    joined (names ++ [name]) = joined names ++ slash :: name := by
  induction names with
  | nil => exact absurd rfl hne
  | cons first names ih =>
      rw [List.cons_append, joined_cons first (by simp)]
      cases names with
      | nil => simp [joined_singleton]
      | cons second names =>
          rw [ih (by simp), joined_cons first (by simp), List.append_assoc]
          rfl

theorem splitOn_joined (h : ∀ name ∈ names, isEntryName name = true) (hne : names ≠ []) :
    Text.splitOn slash (joined names) = names := by
  rw [Text.splitOn_eq]
  exact List.splitOn_intercalate slash (fun name hname => slash_not_mem (h name hname)) hne

theorem joined_injective (h : ∀ name ∈ names, isEntryName name = true)
    (h' : ∀ name ∈ names', isEntryName name = true) (hne : names ≠ []) (hne' : names' ≠ [])
    (heq : joined names = joined names') : names = names' := by
  rw [← splitOn_joined h hne, heq, splitOn_joined h' hne']

theorem parse_joined (h : ∀ name ∈ names, isEntryName name = true) (hne : names ≠ []) :
    parse (joined names) = ⟨0, names⟩ := by
  have hslashes : rootSlashes (joined names) = 0 := by
    cases names with
    | nil => exact absurd rfl hne
    | cons name names =>
        have hname := h name List.mem_cons_self
        cases name with
        | nil => exact absurd rfl (ne_nil_of_isEntryName hname).1
        | cons u name =>
            have hu : u ≠ slash := fun heq =>
              slash_not_mem hname (heq ▸ List.mem_cons_self)
            obtain ⟨rest, hrest⟩ := joined_eq_append (u :: name) names
            rw [hrest, List.cons_append, rootSlashes,
              List.takeWhile_cons_of_neg (by simpa using hu)]
            rfl
  have hfilter : names.filter (fun name => name ≠ [] && name ≠ [dot]) = names := by
    rw [List.filter_eq_self]
    intro name hname
    simpa using ne_nil_of_isEntryName (h name hname)
  rw [parse, hslashes, splitOn_joined h hne, hfilter]

theorem mem_of_mem_parse {s : RawText} {name : FileName} {u : TextUnit}
    (h : name ∈ (parse s).names) (hu : u ∈ name) : u ∈ s :=
  Text.mem_of_mem_splitOn (List.mem_filter.1 h).1 hu

theorem names_of_parse {s : RawText} {name : FileName} (h : name ∈ (parse s).names) :
    name ≠ [] ∧ name ≠ [dot] ∧ slash ∉ name := by
  obtain ⟨hpiece, hkept⟩ := List.mem_filter.1 h
  simp only [ne_eq, Bool.and_eq_true, decide_eq_true_eq] at hkept
  exact ⟨hkept.1, hkept.2, Text.not_mem_of_mem_splitOn hpiece⟩

end Path

end SourceScan
