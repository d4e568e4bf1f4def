import SourceScan.Language.Extract
import SourceScan.Proofs.Rule.Leads
import SourceScan.Proofs.Walk.Sight

/-!
# What is extracted, line by line

Both extractions go through the lines of a text one after another: one of them remembers what it
has found, the other one stops at a limit.  What they find in two texts, one below the other, can
be told from what they find in each, and the blanks around a line make no difference.
-/

namespace SourceScan

variable {selects : Text → Bool} {line s : Text} {lines found : List Text} {limit : Int}

/-! ## Blanks around a line -/

def Pads (core line : Text) : Prop :=
  ∃ before after, before.all Text.isBlank = true ∧ after.all Text.isBlank = true ∧
    line = before ++ core ++ after

def SameButEnds (a b : Text) : Prop :=
  List.Forall₂ (fun l m => ∃ core, Pads core l ∧ Pads core m)
    (Text.splitOn '\n' a) (Text.splitOn '\n' b)

def Text.withReturns (a : Text) : Text := a.flatMap fun c => if c = '\n' then ['\r', '\n'] else [c]

theorem Pads.refl (line : Text) : Pads line line := ⟨[], [], rfl, rfl, by simp⟩

theorem Text.dropEndWhile_append_of_all {α : Type} {p : α → Bool} {t : List α} (s : List α)
    (h : t.all p = true) : Text.dropEndWhile p (s ++ t) = Text.dropEndWhile p s := by
  have hdrop : ∀ c ∈ t.reverse, p c = true := by simpa using h
  rw [Text.dropEndWhile, List.reverse_append, List.dropWhile_append_of_pos hdrop,
    Text.dropEndWhile]

theorem Pads.strip_eq {core line : Text} (h : Pads core line) :
    Text.strip line = Text.strip core := by
  obtain ⟨before, after, hbefore, hafter, rfl⟩ := h
  have hstart : ((before ++ core) ++ after).dropWhile Text.isBlank =
      (core ++ after).dropWhile Text.isBlank := by
    rw [List.append_assoc]
    exact List.dropWhile_append_of_pos (List.all_eq_true.mp hbefore)
  unfold Text.strip Text.trim
  rw [hstart, List.dropWhile_append]
  split
  · next hblank =>
      -- the core is blank, and so is all that follows it
      have hnil : after.dropWhile Text.isBlank = [] :=
        List.dropWhile_eq_nil_iff.mpr (List.all_eq_true.mp hafter)
      rw [hnil, List.isEmpty_iff.mp hblank]
  · exact Text.dropEndWhile_append_of_all _ hafter

theorem SameButEnds.map_strip {a b : Text} (h : SameButEnds a b) :
    (Text.splitOn '\n' a).map Text.strip = (Text.splitOn '\n' b).map Text.strip := by
  have hsame : List.Forall₂ Eq ((Text.splitOn '\n' a).map Text.strip)
      ((Text.splitOn '\n' b).map Text.strip) := by
    rw [List.forall₂_map_left_iff, List.forall₂_map_right_iff]
    apply h.imp
    intro l m hcore
    obtain ⟨core, hl, hm⟩ := hcore
    rw [hl.strip_eq, hm.strip_eq]
  rwa [List.forall₂_eq_eq_eq] at hsame

theorem forall₂_withReturns (a : Text) :
    List.Forall₂ (fun l m => m = l ∨ m = l ++ ['\r'])
      (Text.splitOn '\n' a) (Text.splitOn '\n' (Text.withReturns a)) := by
  induction a with
  | nil => exact .cons (.inl rfl) .nil
  | cons c a ih =>
      by_cases hc : c = '\n'
      · have hreturns : Text.withReturns (c :: a) =
            '\r' :: '\n' :: Text.withReturns a := by
          simp [Text.withReturns, hc]
        rw [hreturns, Text.splitOn_cons, if_pos hc, Text.splitOn_cons, if_neg (by decide),
          Text.splitOn_cons, if_pos rfl]
        exact .cons (.inr rfl) ih
      · have hreturns : Text.withReturns (c :: a) = c :: Text.withReturns a := by
          simp [Text.withReturns, hc]
        rw [hreturns, Text.splitOn_cons, if_neg hc, Text.splitOn_cons, if_neg hc]
        generalize Text.splitOn '\n' a = lines, Text.splitOn '\n' (Text.withReturns a) = more at ih
        cases ih with
        | nil => exact .nil
        | cons hfirst hrest =>
            refine .cons ?_ hrest
            rcases hfirst with rfl | rfl
            · exact .inl rfl
            · exact .inr rfl

theorem sameButEnds_withReturns (a : Text) : SameButEnds a (Text.withReturns a) := by
  apply (forall₂_withReturns a).imp
  intro l m hm
  refine ⟨l, Pads.refl l, ?_⟩
  rcases hm with hm | hm
  · exact hm ▸ Pads.refl l
  · exact ⟨[], ['\r'], rfl, by decide, hm⟩

/-! ## The selected lines -/

theorem selected?_eq (selects : Text → Bool) (line : Text) : selected? selects line =
    if Text.strip line ≠ [] ∧ selects (Text.strip line) = true then some (Text.strip line)
    else none := rfl

theorem selected?_eq_some : selected? selects line = some s ↔
    Text.strip line = s ∧ s ≠ [] ∧ selects s = true := by
  rw [selected?_eq]
  split
  · next h =>
      rw [Option.some.injEq]
      constructor
      · rintro rfl
        exact ⟨rfl, h⟩
      · exact fun h => h.1
  · next h =>
      refine iff_of_false (by simp) ?_
      rintro ⟨rfl, hs⟩
      exact h hs

theorem exists_not_blank (h : selected? selects line = some s) :
    ∃ c ∈ s, Text.isBlank c = false := by
  obtain ⟨hstrip, hne, -⟩ := selected?_eq_some.mp h
  by_contra! hall
  have hblank : s.dropWhile Text.isBlank = [] :=
    List.dropWhile_eq_nil_iff.mpr fun c hc => by simpa using hall c hc
  apply hne
  calc s = Text.strip s := by
        rw [← hstrip]
        exact (Text.trim_trim Text.isBlank line).symm
    _ = [] := by rw [Text.strip, Text.trim, hblank]; rfl

theorem selected?_strip : selected? selects (Text.strip line) = selected? selects line := by
  simp only [selected?, show Text.strip (Text.strip line) = Text.strip line from
    Text.trim_trim Text.isBlank line]

/-! ## The run that remembers -/

theorem collectDistinct_append (lines more found : List Text) :
    collectDistinct selects (lines ++ more) found =
      collectDistinct selects more (collectDistinct selects lines found) := by
  induction lines generalizing found with
  | nil => rfl
  | cons line lines ih =>
      rw [List.cons_append, collectDistinct, collectDistinct]
      cases selected? selects line <;> exact ih _

/-- What a run adds to the lines found is what it would have found at first, less those lines. -/
theorem collectDistinct_eq (lines found : List Text) :
    collectDistinct selects lines found =
      found ++ (collectDistinct selects lines []).filter (· ∉ found) := by
  induction lines generalizing found with
  | nil => simp [collectDistinct]
  | cons line lines ih =>
      rw [collectDistinct, collectDistinct]
      cases selected? selects line with
      | none => exact ih found
      | some s =>
          simp only [List.not_mem_nil, if_false, List.nil_append]
          rw [ih [s], List.filter_append, List.filter_filter]
          split
          · next hs =>
              have hnone : [s].filter (· ∉ found) = [] := by simp [hs]
              rw [ih found, hnone, List.nil_append]
              congr 1
              apply List.filter_congr
              intro x _
              by_cases hx : x = s <;> simp [hx, hs]
          · next hs =>
              have hone : [s].filter (· ∉ found) = [s] := by simp [hs]
              rw [ih (found ++ [s]), hone, List.append_assoc]
              congr 2
              apply List.filter_congr
              intro x _
              simp

theorem nodup_collectDistinct (h : found.Nodup) : (collectDistinct selects lines found).Nodup := by
  induction lines generalizing found with
  | nil => exact h
  | cons line lines ih =>
      rw [collectDistinct]
      cases selected? selects line with
      | none => exact ih h
      | some s =>
          apply ih
          split
          · exact h
          · next hs => exact List.concat_eq_append ▸ h.concat hs

theorem exists_of_mem_collectDistinct (h : s ∈ collectDistinct selects lines found) :
    s ∈ found ∨ ∃ line ∈ lines, selected? selects line = some s := by
  induction lines generalizing found with
  | nil => exact .inl h
  | cons line lines ih =>
      rw [collectDistinct] at h
      cases hline : selected? selects line with
      | none =>
          rw [hline] at h
          exact (ih h).imp_right fun ⟨l, hl, hs⟩ => ⟨l, List.mem_cons_of_mem _ hl, hs⟩
      | some t =>
          rw [hline] at h
          rcases ih h with hfound | ⟨l, hl, hs⟩
          · split at hfound
            · exact .inl hfound
            · rcases List.mem_append.mp hfound with hfound | hnew
              · exact .inl hfound
              · rw [List.mem_singleton.mp hnew]
                exact .inr ⟨line, List.mem_cons_self, hline⟩
          · exact .inr ⟨l, List.mem_cons_of_mem _ hl, hs⟩

theorem collectDistinct_map_strip (lines found : List Text) :
    collectDistinct selects (lines.map Text.strip) found = collectDistinct selects lines found := by
  induction lines generalizing found with
  | nil => rfl
  | cons line lines ih =>
      rw [List.map_cons, collectDistinct, collectDistinct, selected?_strip]
      cases selected? selects line <;> exact ih _

/-! ## The run that stops -/

/-- A run that has not yet reached the limit ends with the first lines, up to the limit, of those
found and those still to be selected. -/
theorem collectFirst_eq (lines : List Text) (h : (found.length : Int) < limit) :
    collectFirst selects limit lines found =
      (found ++ lines.filterMap (selected? selects)).take limit.toNat := by
  induction lines generalizing found with
  | nil =>
      rw [collectFirst, List.filterMap_nil, List.append_nil]
      exact (List.take_of_length_le (by omega)).symm
  | cons line lines ih =>
      rw [collectFirst, List.filterMap_cons]
      cases selected? selects line with
      | none => exact ih h
      | some s =>
          have hlength : (found ++ [s]).length = found.length + 1 := List.length_append
          dsimp only
          rw [List.append_cons found s (lines.filterMap _)]
          split
          · next hfull =>
              -- the limit is reached exactly, for one line was added to fewer
              exact (List.take_left' (by omega)).symm
          · next hroom => exact ih (by omega)

theorem collectFirst_nil (lines : List Text) : (if limit ≤ 0 then [] else
    collectFirst selects limit lines []) =
      (lines.filterMap (selected? selects)).take limit.toNat := by
  split
  · next h => rw [Int.toNat_of_nonpos h, List.take_zero]
  · next h =>
      rw [collectFirst_eq lines (by simpa using h), List.nil_append]

theorem take_append_take {α : Type} (k : Nat) (xs ys : List α) :
    (xs.take k ++ ys.take k).take k = (xs ++ ys).take k := by
  rw [List.take_append, List.take_append, List.take_take, List.take_take, List.length_take,
    Nat.min_self]
  congr 2
  omega

/-! ## The laws of an extraction -/

/-- What two extractions, the latter with a limit, owe to the lines of a text and to what these are
tested for. -/
structure LineWise (t : LineTests) (limit : Int) (dependencies declarations : Text → List Text) :
    Prop where
  dependencies_line {line : Text} (h : '\n' ∉ line) : dependencies line =
    if Text.strip line ≠ [] ∧ t.dependencies.any (· (Text.strip line)) then [Text.strip line]
    else []
  declarations_line {line : Text} (h : '\n' ∉ line) : declarations line =
    if 0 < limit ∧ Text.strip line ≠ [] ∧ t.declarations.any (· (Text.strip line)) then
      [Text.strip line]
    else []
  dependencies_below (a b : Text) : dependencies (a ++ '\n' :: b) =
    dependencies a ++ (dependencies b).filter (· ∉ dependencies a)
  declarations_below (a b : Text) : declarations (a ++ '\n' :: b) =
    (declarations a ++ declarations b).take limit.toNat
  distinct (a : Text) : (dependencies a).Nodup
  filled (a : Text) : ∀ line ∈ dependencies a, ∃ c ∈ line, Text.isBlank c = false
  dependencies_ends {a b : Text} (h : SameButEnds a b) : dependencies a = dependencies b
  declarations_ends {a b : Text} (h : SameButEnds a b) : declarations a = declarations b

theorem splitOn_line (h : '\n' ∉ line) : Text.splitOn '\n' line = [line] := by
  rw [Text.splitOn_eq]
  exact List.splitOn_eq_singleton h

namespace LineTests

variable (t : LineTests) (a b : Text)

theorem extractDependencies_line (h : '\n' ∉ line) : t.extractDependencies line =
    if Text.strip line ≠ [] ∧ t.dependencies.any (· (Text.strip line)) then [Text.strip line]
    else [] := by
  unfold extractDependencies
  cases t.dependencies with
  | none => simp
  | some selects =>
      dsimp only [Option.any_some]
      rw [splitOn_line h, collectDistinct, selected?_eq]
      by_cases hselected : Text.strip line ≠ [] ∧ selects (Text.strip line) = true
      · rw [if_pos hselected, if_pos hselected]
        rfl
      · rw [if_neg hselected, if_neg hselected]
        rfl

theorem extractDependencies_below : t.extractDependencies (a ++ '\n' :: b) =
    t.extractDependencies a ++
      (t.extractDependencies b).filter (· ∉ t.extractDependencies a) := by
  unfold extractDependencies
  cases t.dependencies with
  | none => rfl
  | some selects =>
      dsimp only
      rw [Text.splitOn_append_cons, collectDistinct_append, collectDistinct_eq]

theorem extractDeclarations_eq (limit : Int) : t.extractDeclarations limit a =
    match t.declarations with
    | none => []
    | some selects =>
        ((Text.splitOn '\n' a).filterMap (selected? selects)).take limit.toNat := by
  unfold extractDeclarations
  cases t.declarations with
  | none => rfl
  | some selects => exact collectFirst_nil _

theorem extractDeclarations_line (limit : Int) (h : '\n' ∉ line) :
    t.extractDeclarations limit line =
      if 0 < limit ∧ Text.strip line ≠ [] ∧ t.declarations.any (· (Text.strip line)) then
        [Text.strip line]
      else [] := by
  rw [extractDeclarations_eq]
  cases t.declarations with
  | none => simp
  | some selects =>
      dsimp only [Option.any_some]
      rw [splitOn_line h, List.filterMap_cons, selected?_eq]
      by_cases hselected : Text.strip line ≠ [] ∧ selects (Text.strip line) = true
      · rw [if_pos hselected]
        by_cases hlimit : 0 < limit
        · rw [if_pos ⟨hlimit, hselected⟩]
          exact List.take_of_length_le (Int.pos_iff_toNat_pos.mp hlimit)
        · rw [if_neg fun hall => hlimit hall.1, Int.toNat_of_nonpos (Int.not_lt.mp hlimit)]
          rfl
      · rw [if_neg hselected, if_neg fun hall => hselected hall.2]
        exact List.take_nil

theorem extractDeclarations_below (limit : Int) :
    t.extractDeclarations limit (a ++ '\n' :: b) =
      (t.extractDeclarations limit a ++ t.extractDeclarations limit b).take limit.toNat := by
  simp only [extractDeclarations_eq]
  cases t.declarations with
  | none => exact List.take_nil.symm
  | some selects =>
      dsimp only
      rw [Text.splitOn_append_cons, List.filterMap_append, take_append_take]

theorem nodup_extractDependencies : (t.extractDependencies a).Nodup := by
  unfold extractDependencies
  cases t.dependencies with
  | none => exact List.nodup_nil
  | some selects => exact nodup_collectDistinct List.nodup_nil

theorem not_blank_of_mem_extractDependencies :
    ∀ line ∈ t.extractDependencies a, ∃ c ∈ line, Text.isBlank c = false := by
  unfold extractDependencies
  cases t.dependencies with
  | none => simp
  | some selects =>
      intro line hline
      rcases exists_of_mem_collectDistinct hline with hnone | ⟨_, -, hselected⟩
      · cases hnone
      · exact exists_not_blank hselected

variable {a b}

theorem extractDependencies_congr (h : SameButEnds a b) :
    t.extractDependencies a = t.extractDependencies b := by
  unfold extractDependencies
  cases t.dependencies with
  | none => rfl
  | some selects =>
      dsimp only
      rw [← collectDistinct_map_strip, h.map_strip, collectDistinct_map_strip]

theorem extractDeclarations_congr (limit : Int) (h : SameButEnds a b) :
    t.extractDeclarations limit a = t.extractDeclarations limit b := by
  simp only [extractDeclarations_eq]
  cases t.declarations with
  | none => rfl
  | some selects =>
      have hstrip (lines : List Text) : (lines.map Text.strip).filterMap (selected? selects) =
          lines.filterMap (selected? selects) := by
        rw [List.filterMap_map]
        exact congrArg (lines.filterMap ·) (funext fun _ => selected?_strip)
      dsimp only
      rw [← hstrip (Text.splitOn '\n' a), h.map_strip, hstrip]

theorem lineWise (limit : Int) :
    LineWise t limit t.extractDependencies (t.extractDeclarations limit) where
  dependencies_line := t.extractDependencies_line
  declarations_line := t.extractDeclarations_line limit
  dependencies_below := t.extractDependencies_below
  declarations_below a b := t.extractDeclarations_below a b limit
  distinct := t.nodup_extractDependencies
  filled := t.not_blank_of_mem_extractDependencies
  dependencies_ends := t.extractDependencies_congr
  declarations_ends := t.extractDeclarations_congr limit

end LineTests

/-- Whatever the languages test their lines for, extraction goes by lines; so it does with every
registry, and of the record of a file the line ends change nothing but the size. -/
theorem extraction_lineWise :
    (∀ (t : LineTests) (limit : Int),
      LineWise t limit t.extractDependencies (t.extractDeclarations limit)) ∧
    (∀ (r : Registry) (language : Language) (limit : Int),
      LineWise (r.linePatterns language).tests limit (r.extractDependencies · language)
        (r.extractDeclarations limit · language)) ∧
    ∀ (w : Walk) (names : List FileName) (size size' : Nat) (content : Text),
      w.recordOf names size' (Text.withReturns content) =
        { w.recordOf names size content with size := size' } := by
  refine ⟨LineTests.lineWise, fun r language => (r.linePatterns language).tests.lineWise, ?_⟩
  intro w names size size' content
  have hends := sameButEnds_withReturns content
  unfold Walk.recordOf Registry.extractDependencies Registry.extractDeclarations
  dsimp only
  rw [LineTests.extractDependencies_congr _ hends, LineTests.extractDeclarations_congr _ _ hends]

end SourceScan
