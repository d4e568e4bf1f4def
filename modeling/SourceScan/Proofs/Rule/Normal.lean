import SourceScan.Proofs.Rule.Spelling

/-!
# Paths in normal form

A path is in its normal form if it has no backslashes, no slash at either end and no leading `./`.
A leading slash or `./` is dropped once more before a path is matched, which changes nothing then,
neither for the path nor for what lies below it, unless the path is the single dot of the root.
-/

namespace SourceScan

theorem Text.trim_infix {α : Type} (p : α → Bool) (s : List α) : Text.trim p s <:+: s :=
  (List.rdropWhile_prefix p _).isInfix.trans (List.dropWhile_suffix p).isInfix

theorem Text.trim_trim {α : Type} (p : α → Bool) (s : List α) :
    Text.trim p (Text.trim p s) = Text.trim p s := by
  have hstart : (Text.trim p s).dropWhile p = Text.trim p s := by
    have hprefix : Text.trim p s <+: s.dropWhile p := List.rdropWhile_prefix p _
    have hdropped := List.dropWhile_idempotent p s
    cases htrim : Text.trim p s with
    | nil => rfl
    | cons c r =>
        obtain ⟨more, hmore⟩ := htrim ▸ hprefix
        rw [← hmore, List.dropWhile_eq_self_iff] at hdropped
        exact List.dropWhile_cons_of_neg (hdropped (Nat.succ_pos _))
  calc Text.trim p (Text.trim p s) = ((Text.trim p s).dropWhile p).rdropWhile p := rfl
    _ = ((s.dropWhile p).rdropWhile p).rdropWhile p := by rw [hstart]; rfl
    _ = Text.trim p s := List.rdropWhile_idempotent p _

theorem normalizePath.dropDots_suffix (s : Text) : dropDots s <:+ s := by
  fun_induction dropDots s with
  | case1 s ih => exact ih.trans ((List.suffix_cons _ _).trans (List.suffix_cons _ _))
  | case2 s => exact List.suffix_refl s

open normalizePath in
theorem normalizePath_eq_self_iff {s : Text} : normalizePath s = s ↔
    '\\' ∉ s ∧ (∀ r, s ≠ '.' :: '/' :: r) ∧ s.head? ≠ some '/' ∧ s.getLast? ≠ some '/' := by
  have hends : Text.trim (fun c => decide (c = '/')) s = s ↔
      s.head? ≠ some '/' ∧ s.getLast? ≠ some '/' := by
    rw [Text.trim_eq_self_iff]
    simp only [decide_eq_false_iff_not]
    constructor
    · rintro ⟨hhead, hlast⟩
      exact ⟨fun h => hhead _ h rfl, fun h => hlast _ h rfl⟩
    · rintro ⟨hhead, hlast⟩
      exact ⟨fun c h heq => hhead (heq ▸ h), fun c h heq => hlast (heq ▸ h)⟩
  have hclean : s.map (fun c => if c = '\\' then '/' else c) = s ↔ '\\' ∉ s := by
    rw [← List.map_id s, List.map_map, List.map_inj_left, List.map_id]
    constructor
    · intro h hmem
      have := h _ hmem
      simp at this
    · intro h c hc
      have hne : c ≠ '\\' := fun heq => h (heq ▸ hc)
      simp [hne]
  constructor
  · intro h
    -- No step makes the path longer, so that none of them has changed it.
    have hlong : s.length ≤ (dropDots (s.map fun c => if c = '\\' then '/' else c)).length := by
      calc s.length = (normalizePath s).length := by rw [h]
        _ ≤ _ := (Text.trim_infix _ _).length_le
    have hdots := (dropDots_suffix _).eq_of_length_le (by rwa [List.length_map])
    have htrim := (Text.trim_infix (fun c => decide (c = '/'))
      (s.map fun c => if c = '\\' then '/' else c)).eq_of_length (by
        rw [List.length_map, ← congrArg List.length h, normalizePath, hdots])
    have hmap : s.map (fun c => if c = '\\' then '/' else c) = s := by
      rw [← htrim, ← hdots, ← normalizePath, h]
    rw [hmap] at hdots htrim
    refine ⟨hclean.1 hmap, fun r hr => ?_, hends.1 htrim⟩
    have hshort := (dropDots_suffix r).length_le
    rw [hr, dropDots] at hdots
    rw [hdots] at hshort
    simp at hshort
  · rintro ⟨hslash, hdots, hfree⟩
    rw [normalizePath, hclean.2 hslash, dropDots_eq_self hdots, hends.2 hfree]

namespace Glob

variable {s : Text}

theorem withoutLead_eq_self (h : normalizePath s = s) : withoutLead s = s := by
  obtain ⟨-, hdots, hhead, -⟩ := normalizePath_eq_self_iff.1 h
  unfold withoutLead
  split
  · exact absurd rfl hhead
  · next r => exact absurd rfl (hdots r)
  · rfl

theorem withoutLead_below (h : normalizePath s = s) (hne : s ≠ []) (hdot : s ≠ ['.']) (t : Text) :
    withoutLead (s ++ '/' :: t) = s ++ '/' :: t := by
  obtain ⟨-, hdots, hhead, -⟩ := normalizePath_eq_self_iff.1 h
  unfold withoutLead
  split
  · next path heq =>
      cases s with
      | nil => exact absurd rfl hne
      | cons c s =>
          obtain ⟨rfl, -⟩ := List.cons.inj heq
          exact absurd rfl hhead
  · next path heq =>
      rcases s with - | ⟨c, - | ⟨d, s⟩⟩
      · exact absurd rfl hne
      · obtain ⟨rfl, -⟩ := List.cons.inj heq
        exact absurd rfl hdot
      · simp only [List.cons_append, List.cons.injEq] at heq
        obtain ⟨rfl, rfl, -⟩ := heq
        exact absurd rfl (hdots s)
  · rfl

end Glob

end SourceScan
