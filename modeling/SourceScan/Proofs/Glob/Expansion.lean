import Mathlib.Tactic.Tauto
import SourceScan.Glob.Braces

/-!
# Expanding a choice

Choosing an option of a group drops the braces and the commas of the group and what the other
options hold.  Every other character of a pattern is kept by one choice at least.
-/

namespace SourceScan.Glob

variable {c : Char} {s : Text}

def isGroupMark (c : Char) : Bool := c = '\x7b' || c = '\x7d' || c = ','

theorem ne_of_isGroupMark {d : Char} (hc : isGroupMark c = false)
    (hd : decide (d = '\x7b') = true) : c ≠ d := by
  rintro rfl
  simp only [isGroupMark, Bool.or_eq_false_iff] at hc
  rw [hc.1.1] at hd
  cases hd

theorem mem_of_splitGroup {depth : Nat} {current : Text} {done options : List Text} {after : Text}
    (h : splitGroup depth current done s = some (options, after)) (hc : isGroupMark c = false)
    (hmem : c ∈ current ∨ (∃ o ∈ done, c ∈ o) ∨ c ∈ s) : (∃ o ∈ options, c ∈ o) ∨ c ∈ after := by
  induction s generalizing depth current done with
  | nil => simp [splitGroup] at h
  | cons d rest ih =>
      have hclose : c ≠ d → (c ∈ current ∨ (∃ o ∈ done, c ∈ o) ∨ c ∈ d :: rest) →
          c ∈ ([] : Text) ∨ (∃ o ∈ current.reverse :: done, c ∈ o) ∨ c ∈ rest := by
        intro hne hmem
        simp only [List.mem_cons, hne, false_or] at hmem
        simpa [or_assoc] using hmem
      have hgrow : c ∈ d :: current ∨ (∃ o ∈ done, c ∈ o) ∨ c ∈ rest := by
        rcases hmem with hmem | hmem | hmem
        · exact .inl (List.mem_cons_of_mem _ hmem)
        · exact .inr (.inl hmem)
        · rcases List.mem_cons.1 hmem with rfl | hmem
          · exact .inl List.mem_cons_self
          · exact .inr (.inr hmem)
      simp only [isGroupMark, Bool.or_eq_false_iff, decide_eq_false_iff_not] at hc
      simp only [splitGroup] at h
      split at h
      · exact ih h hgrow
      · split at h
        · next hd =>
            cases depth with
            | zero =>
                simp only [Option.some.injEq, Prod.mk.injEq] at h
                obtain ⟨rfl, rfl⟩ := h
                simp only [List.mem_reverse]
                exact (hclose (hd ▸ hc.1.2) hmem).resolve_left (by simp)
            | succ depth => exact ih h hgrow
        · split at h
          · next hd =>
              simp only [Bool.and_eq_true, decide_eq_true_eq] at hd
              exact ih h (hclose (hd.1 ▸ hc.2) hmem)
          · exact ih h hgrow

theorem mem_of_firstGroupFrom {skipped : Text} {g : Group Char}
    (h : firstGroupFrom skipped s = some g)
    (hc : isGroupMark c = false) (hmem : c ∈ skipped ++ s) :
    ∃ o ∈ g.options, c ∈ g.before ++ o ++ g.after := by
  fun_induction firstGroupFrom skipped s with
  | case1 | case2 | case3 => simp at h
  | case4 skipped s before d rest hcut only after hsplit ih =>
      refine ih h ?_
      obtain ⟨rfl, hd, -⟩ := Text.eq_of_cutWhere hcut
      have hne := ne_of_isGroupMark hc hd
      have hrest : c ∈ rest → c ∈ only ∨ c ∈ after := fun hrest => by
        simpa using mem_of_splitGroup hsplit hc (.inr (.inr hrest))
      simp only [List.mem_append, List.mem_cons, hne, false_or] at hmem ⊢
      tauto
  | case5 skipped s before d rest hcut options after hnil hone hsplit =>
      cases h
      obtain ⟨rfl, hd, -⟩ := Text.eq_of_cutWhere hcut
      have hne := ne_of_isGroupMark hc hd
      have hrest : c ∈ rest → (∃ o ∈ options, c ∈ o) ∨ c ∈ after := fun hrest =>
        mem_of_splitGroup hsplit hc (.inr (.inr hrest))
      obtain ⟨first, hfirst⟩ := List.exists_mem_of_ne_nil options hnil
      simp only [List.mem_append, List.mem_cons, hne, false_or] at hmem ⊢
      rcases hmem with hmem | hmem | hmem
      · exact ⟨first, hfirst, .inl (.inl (.inl hmem))⟩
      · exact ⟨first, hfirst, .inl (.inl (.inr hmem))⟩
      · rcases hrest hmem with ⟨o, ho, hmem⟩ | hmem
        · exact ⟨o, ho, .inl (.inr hmem)⟩
        · exact ⟨first, hfirst, .inr hmem⟩

theorem exists_mem_expand (hc : isGroupMark c = false) (hmem : c ∈ s) : ∃ a ∈ expand s, c ∈ a := by
  fun_induction expand s with
  | case1 s => exact ⟨s, List.mem_singleton.2 rfl, hmem⟩
  | case2 s g hg ih =>
      obtain ⟨o, ho, hmem⟩ := mem_of_firstGroupFrom hg hc hmem
      obtain ⟨a, ha, hmem⟩ := ih ⟨o, ho⟩ hmem
      refine ⟨a, ?_, hmem⟩
      rw [List.mem_eraseDups, List.mem_flatMap]
      exact ⟨⟨o, ho⟩, List.mem_attach _ _, ha⟩

/-! ## Patterns with at most one group -/

theorem expand_of_literal (h : '\x7b' ∉ s) : expand s = [s] := by
  have hcut : Text.cutWhere (· = '\x7b') s = none := by
    cases hcut : Text.cutWhere (· = '\x7b') s with
    | none => rfl
    | some cut =>
        obtain ⟨rfl, hd, -⟩ := Text.eq_of_cutWhere hcut
        simp only [decide_eq_true_eq] at hd
        simp [hd] at h
  have hgroup : firstGroup? s = none := by
    unfold firstGroup? firstGroupFrom
    split
    · rfl
    · next heq => cases hcut.symm.trans heq
  unfold expand
  split
  · rfl
  · next heq => cases hgroup.symm.trans heq

theorem expand_of_choice {before rest first second after : Text} {d : Char}
    {options : List Text} (hcut : Text.cutWhere (· = '\x7b') s = some (before, d, rest))
    (hsplit : splitGroup 0 [] [] rest = some (first :: second :: options, after)) :
    expand s = ((first :: second :: options).flatMap fun o =>
      expand (before ++ o ++ after)).eraseDups := by
  have hgroup : firstGroup? s = some ⟨before, first :: second :: options, after⟩ := by
    unfold firstGroup? firstGroupFrom
    split
    · next heq => cases hcut.symm.trans heq
    · next heq =>
        cases hcut.symm.trans heq
        split <;> simp_all
  rw [expand]
  split
  · next heq => cases hgroup.symm.trans heq
  · next heq =>
      cases hgroup.symm.trans heq
      rw [← List.attach_map_subtype_val (first :: second :: options), List.flatMap_map,
        List.attach_map_subtype_val]

end SourceScan.Glob
