import SourceScan.Text.Unit

/-!
# Brace groups

A group `{a,b}` in a pattern stands for a choice. Expansion replaces the first
group that offers a choice by each of its options in turn and expands the results
again. A group without a comma is literal together with all that it holds, and an
opening brace that is never closed makes the whole pattern literal.
-/

namespace SourceScan.Glob

open Glyph

structure Group (α : Type) where
  before : List α
  options : List (List α)
  after : List α
  deriving Repr

variable {α : Type} [DecidableEq α] [Glyph α]

/-- Reads the options up to the brace that closes the group. `depth` counts the groups open
inside it, and both accumulators hold their items last first. -/
def splitGroup (depth : Nat) (current : List α) (done : List (List α)) :
    List α → Option (List (List α) × List α)
  | [] => none
  | c :: rest =>
      if c = ofChar '\x7b' then splitGroup (depth + 1) (c :: current) done rest
      else if c = ofChar '\x7d' then
        match depth with
        | 0 => some ((current.reverse :: done).reverse, rest)
        | depth + 1 => splitGroup depth (c :: current) done rest
      else if c = ofChar ',' && depth = 0 then splitGroup depth [] (current.reverse :: done) rest
      else splitGroup depth (c :: current) done rest

def openings (s : List α) : Nat := s.count (ofChar '\x7b')

theorem openings_append (s t : List α) : openings (s ++ t) = openings s + openings t := by
  simp [openings]

theorem length_of_splitGroup {depth : Nat} {current : List α} {done options : List (List α)}
    {s after : List α} (h : splitGroup depth current done s = some (options, after)) :
    after.length < s.length := by
  induction s generalizing depth current done with
  | nil => simp [splitGroup] at h
  | cons c rest ih =>
      simp only [splitGroup] at h
      split at h
      · have := ih h
        simp
        omega
      · split at h
        · cases depth with
          | zero =>
              simp only [Option.some.injEq, Prod.mk.injEq] at h
              simp [h.2]
          | succ depth =>
              have := ih h
              simp
              omega
        · split at h <;>
            · have := ih h
              simp
              omega

/-- No option holds more opening braces than what was read or stood in the accumulators. -/
theorem openings_of_splitGroup {depth : Nat} {current : List α} {done options : List (List α)}
    {s after : List α} (h : splitGroup depth current done s = some (options, after))
    (bound : Nat) (hc : openings current + openings s ≤ bound)
    (hd : ∀ o ∈ done, openings o + openings s ≤ bound) :
    ∀ o ∈ options, openings o + openings after ≤ bound := by
  induction s generalizing depth current done with
  | nil => simp [splitGroup] at h
  | cons c rest ih =>
      have grow : openings rest ≤ openings (c :: rest) := by
        simp only [openings, List.count_cons]
        omega
      have shift : openings (c :: current) + openings rest =
          openings current + openings (c :: rest) := by
        simp only [openings, List.count_cons]
        omega
      have keep : ∀ o ∈ done, openings o + openings rest ≤ bound := fun o ho =>
        Nat.le_trans (Nat.add_le_add_left grow _) (hd o ho)
      have close : ∀ o ∈ current.reverse :: done, openings o + openings rest ≤ bound := by
        intro o ho
        rcases List.mem_cons.1 ho with rfl | ho
        · have : openings current.reverse = openings current := by simp [openings]
          omega
        · exact keep o ho
      simp only [splitGroup] at h
      split at h
      · exact ih h (by omega) keep
      · split at h
        · cases depth with
          | zero =>
              simp only [Option.some.injEq, Prod.mk.injEq] at h
              obtain ⟨rfl, rfl⟩ := h
              intro o ho
              exact close o (List.mem_reverse.1 ho)
          | succ depth => exact ih h (by omega) keep
        · split at h
          · exact ih h (by simp only [openings] at *; simp; omega) close
          · exact ih h (by omega) keep

/-- The first group with at least two options; `skipped` is the literal text before `s`. -/
def firstGroupFrom (skipped s : List α) : Option (Group α) :=
  match _hc : Text.cutWhere (· = ofChar '\x7b') s with
  | none => none
  | some (before, _, rest) =>
      match _hs : splitGroup 0 [] [] rest with
      | none => none
      | some ([], _) => none
      | some ([only], after) =>
          firstGroupFrom (skipped ++ before ++ ofChar '\x7b' :: only ++ [ofChar '\x7d']) after
      | some (options, after) => some ⟨skipped ++ before, options, after⟩
termination_by s.length
decreasing_by
  have h₁ := length_of_splitGroup _hs
  have h₂ := (Text.eq_of_cutWhere _hc).1
  subst h₂
  simp
  omega

def firstGroup? (s : List α) : Option (Group α) := firstGroupFrom [] s

theorem openings_of_split {s before rest after : List α} {d : α} {options : List (List α)}
    (hc : Text.cutWhere (· = ofChar '\x7b') s = some (before, d, rest))
    (hs : splitGroup 0 [] [] rest = some (options, after)) {o : List α} (ho : o ∈ options) :
    openings before + openings o + openings after < openings s := by
  obtain ⟨rfl, hd, -⟩ := Text.eq_of_cutWhere hc
  have := openings_of_splitGroup hs (openings rest) (by simp [openings]) (by simp) o ho
  have hd : d = ofChar '\x7b' := by simpa using hd
  subst hd
  simp only [openings, List.count_append, List.count_cons_self] at *
  omega

theorem openings_of_firstGroupFrom {skipped s : List α} {g : Group α}
    (h : firstGroupFrom skipped s = some g) {o : List α} (ho : o ∈ g.options) :
    openings (g.before ++ o ++ g.after) < openings (skipped ++ s) := by
  fun_induction firstGroupFrom skipped s with
  | case1 | case2 | case3 => simp at h
  | case4 skipped s before d rest hc only after hs ih =>
      have step := openings_of_split hc hs (List.mem_singleton.2 rfl)
      have := ih h
      simp only [openings, List.count_append, List.count_cons, List.count_nil] at *
      simp at this
      omega
  | case5 skipped s before d rest hc options after _ _ hs =>
      obtain rfl := Option.some.inj h
      have step := openings_of_split hc hs ho
      simp only [openings, List.count_append] at *
      omega

/-- All texts that the pattern stands for, each once, the choice in the leftmost group varying
slowest. -/
def expand (s : List α) : List (List α) :=
  match _hg : firstGroup? s with
  | none => [s]
  | some g => (g.options.attach.flatMap fun o => expand (g.before ++ o.1 ++ g.after)).eraseDups
termination_by openings s
decreasing_by
  have := openings_of_firstGroupFrom _hg o.2
  simpa using this

end SourceScan.Glob
