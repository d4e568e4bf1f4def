import Mathlib.Data.List.SplitBy
import SourceScan.Proofs.Yaml.Clean
import SourceScan.Yaml.Pen

/-!
# What a pen has written

A pen only adds to its text.  The runs into which it cuts a text are runs of words, of spaces
and of line breaks, no two of one kind in a row.
-/

namespace SourceScan.Yaml.Pen

variable {p q : Pen} {s t w w' : Text} {column : Nat} {ch : Char}

def Wrote (p : Pen) (w : Text) (q : Pen) : Prop := q.out = w.reverse ++ p.out

theorem Wrote.refl (p : Pen) : Wrote p [] p := rfl

theorem Wrote.trans {r : Pen} (h : Wrote p w q) (h' : Wrote q w' r) : Wrote p (w ++ w') r := by
  rw [Wrote, h', h, List.reverse_append, List.append_assoc]

theorem wrote_put (s : Text) (p : Pen) : Wrote p s (p.put s) := rfl

theorem wrote_mark (s : Text) (p : Pen) :
    Wrote p ((if p.spaced then [] else [' ']) ++ s) (p.mark s) := by
  rw [Wrote, mark]
  cases p.spaced <;> simp [put]

theorem toColumn_line
    (h : p.fresh = false ∨ column < p.column ∨ p.column = column ∧ p.spaced = false) :
    p.toColumn column = ⟨(lineStart column).reverse ++ p.out, column, true, true⟩ := by
  have hcondition : (!p.fresh || column < p.column || (p.column = column && !p.spaced)) = true := by
    rcases h with h | h | h <;> simp [h]
  rw [toColumn, if_pos hcondition]
  by_cases hzero : 0 < column
  · simp [putBreak, hzero, put, lineStart]
  · have : column = 0 := by omega
    subst this
    simp [putBreak, lineStart]

/-- On a line with marks of collections only, a column further to the right is reached by spaces. -/
theorem toColumn_pad (hfresh : p.fresh = true) (h : p.column < column) :
    p.toColumn column =
      ⟨List.replicate (column - p.column) ' ' ++ p.out, column, true, true⟩ := by
  have hcondition :
      (!p.fresh || column < p.column || (p.column = column && !p.spaced)) = false := by
    have hle : ¬column < p.column := by omega
    have hne : p.column ≠ column := by omega
    simp [hfresh, hle, hne]
  have hsum : p.column + (column - p.column) = column := by omega
  rw [toColumn]
  simp only [hcondition, Bool.false_eq_true, if_false, h, if_true]
  simp [put, hfresh, hsum]

structure Settled (q : Pen) : Prop where
  not_spaced : q.spaced = false
  not_fresh : q.fresh = false

theorem isClean_space {wide : Bool} : IsClean wide ' ' := ⟨by decide, by decide, fun _ => by decide⟩

theorem isClean_lineStart {wide : Bool} : ∀ ch ∈ lineStart column, IsClean wide ch := by
  intro ch hch
  rw [lineStart, List.mem_cons, List.mem_replicate] at hch
  rcases hch with rfl | ⟨-, rfl⟩
  · exact ⟨by decide, by decide, fun _ => by decide⟩
  · exact isClean_space

/-! ## Runs -/

inductive RunKind where
  | word
  | spaces
  | breaks
  deriving DecidableEq

def kindOf (ch : Char) : RunKind :=
  if ch = ' ' then .spaces else if isWrittenBreak ch then .breaks else .word

/-- Runs of one kind each, different from the kind of what stands in front of them. -/
inductive Alternates : Option RunKind → List Text → Prop
  | nil (before : Option RunKind) : Alternates before []
  | cons {before : Option RunKind} {kind : RunKind} {run : Text} {runs : List Text} (hne : run ≠ [])
      (hkind : ∀ ch ∈ run, kindOf ch = kind) (hbefore : before ≠ some kind)
      (h : Alternates (some kind) runs) : Alternates before (run :: runs)

theorem runs_eq (s : Text) : runs s = s.splitBy fun c d => kindOf c = kindOf d := by
  rw [runs]
  congr 1
  funext c d
  unfold kindOf
  by_cases hc : c = ' ' <;> by_cases hd : d = ' ' <;> cases hbc : isWrittenBreak c <;>
    cases hbd : isWrittenBreak d <;> simp_all

theorem kindOf_chain {run : Text}
    (h : (ch :: run).IsChain fun c d => decide (kindOf c = kindOf d) = true) :
    ∀ d ∈ ch :: run, kindOf d = kindOf ch := by
  induction run generalizing ch with
  | nil => simp
  | cons e run ih =>
      rw [List.isChain_cons_cons, decide_eq_true_eq] at h
      intro d hd
      rcases List.mem_cons.mp hd with rfl | hd
      · rfl
      · rw [h.1]
        exact ih h.2 d hd

theorem alternates_of_chain {before : Option RunKind} {l : List Text} (hne : [] ∉ l)
    (hrun : ∀ run ∈ l, run.IsChain fun c d => decide (kindOf c = kindOf d) = true)
    (hchain : l.IsChain fun a b =>
      ∃ ha hb, decide (kindOf (a.getLast ha) = kindOf (b.head hb)) = false)
    (hbefore : ∀ run ∈ l.head?, ∀ ch ∈ run.head?, before ≠ some (kindOf ch)) :
    Alternates before l := by
  induction l generalizing before with
  | nil => exact .nil before
  | cons run l ih =>
      obtain ⟨ch, rest, rfl⟩ := List.exists_cons_of_ne_nil (l := run) (by rintro rfl; simp at hne)
      have hkind := kindOf_chain (hrun (ch :: rest) (by simp))
      simp only [List.mem_cons, not_or] at hne
      refine .cons (by simp) hkind (hbefore _ rfl ch rfl)
        (ih hne.2 (fun run hmem => hrun run (by simp [hmem])) hchain.tail ?_)
      intro next hnext d hd heq
      cases l with
      | nil => cases hnext
      | cons next' l =>
          cases hnext
          obtain ⟨⟨hlast, hhead, hother⟩, -⟩ := List.isChain_cons_cons.mp hchain
          obtain ⟨e, rest', rfl⟩ := List.exists_cons_of_ne_nil hhead
          cases hd
          rw [hkind _ (List.getLast_mem hlast), Option.some.inj heq] at hother
          simp at hother

theorem alternates_runs (s : Text) : Alternates none (runs s) := by
  rw [runs_eq]
  exact alternates_of_chain (List.nil_notMem_splitBy _ s)
    (fun run hrun => List.isChain_of_mem_splitBy hrun)
    (List.isChain_getLast_head_splitBy (fun c d => decide (kindOf c = kindOf d)) s) (by simp)

theorem flatten_runs (s : Text) : (runs s).flatten = s := by
  rw [runs]
  exact List.flatten_splitBy _ s


theorem kindOf_head_flatten {kind : RunKind} {l : List Text} (h : Alternates (some kind) l)
    (hch : l.flatten.head? = some ch) : kindOf ch ≠ kind := by
  cases h with
  | nil => cases hch
  | @cons _ kind' run runs hne hkind hbefore h =>
      obtain ⟨d, rest, rfl⟩ := List.exists_cons_of_ne_nil hne
      cases hch
      rintro heq
      exact hbefore (by rw [← hkind ch (by simp), heq])

theorem Alternates.behind {kind : RunKind} {l : List Text} (h : Alternates none l)
    (hhead : ∀ ch, l.flatten.head? = some ch → kindOf ch ≠ kind) : Alternates (some kind) l := by
  cases h with
  | nil => exact .nil _
  | @cons _ kind' run runs hne hkind _ h =>
      refine .cons hne hkind (fun heq => ?_) h
      obtain ⟨d, rest, rfl⟩ := List.exists_cons_of_ne_nil hne
      exact hhead d rfl (by rw [hkind d (by simp), Option.some.inj heq])

theorem kindOf_eq_spaces : kindOf ch = .spaces ↔ ch = ' ' := by
  unfold kindOf
  split
  · simp_all
  · split <;> simp_all

theorem exists_spaces {run : Text} (hne : run ≠ []) (h : ∀ ch ∈ run, kindOf ch = .spaces) :
    ∃ k, run = List.replicate (k + 1) ' ' := by
  have hlength := List.length_pos_iff.mpr hne
  refine ⟨run.length - 1, List.eq_replicate_iff.mpr ⟨by omega, fun ch hch => ?_⟩⟩
  exact kindOf_eq_spaces.mp (h ch hch)

theorem kindOf_eq_word : kindOf ch = .word ↔ ch ≠ ' ' ∧ isWrittenBreak ch = false := by
  unfold kindOf
  split
  · simp_all
  · split <;> simp_all

theorem kindOf_eq_breaks : kindOf ch = .breaks ↔ isWrittenBreak ch = true := by
  unfold kindOf
  split
  · simp_all [isWrittenBreak]
  · split <;> simp_all

end SourceScan.Yaml.Pen
