import Mathlib.Data.List.Forall2
import SourceScan.Proofs.Number.Digits
import SourceScan.Report.Basic

/-!
# Numbers in a row

Numbers are written one after another, each with its own count of digits and a character after it.
Such a text has a form that does not depend on the numbers, and two of one form are in the order
of their numbers.
-/

namespace SourceScan

variable {m n width : Nat} {s t : Text}

/-! ## Numbers of a fixed width -/

structure Text.Writes (width n : Nat) (s : Text) : Prop where
  length : s.length = width
  digits : ∀ c ∈ s, c.isDigit = true
  value : Numeral.digitsValue s = n

theorem Text.writes_ofNatPadded (hwidth : 0 < width) (h : n < Nat.pow 10 width) :
    Writes width n (ofNatPadded 10 width n) := by
  obtain ⟨ds, hds, hlength, hspells⟩ := exists_ofNatPadded (by decide : 1 < 10) hwidth h
  rw [hds]
  refine ⟨by rw [List.length_map, hlength], ?_, Numeral.digitsValue_map hspells⟩
  intro c hc
  obtain ⟨d, hd, rfl⟩ := List.mem_map.mp hc
  exact Numeral.isDigit_digitChar (hspells.lt_base d hd)

namespace Report

theorem textLe_refl (s : Text) : textLe s s = true := by
  induction s with
  | nil => rfl
  | cons c s ih => simp [textLe, ih]

theorem textLe_append_left (p s t : Text) : textLe (p ++ s) (p ++ t) = textLe s t := by
  induction p with
  | nil => rfl
  | cons c p ih => simp [textLe, ih]

theorem foldl_lt {ds es : List Nat} (hlength : ds.length = es.length) (hds : ∀ d ∈ ds, d < 10)
    (h : m < n) : ds.foldl (fun n d => 10 * n + d) m < es.foldl (fun n d => 10 * n + d) n := by
  induction ds generalizing es m n with
  | nil =>
      rw [List.eq_nil_of_length_eq_zero hlength.symm]
      exact h
  | cons d ds ih =>
      obtain ⟨e, es, rfl⟩ := List.exists_cons_of_length_eq_add_one hlength.symm
      have hd : d < 10 := hds d List.mem_cons_self
      apply ih (Nat.succ.inj hlength) (fun x hx => hds x (List.mem_cons_of_mem _ hx))
      dsimp only
      omega

/-- Digits of the same count are in the order of their numbers; what follows them does not
matter unless the numbers are the same. -/
theorem textLe_digits {ds es : List Nat} (hlength : ds.length = es.length)
    (hds : ∀ d ∈ ds, d < 10) (hes : ∀ e ∈ es, e < 10)
    (h : ds.foldl (fun n d => 10 * n + d) n < es.foldl (fun n d => 10 * n + d) n) :
    textLe (ds.map Nat.digitChar ++ s) (es.map Nat.digitChar ++ t) = true := by
  induction ds generalizing es n with
  | nil =>
      rw [List.eq_nil_of_length_eq_zero hlength.symm] at h
      exact absurd h (Nat.lt_irrefl n)
  | cons d ds ih =>
      obtain ⟨e, es, rfl⟩ := List.exists_cons_of_length_eq_add_one hlength.symm
      have hcount : ds.length = es.length := Nat.succ.inj hlength
      have hd : d < 10 := hds d List.mem_cons_self
      have he : e < 10 := hes e List.mem_cons_self
      have hds' : ∀ x ∈ ds, x < 10 := fun x hx => hds x (List.mem_cons_of_mem _ hx)
      have hes' : ∀ x ∈ es, x < 10 := fun x hx => hes x (List.mem_cons_of_mem _ hx)
      rw [List.map_cons, List.map_cons, List.cons_append, List.cons_append, textLe,
        Bool.or_eq_true, Bool.and_eq_true, decide_eq_true_eq, decide_eq_true_eq,
        Nat.toNat_digitChar_of_lt_ten hd, Nat.toNat_digitChar_of_lt_ten he]
      rcases Nat.lt_trichotomy d e with hlt | heq | hgt
      · exact .inl (Nat.add_lt_add_left hlt 48)
      · subst heq
        exact .inr ⟨rfl, ih hcount hds' hes' h⟩
      · have hover : es.foldl (fun n d => 10 * n + d) (10 * n + e) <
            ds.foldl (fun n d => 10 * n + d) (10 * n + d) :=
          foldl_lt hcount.symm hes' (Nat.add_lt_add_left hgt _)
        exact absurd h (Nat.not_lt.mpr (Nat.le_of_lt hover))

theorem textLe_ofNatPadded (hwidth : 0 < width) (hm : m < Nat.pow 10 width)
    (hn : n < Nat.pow 10 width) (h : m < n) :
    textLe (Text.ofNatPadded 10 width m ++ s) (Text.ofNatPadded 10 width n ++ t) = true := by
  obtain ⟨ds, hds, hlength, hspells⟩ := Text.exists_ofNatPadded (by decide : 1 < 10) hwidth hm
  obtain ⟨es, hes, hlength', hspells'⟩ := Text.exists_ofNatPadded (by decide : 1 < 10) hwidth hn
  rw [hds, hes]
  apply textLe_digits (hlength.trans hlength'.symm) hspells.lt_base hspells'.lt_base
  rw [← hspells.value, ← hspells'.value] at h
  exact h

end Report

/-! ## Rows of numbers -/

def fillIn : List (Nat × Char) → List Nat → Text
  | (width, c) :: frame, n :: ns => Text.ofNatPadded 10 width n ++ c :: fillIn frame ns
  | _, _ => []

def HasRoom (frame : List (Nat × Char)) (ns : List Nat) : Prop :=
  List.Forall₂ (fun place n => 0 < place.1 ∧ n < Nat.pow 10 place.1) frame ns

variable {frame : List (Nat × Char)} {ms ns : List Nat}

theorem HasRoom.writes (h : HasRoom frame ns) :
    List.Forall₂ (fun place n => (Text.ofNatPadded 10 place.1 n).Writes place.1 n) frame ns :=
  h.imp fun _ _ hroom => Text.writes_ofNatPadded hroom.1 hroom.2

theorem textLe_fillIn (h : List.Lex (· < ·) ms ns) (hm : HasRoom frame ms)
    (hn : HasRoom frame ns) : Report.textLe (fillIn frame ms) (fillIn frame ns) = true := by
  induction h generalizing frame with
  | nil =>
      cases hm
      cases hn
  | rel hlt =>
      cases hm with
      | cons hfirst _ =>
          cases hn with
          | cons hfirst' _ =>
              exact Report.textLe_ofNatPadded hfirst.1 hfirst.2 hfirst'.2 hlt
  | cons _ ih =>
      cases hm with
      | cons _ hm =>
          cases hn with
          | cons _ hn =>
              rw [fillIn, fillIn, Report.textLe_append_left, Report.textLe, ih hm hn]
              simp

def frameForm (frame : List (Nat × Char)) : Text :=
  frame.flatMap fun place => List.replicate place.1 'd' ++ [place.2]

/-- The text has the form, in which a `d` stands for a digit and all else for itself. -/
def HasForm (form s : Text) : Prop :=
  List.Forall₂ (fun f c => if f = 'd' then c.isDigit = true else c = f) form s

theorem HasForm.append {form form' : Text} (h : HasForm form s) (h' : HasForm form' t) :
    HasForm (form ++ form') (s ++ t) :=
  List.rel_append h h'

theorem Text.Writes.hasForm (h : Writes width n s) : HasForm (List.replicate width 'd') s := by
  obtain ⟨rfl, hdigits, -⟩ := h
  induction s with
  | nil => exact .nil
  | cons c s ih =>
      apply List.Forall₂.cons
      · rw [if_pos rfl]
        exact hdigits c List.mem_cons_self
      · exact ih fun d hd => hdigits d (List.mem_cons_of_mem _ hd)

theorem hasForm_fillIn (hplain : ∀ place ∈ frame, place.2 ≠ 'd') (h : HasRoom frame ns) :
    HasForm (frameForm frame) (fillIn frame ns) := by
  induction h with
  | nil => exact .nil
  | @cons place n frame ns hfirst _ ih =>
      have hnumber := (Text.writes_ofNatPadded hfirst.1 hfirst.2).hasForm
      have hafter : HasForm [place.2] [place.2] := by
        apply List.Forall₂.cons _ .nil
        rw [if_neg (hplain place List.mem_cons_self)]
      have hrest := ih fun x hx => hplain x (List.mem_cons_of_mem _ hx)
      rw [fillIn, List.append_cons]
      exact (hnumber.append hafter).append hrest

end SourceScan
