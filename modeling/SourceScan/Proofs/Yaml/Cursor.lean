import SourceScan.Yaml.Scalar
import SourceScan.Yaml.Style

/-!
# A cursor on its way through a text

What a cursor has before it after a number of steps, and where it stands: characters that
are no line breaks take one column each, and a written break leads to the start of a line.
-/

namespace SourceScan.Yaml

def IsFlat (ch : Char) : Prop := isBreak ch = false ∧ ch ≠ '\uFEFF'

theorem isBreak_of_isWrittenBreak {ch : Char} (h : isWrittenBreak ch = true) :
    isBreak ch = true := by
  simp only [isWrittenBreak, isBreak, Bool.or_eq_true, decide_eq_true_eq] at h ⊢
  rcases h with ((h | h) | h) | h <;> simp [h]

theorem isFlat_space : IsFlat ' ' := by
  constructor <;> decide

def breakText (ch : Char) : Char := if ch = '\x85' then '\n' else ch

def lineStart (n : Nat) : Text := '\n' :: List.replicate n ' '

@[simp] theorem length_lineStart (n : Nat) : (lineStart n).length = n + 1 := by
  simp [lineStart]

namespace Cursor

variable {c : Cursor} {ch : Char} {s t r : Text}

theorem here_cons (h : c.rest = ch :: r) : c.here = ch := by
  simp [here, peek, h]

theorem here_nil (h : c.rest = []) : c.here = '\x00' := by
  simp [here, peek, h]

/-- What holds of the first character of a text, if it has one, holds where the text starts. -/
theorem here_of_head? {q : Char → Prop} (h : c.rest = r)
    (hr : ∀ ch, r.head? = some ch → q ch) (hend : q '\x00') : q c.here := by
  cases r with
  | nil => rwa [here_nil h]
  | cons ch r =>
      rw [here_cons h]
      exact hr ch rfl

theorem peek_succ_cons (h : c.rest = ch :: r) (n : Nat) : c.peek (n + 1) = r.getD n '\x00' := by
  simp [peek, h]

theorem peek_one_cons (h : c.rest = ch :: r) : c.peek 1 = r.headD '\x00' := by
  cases r <;> simp [peek, h]

/-! ## Steps -/

@[simp] theorem forward_zero (c : Cursor) : c.forward 0 = c := rfl

theorem forward_succ (n : Nat) (c : Cursor) : c.forward (n + 1) = c.next.forward n := rfl

theorem forward_one (c : Cursor) : c.forward 1 = c.next := rfl

theorem forward_add (m n : Nat) (c : Cursor) : c.forward (m + n) = (c.forward m).forward n := by
  induction m generalizing c with
  | zero => simp
  | succ m ih => rw [Nat.add_right_comm, forward_succ, forward_succ, ih]

theorem next_forward (n : Nat) (c : Cursor) : (c.forward n).next = c.forward (n + 1) := by
  rw [forward_add, forward_one]

theorem rest_next (c : Cursor) : c.next.rest = c.rest.tail := by
  unfold next
  split
  · next h => simp [h]
  · next h =>
      simp only [h, List.tail_cons]
      split
      · rfl
      · split <;> rfl

theorem rest_next_cons (h : c.rest = ch :: r) : c.next.rest = r := by
  rw [rest_next, h, List.tail_cons]

theorem rest_forward (n : Nat) (c : Cursor) : (c.forward n).rest = c.rest.drop n := by
  induction n generalizing c with
  | zero => rfl
  | succ n ih => rw [forward_succ, ih, rest_next, List.drop_tail]

theorem rest_forward_append (h : c.rest = t ++ r) : (c.forward t.length).rest = r := by
  rw [rest_forward, h, List.drop_left]

theorem rest_forward_spaces {k : Nat} (h : c.rest = List.replicate k ' ' ++ r) :
    (c.forward k).rest = r := by
  simpa using rest_forward_append h

theorem index_next (h : c.rest = ch :: r) : c.next.index = c.index + 1 := by
  unfold next
  simp only [h]
  split
  · rfl
  · split <;> rfl

theorem index_forward_append (h : c.rest = t ++ r) :
    (c.forward t.length).index = c.index + t.length := by
  induction t generalizing c with
  | nil => rfl
  | cons ch t ih =>
      rw [List.length_cons, forward_succ, ih (rest_next_cons h), index_next h]
      omega

theorem next_flat (h : c.rest = ch :: r) (hflat : IsFlat ch) :
    c.next.line = c.line ∧ c.next.column = c.column + 1 := by
  obtain ⟨hbreak, hmark⟩ := hflat
  simp only [isBreak, Bool.or_eq_false_iff, decide_eq_false_iff_not] at hbreak
  obtain ⟨⟨⟨⟨hr, hn⟩, hx⟩, hl⟩, hp⟩ := hbreak
  unfold next
  simp [h, hr, hn, hx, hl, hp, hmark]

theorem forward_flat (h : c.rest = t ++ r) (hflat : ∀ ch ∈ t, IsFlat ch) :
    (c.forward t.length).line = c.line ∧
      (c.forward t.length).column = c.column + t.length := by
  induction t generalizing c with
  | nil => exact ⟨rfl, rfl⟩
  | cons ch t ih =>
      obtain ⟨hline, hcolumn⟩ := next_flat h (hflat ch (by simp))
      obtain ⟨hline', hcolumn'⟩ := ih (rest_next_cons h) fun d hd => hflat d (by simp [hd])
      rw [List.length_cons, forward_succ, hline', hcolumn', hline, hcolumn]
      exact ⟨rfl, by omega⟩

theorem column_next_break (h : c.rest = ch :: r) (hbreak : isWrittenBreak ch = true) :
    c.next.column = 0 := by
  simp only [isWrittenBreak, Bool.or_eq_true, decide_eq_true_eq] at hbreak
  unfold next
  rcases hbreak with ((rfl | rfl) | rfl) | rfl <;> simp [h]

theorem column_lineStart {n : Nat} (h : c.rest = lineStart n ++ r) :
    (c.forward (n + 1)).column = n := by
  have hcolumn : c.next.column = 0 := column_next_break h (by decide)
  have hspaces : c.next.rest = List.replicate n ' ' ++ r := rest_next_cons h
  have hflat := (forward_flat hspaces fun ch hch => by
    rw [(List.mem_replicate.mp hch).2]
    exact isFlat_space).2
  rw [forward_succ]
  simpa [hcolumn] using hflat

theorem line_le_next (c : Cursor) : c.line ≤ c.next.line := by
  unfold next
  split
  · exact Nat.le_refl _
  · dsimp only
    split
    · exact Nat.le_succ _
    · split <;> exact Nat.le_refl _

theorem line_lineStart {n : Nat} (h : c.rest = lineStart n ++ r) :
    (c.forward (n + 1)).line = c.line + 1 := by
  have hcons : c.rest = '\n' :: (List.replicate n ' ' ++ r) := h
  have hflat := (forward_flat (rest_next_cons hcons) fun ch hch => by
    rw [(List.mem_replicate.mp hch).2]
    exact isFlat_space).1
  have hline : c.next.line = c.line + 1 := by
    unfold next
    simp [hcons]
  simpa [forward_succ, hline] using hflat

theorem line_le_forward (n : Nat) (c : Cursor) : c.line ≤ (c.forward n).line := by
  induction n generalizing c with
  | zero => exact Nat.le_refl _
  | succ n ih => exact Nat.le_trans (line_le_next c) (ih c.next)

/-! ## Runs of characters -/

theorem span_append {p : Char → Bool} (h : c.rest = t ++ r) (ht : ∀ ch ∈ t, p ch = true)
    (hr : ∀ ch, r.head? = some ch → p ch = false) : c.span p = (t, c.forward t.length) := by
  have htake : c.rest.takeWhile p = t := by
    rw [h, List.takeWhile_append_of_pos ht]
    cases r with
    | nil => simp
    | cons ch r => simp [hr ch rfl]
  simp [span, htake]

theorem span_spaces {p : Char → Bool} {k : Nat} (h : c.rest = List.replicate k ' ' ++ r)
    (hspace : p ' ' = true) (hr : ∀ ch, r.head? = some ch → p ch = false) :
    c.span p = (List.replicate k ' ', c.forward k) := by
  have hall : ∀ ch ∈ List.replicate k ' ', p ch = true := fun ch hch => by
    rw [(List.mem_replicate.mp hch).2, hspace]
  rw [span_append h hall hr, List.length_replicate]

theorem skip_spaces {p : Char → Bool} {k : Nat} (h : c.rest = List.replicate k ' ' ++ r)
    (hspace : p ' ' = true) (hr : ∀ ch, r.head? = some ch → p ch = false) :
    c.skip p = c.forward k := by
  rw [skip, span_spaces h hspace hr]

theorem span_none {p : Char → Bool} (h : c.rest = ch :: r) (hch : p ch = false) :
    c.span p = ([], c) := by
  simp [span, h, hch]

theorem skip_none {p : Char → Bool} (h : c.rest = ch :: r) (hch : p ch = false) :
    c.skip p = c := by
  rw [skip, span_none h hch]

theorem lineBreak_cons (h : c.rest = ch :: r) (hbreak : isWrittenBreak ch = true) :
    c.lineBreak = ([breakText ch], c.next) := by
  simp only [isWrittenBreak, Bool.or_eq_true, decide_eq_true_eq] at hbreak
  have hhere := here_cons h
  rcases hbreak with ((rfl | rfl) | rfl) | rfl <;>
    simp [lineBreak, hhere, breakText]

theorem atSeparator_eq_false (h : c.rest = ch :: r) (hdash : ch ≠ '-') (hdot : ch ≠ '.') :
    c.atSeparator = false := by
  simp [atSeparator, h, hdash, hdot]

end Cursor

end SourceScan.Yaml
