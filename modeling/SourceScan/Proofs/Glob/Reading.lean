import SourceScan.Proofs.Path
import SourceScan.Proofs.Steps
import SourceScan.Rule.Match

/-!
# What a row of pieces reads

A row of pieces is run on a text by keeping all rests that it can leave.  What is left depends on
what the pieces take: a row takes a text if the text can be cut so that each piece takes its own
part.  A pattern then holds of the texts that its row takes, and of those with a line feed after
them.
-/

namespace SourceScan.Glob

variable {s t a b : Text} {p : Char → Bool}

/-! ## Runs of characters -/

theorem mem_restsAfterRun :
    t ∈ restsAfterRun p s ↔ ∃ a, (∀ c ∈ a, p c = true) ∧ s = a ++ t := by
  induction s with
  | nil =>
      rw [restsAfterRun, List.mem_singleton]
      constructor
      · rintro rfl
        exact ⟨[], by simp, rfl⟩
      · rintro ⟨a, -, h⟩
        exact (List.append_eq_nil_iff.1 h.symm).2
  | cons c cs ih =>
      rw [restsAfterRun, List.mem_cons]
      constructor
      · rintro (rfl | h)
        · exact ⟨[], by simp, rfl⟩
        · split at h
          · next hc =>
              obtain ⟨a, ha, rfl⟩ := ih.1 h
              exact ⟨c :: a, by simpa [hc] using ha, rfl⟩
          · cases h
      · rintro ⟨a, ha, h⟩
        cases a with
        | nil => exact .inl h.symm
        | cons d a =>
            obtain ⟨rfl, rfl⟩ := List.cons.inj h
            rw [List.forall_mem_cons] at ha
            rw [if_pos ha.1]
            exact .inr (ih.2 ⟨a, ha.2, rfl⟩)

theorem mem_restsAfterSome :
    t ∈ restsAfterSome p s ↔ ∃ a, a ≠ [] ∧ (∀ c ∈ a, p c = true) ∧ s = a ++ t := by
  cases s with
  | nil => simp [restsAfterSome]
  | cons c cs =>
      rw [restsAfterSome]
      constructor
      · intro h
        split at h
        · next hc =>
            obtain ⟨a, ha, rfl⟩ := mem_restsAfterRun.1 h
            exact ⟨c :: a, List.cons_ne_nil _ _, by simpa [hc] using ha, rfl⟩
        · cases h
      · rintro ⟨a, hne, ha, h⟩
        cases a with
        | nil => exact absurd rfl hne
        | cons d a =>
            obtain ⟨rfl, rfl⟩ := List.cons.inj h
            rw [List.forall_mem_cons] at ha
            rw [if_pos ha.1]
            exact mem_restsAfterRun.2 ⟨a, ha.2, rfl⟩

theorem mem_restsAfterSlash : t ∈ restsAfterSlash s ↔ s = '/' :: t := by
  unfold restsAfterSlash
  split
  · rw [List.mem_singleton, List.cons.injEq, eq_comm]
    simp
  · next h =>
      simp only [List.not_mem_nil, false_iff]
      exact h t

theorem all_isSegmentChar : (∀ c ∈ a, isSegmentChar c = true) ↔ '/' ∉ a := by
  simp only [isSegmentChar, decide_eq_true_eq]
  exact ⟨fun h hmem => h _ hmem rfl, fun h c hc heq => h (heq ▸ hc)⟩

theorem all_isLineChar : (∀ c ∈ a, isLineChar c = true) ↔ '\n' ∉ a := by
  simp only [isLineChar, decide_eq_true_eq]
  exact ⟨fun h hmem => h _ hmem rfl, fun h c hc heq => h (heq ▸ hc)⟩

/-! ## Pieces -/

def Piece.Reads : Piece → Text → Prop
  | .char c, a => a = [c]
  | .oneOf k, a => ∃ c, k.holds c = true ∧ a = [c]
  | .unit, a => ∃ c, c ≠ '/' ∧ a = [c]
  | .run, a => '/' ∉ a
  | .segment, a => a ≠ [] ∧ '/' ∉ a
  | .leading, a => a = [] ∨ ∃ b, b ≠ [] ∧ '\n' ∉ b ∧ a = b ++ ['/']
  | .inner, a => a = [] ∨ ∃ b, b ≠ [] ∧ '\n' ∉ b ∧ a = '/' :: b
  | .below, a => a = [] ∨ ∃ b, '\n' ∉ b ∧ a = '/' :: b
  | .contents, a => ∃ b, '\n' ∉ b ∧ a = '/' :: b
  | .nested, a => ∃ b c, b ≠ [] ∧ '\n' ∉ b ∧ '\n' ∉ c ∧ a = b ++ '/' :: c

theorem mem_restsAfterOne (q : Char → Prop) [DecidablePred q] {d : Char} {ds : Text} :
    t ∈ (if q d then [ds] else []) ↔ ∃ a, (∃ c, q c ∧ a = [c]) ∧ d :: ds = a ++ t := by
  constructor
  · intro h
    split at h
    · next hd =>
        rw [List.mem_singleton.1 h]
        exact ⟨[d], ⟨d, hd, rfl⟩, rfl⟩
    · cases h
  · rintro ⟨_, ⟨c, hc, rfl⟩, heq⟩
    obtain ⟨rfl, rfl⟩ := List.cons.inj heq
    simp [hc]

/-- A piece leaves what follows a text that it takes. -/
theorem Piece.mem_rests (piece : Piece) :
    t ∈ piece.rests s ↔ ∃ a, piece.Reads a ∧ s = a ++ t := by
  cases piece with
  | char c =>
      cases s with
      | nil => simp [rests, Reads]
      | cons d ds => simpa [rests, Reads] using mem_restsAfterOne (c = ·)
  | oneOf k =>
      cases s with
      | nil => simp [rests, Reads]
      | cons d ds => exact mem_restsAfterOne (k.holds · = true)
  | unit =>
      cases s with
      | nil => simp [rests, Reads]
      | cons d ds => simpa [rests, Reads, isSegmentChar] using mem_restsAfterOne (· ≠ '/')
  | run => simp only [rests, Reads, mem_restsAfterRun, all_isSegmentChar]
  | segment => simp only [rests, Reads, mem_restsAfterSome, all_isSegmentChar, and_assoc]
  | leading =>
      simp only [rests, Reads, List.mem_cons, List.mem_flatMap, mem_restsAfterSome,
        mem_restsAfterSlash, all_isLineChar]
      constructor
      · rintro (rfl | ⟨_, ⟨b, hne, hb, rfl⟩, rfl⟩)
        · exact ⟨[], .inl rfl, rfl⟩
        · exact ⟨_, .inr ⟨b, hne, hb, rfl⟩, by simp⟩
      · rintro ⟨_, rfl | ⟨b, hne, hb, rfl⟩, rfl⟩
        · exact .inl rfl
        · exact .inr ⟨_, ⟨b, hne, hb, by simp⟩, rfl⟩
  | inner =>
      simp only [rests, Reads, List.mem_cons, List.mem_flatMap, mem_restsAfterSome,
        mem_restsAfterSlash, all_isLineChar]
      constructor
      · rintro (rfl | ⟨_, rfl, b, hne, hb, rfl⟩)
        · exact ⟨[], .inl rfl, rfl⟩
        · exact ⟨_, .inr ⟨b, hne, hb, rfl⟩, rfl⟩
      · rintro ⟨_, rfl | ⟨b, hne, hb, rfl⟩, rfl⟩
        · exact .inl rfl
        · exact .inr ⟨_, rfl, b, hne, hb, rfl⟩
  | below =>
      simp only [rests, Reads, List.mem_cons, List.mem_flatMap, mem_restsAfterRun,
        mem_restsAfterSlash, all_isLineChar]
      constructor
      · rintro (rfl | ⟨_, rfl, b, hb, rfl⟩)
        · exact ⟨[], .inl rfl, rfl⟩
        · exact ⟨_, .inr ⟨b, hb, rfl⟩, rfl⟩
      · rintro ⟨_, rfl | ⟨b, hb, rfl⟩, rfl⟩
        · exact .inl rfl
        · exact .inr ⟨_, rfl, b, hb, rfl⟩
  | contents =>
      simp only [rests, Reads, List.mem_flatMap, mem_restsAfterRun, mem_restsAfterSlash,
        all_isLineChar]
      constructor
      · rintro ⟨_, rfl, b, hb, rfl⟩
        exact ⟨_, ⟨b, hb, rfl⟩, rfl⟩
      · rintro ⟨_, ⟨b, hb, rfl⟩, rfl⟩
        exact ⟨_, rfl, b, hb, rfl⟩
  | nested =>
      simp only [rests, Reads, List.mem_flatMap, mem_restsAfterSome, mem_restsAfterRun,
        mem_restsAfterSlash, all_isLineChar]
      constructor
      · rintro ⟨_, ⟨_, ⟨b, hne, hb, rfl⟩, rfl⟩, c, hc, rfl⟩
        exact ⟨_, ⟨b, c, hne, hb, hc, rfl⟩, by simp⟩
      · rintro ⟨_, ⟨b, c, hne, hb, hc, rfl⟩, rfl⟩
        exact ⟨_, ⟨_, ⟨b, hne, hb, by simp⟩, rfl⟩, c, hc, rfl⟩

/-! ## Rows -/

variable {piece : Piece} {pieces more : List Piece}

def RowReads : List Piece → Text → Prop
  | [], a => a = []
  | piece :: pieces, a => ∃ b c, piece.Reads b ∧ RowReads pieces c ∧ a = b ++ c

theorem rowReads_append :
    RowReads (pieces ++ more) a ↔ ∃ b c, RowReads pieces b ∧ RowReads more c ∧ a = b ++ c := by
  induction pieces generalizing a with
  | nil =>
      constructor
      · intro h
        exact ⟨[], a, rfl, h, rfl⟩
      · rintro ⟨_, c, rfl, h, rfl⟩
        exact h
  | cons piece pieces ih =>
      rw [List.cons_append]
      constructor
      · rintro ⟨b, _, hb, h, rfl⟩
        obtain ⟨c, e, hc, he, rfl⟩ := ih.1 h
        exact ⟨b ++ c, e, ⟨b, c, hb, hc, rfl⟩, he, by simp⟩
      · rintro ⟨_, e, ⟨b, c, hb, hc, rfl⟩, he, rfl⟩
        exact ⟨b, c ++ e, hb, ih.2 ⟨c, e, hc, he, rfl⟩, by simp⟩

theorem rowReads_singleton : RowReads [piece] a ↔ piece.Reads a := by
  constructor
  · rintro ⟨b, _, hb, rfl, rfl⟩
    rwa [List.append_nil]
  · intro h
    exact ⟨a, [], h, rfl, by simp⟩

theorem rowReads_snoc :
    RowReads (pieces ++ [piece]) a ↔ ∃ b c, RowReads pieces b ∧ piece.Reads c ∧ a = b ++ c := by
  simp only [rowReads_append, rowReads_singleton]

/-- A row leaves what follows a text that it takes. -/
theorem mem_rowRests : t ∈ rowRests pieces s ↔ ∃ a, RowReads pieces a ∧ s = a ++ t := by
  have hfold : ∀ (pieces : List Piece) (starts : List Text),
      t ∈ pieces.foldl (fun rests piece => (rests.flatMap piece.rests).eraseDups) starts ↔
        ∃ s ∈ starts, ∃ a, RowReads pieces a ∧ s = a ++ t := by
    intro pieces
    induction pieces with
    | nil =>
        intro starts
        simp [RowReads]
    | cons piece pieces ih =>
        intro starts
        simp only [List.foldl_cons, ih, List.mem_eraseDups, List.mem_flatMap, piece.mem_rests]
        constructor
        · rintro ⟨_, ⟨s, hs, b, hb, rfl⟩, c, hc, rfl⟩
          exact ⟨_, hs, _, ⟨b, c, hb, hc, rfl⟩, by simp⟩
        · rintro ⟨_, hs, _, ⟨b, c, hb, hc, rfl⟩, rfl⟩
          exact ⟨_, ⟨_, hs, b, hb, by simp⟩, c, hc, rfl⟩
  simp only [rowRests, hfold, List.mem_singleton, exists_eq_left]

/-- A pattern holds of what its row takes, and of that with a line feed after it. -/
theorem Pattern.holds_row :
    (Pattern.row pieces).holds s = true ↔
      RowReads pieces s ∨ ∃ a, RowReads pieces a ∧ s = a ++ ['\n'] := by
  simp only [Pattern.holds, List.any_eq_true, mem_rowRests, atEnd, Bool.or_eq_true,
    decide_eq_true_eq]
  constructor
  · rintro ⟨_, ⟨a, ha, rfl⟩, rfl | rfl⟩
    · exact .inl (by rwa [List.append_nil])
    · exact .inr ⟨a, ha, rfl⟩
  · rintro (h | ⟨a, ha, rfl⟩)
    · exact ⟨[], ⟨s, h, by simp⟩, .inl rfl⟩
    · exact ⟨['\n'], ⟨a, ha, rfl⟩, .inr rfl⟩

theorem Pattern.holds_row_of_getLast? (h : s.getLast? ≠ some '\n') :
    (Pattern.row pieces).holds s = true ↔ RowReads pieces s := by
  rw [holds_row, or_iff_left]
  rintro ⟨a, -, rfl⟩
  simp at h

/-! ## The alternatives of a rule -/

theorem mem_compile {rule : Text} {patterns : List Pattern} (h : compile rule = .ok patterns)
    {pattern : Pattern} :
    pattern ∈ patterns ↔ ∃ a ∈ expand rule, Pattern.ofLine (anchoredLine a) = .ok pattern :=
  mem_of_mapM h

/-! ## Neighbouring `**` segments -/

section Collapse

variable {ss : List Text}

theorem collapse_eq_self (h : ss.IsChain fun s t => ¬(s = anyDepth ∧ t = anyDepth)) :
    collapse ss = ss := by
  fun_induction collapse ss with
  | case1 s t rest heq ih => exact absurd heq (List.isChain_cons_cons.1 h).1
  | case2 s t rest hne ih => rw [ih (List.isChain_cons_cons.1 h).2]
  | case3 => rfl

theorem mem_collapse (h : s ∈ collapse ss) : s ∈ ss := by
  fun_induction collapse ss with
  | case1 t u rest heq ih => exact List.mem_cons_of_mem _ (ih h)
  | case2 t u rest hne ih =>
      rcases List.mem_cons.1 h with rfl | h
      · exact List.mem_cons_self
      · exact List.mem_cons_of_mem _ (ih h)
  | case3 => exact h

end Collapse

end SourceScan.Glob
