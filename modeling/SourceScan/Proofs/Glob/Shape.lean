import SourceScan.Proofs.Glob.Segments

/-!
# How rows end

Whatever line is read, the row ends with a piece for all that lies below: after a final `**` it is
the contents of a directory, after any other segment it may be nothing.  So a row that takes a path
takes everything below it.  It may also take the path with a slash after it only, which is how the
contents of a directory are meant; then it takes everything below it too, unless the slash goes to a
class of characters at the end of the last segment.
-/

namespace SourceScan.Glob

variable {s d b line : Text} {ss : List Text} {pieces own : List Piece}

/-! ## The pieces of any segment -/

def Piece.Inward : Piece → Prop
  | .char c => c ≠ '/'
  | .oneOf _ | .unit | .run | .segment => True
  | .leading | .inner | .below | .contents | .nested => False

theorem subset_of_splitBrackets {body rest : Text} {negated : Bool}
    (h : splitBrackets? s = some (negated, body, rest)) : rest ⊆ s := by
  obtain ⟨⟨before, d, after⟩, hcut, heq⟩ := Option.map_eq_some_iff.1 h
  simp only [Prod.mk.injEq] at heq
  obtain ⟨-, -, rfl⟩ := heq
  have hfirst : (splitFirstBracket (splitNegation s).2).2 ⊆ (splitNegation s).2 := by
    unfold splitFirstBracket
    split
    · exact List.nil_subset _
    · next hstart =>
        rw [hstart]
        split
        · exact List.subset_cons_self _ _
        · exact List.Subset.refl _
  have hnegation : (splitNegation s).2 ⊆ s := by
    unfold splitNegation
    split
    · exact List.Subset.refl _
    · split
      · exact List.subset_cons_self _ _
      · exact List.Subset.refl _
  intro c hc
  refine hnegation (hfirst ?_)
  rw [(Text.eq_of_cutWhere hcut).1]
  exact List.mem_append_right _ (List.mem_cons_of_mem _ hc)

theorem inward_segmentPieces (hslash : '/' ∉ s) (h : segmentPieces s = .ok pieces) :
    (∀ piece ∈ pieces, piece.Inward) ∧ (s ≠ [] → pieces ≠ []) := by
  have hcons : ∀ (piece : Piece) {s t : Text} {later : List Piece}, piece.Inward →
      ((∀ q ∈ later, q.Inward) ∧ (t ≠ [] → later ≠ [])) →
        (∀ q ∈ piece :: later, q.Inward) ∧ (s ≠ [] → piece :: later ≠ []) :=
    fun _ _ _ _ hpiece hlater =>
      ⟨List.forall_mem_cons.2 ⟨hpiece, hlater.1⟩, fun _ => List.cons_ne_nil _ _⟩
  fun_induction segmentPieces s generalizing pieces with
  | case1 =>
      cases h
      simp
  | case2 => cases h
  | case3 c rest ih =>
      obtain ⟨later, hlater, rfl⟩ := ok_of_map h
      simp only [List.mem_cons, not_or] at hslash
      exact hcons (.char c) (Ne.symm hslash.2.1) (ih hslash.2.2 hlater)
  | case4 rest _ ih =>
      obtain ⟨later, hlater, rfl⟩ := ok_of_map h
      rw [List.mem_cons, not_or] at hslash
      exact hcons .run trivial (ih hslash.2 hlater)
  | case5 rest _ _ ih =>
      obtain ⟨later, hlater, rfl⟩ := ok_of_map h
      rw [List.mem_cons, not_or] at hslash
      exact hcons .unit trivial (ih hslash.2 hlater)
  | case6 rest hbrackets _ _ _ ih =>
      obtain ⟨later, hlater, rfl⟩ := ok_of_map h
      rw [List.mem_cons, not_or] at hslash
      exact hcons (.char '[') (show '[' ≠ '/' by decide) (ih hslash.2 hlater)
  | case7 rest negated body after hbrackets _ _ _ ih =>
      obtain ⟨ranges, -, h⟩ := ok_of_bind h
      obtain ⟨later, hlater, h⟩ := ok_of_bind h
      cases h
      rw [List.mem_cons, not_or] at hslash
      exact hcons (.oneOf ⟨negated, ranges⟩) trivial
        (ih (fun hmem => hslash.2 (subset_of_splitBrackets hbrackets hmem)) hlater)
  | case8 c rest _ _ _ _ ih =>
      obtain ⟨later, hlater, rfl⟩ := ok_of_map h
      rw [List.mem_cons, not_or] at hslash
      exact hcons (.char c) (Ne.symm hslash.1) (ih hslash.2 hlater)

theorem inward_ownPieces (hslash : '/' ∉ s) (h : ownPieces s = .ok own) :
    (∀ piece ∈ own, piece.Inward) ∧ (s ≠ [] → own ≠ []) := by
  unfold ownPieces at h
  split at h
  · cases h
    exact ⟨by simp [Piece.Inward], fun _ => List.cons_ne_nil _ _⟩
  · exact inward_segmentPieces hslash h

/-! ## The end of a row -/

/-- The row ends with the contents of a directory, or with all that may lie below a piece inside a
segment. -/
inductive Ended : List Piece → Prop where
  | contents (front : List Piece) : Ended (front ++ [.contents])
  | below (front : List Piece) {piece : Piece} : piece.Inward → Ended (front ++ [piece, .below])

theorem Ended.append (h : Ended pieces) (front : List Piece) : Ended (front ++ pieces) := by
  cases h with
  | contents more =>
      rw [← List.append_assoc]
      exact .contents _
  | below more hpiece =>
      rw [← List.append_assoc]
      exact .below _ hpiece

theorem ended_of_own (hne : own ≠ []) (hown : ∀ piece ∈ own, piece.Inward) :
    Ended (own ++ [.below]) := by
  obtain ⟨front, piece, rfl⟩ := (List.eq_nil_or_concat' own).resolve_left hne
  rw [List.append_assoc]
  exact .below front (hown piece (by simp))

theorem ended_laterPieces {slash : Bool} (hss : ss ≠ []) (hslash : ∀ s ∈ ss, '/' ∉ s)
    (hlast : ss.getLast? ≠ some []) (h : laterPieces slash ss = .ok pieces) : Ended pieces := by
  induction ss generalizing slash pieces with
  | nil => exact absurd rfl hss
  | cons s ss ih =>
      obtain ⟨hs, hrest⟩ := List.forall_mem_cons.1 hslash
      have hlater : ∀ {later : List Piece}, ss ≠ [] → laterPieces true ss = .ok later →
          Ended later := fun hnil hlater => by
        refine ih hnil hrest ?_ hlater
        rwa [List.getLast?_cons_of_ne_nil hnil] at hlast
      by_cases hdepth : s = anyDepth
      · rw [laterPieces, if_pos hdepth] at h
        split at h
        · cases h
          exact .contents []
        · next hnil =>
            obtain ⟨later, hok, rfl⟩ := ok_of_map h
            exact (hlater (by simpa using hnil) hok).append [.inner]
      · rw [laterPieces_of_ne slash hdepth] at h
        obtain ⟨own, hown, h⟩ := ok_of_bind h
        obtain ⟨later, hok, h⟩ := ok_of_bind h
        cases h
        by_cases hnil : ss = []
        · subst hnil
          cases hok
          have hne : s ≠ [] := fun heq => hlast (by rw [heq]; rfl)
          obtain ⟨hinward, hfilled⟩ := inward_ownPieces hs hown
          simpa using
            (ended_of_own (hfilled hne) hinward).append (if slash then [.char '/'] else [])
        · exact (hlater hnil hok).append _

theorem ended_rowPieces (hslash : ∀ s ∈ ss, '/' ∉ s) (hlast : ss.getLast? ≠ some [])
    (h : rowPieces ss = .ok pieces) : Ended pieces := by
  cases ss with
  | nil => cases h
  | cons s ss =>
      by_cases hdepth : s = anyDepth
      · rw [rowPieces, if_pos hdepth] at h
        split at h
        · cases h
          have hinward : Piece.segment.Inward := trivial
          exact .below [] hinward
        · next hnil =>
            obtain ⟨later, hok, rfl⟩ := ok_of_map h
            have hne : ss ≠ [] := by simpa using hnil
            rw [List.getLast?_cons_of_ne_nil hne] at hlast
            have hrest := (List.forall_mem_cons.1 hslash).2
            exact (ended_laterPieces hne hrest hlast hok).append [.leading]
      · rw [rowPieces, if_neg hdepth] at h
        exact ended_laterPieces (List.cons_ne_nil _ _) hslash hlast h

/-- Making a pattern hold from the root adds no segments but `**`, and leaves none that is empty at
its end. -/
theorem exists_rooted (ss : List Text) : ∃ start : List Text,
    (∀ s ∈ start, s ∈ ss ∨ s = anyDepth) ∧
      rooted ss = if 1 < start.length ∧ start.getLast? = some [] then
        start.dropLast ++ [anyDepth] else start := by
  unfold rooted
  refine ⟨_, fun s h => ?_, rfl⟩
  split at h
  · exact .inl (List.mem_cons_of_mem _ h)
  · split at h
    · exact .inl h
    · exact (List.mem_cons.1 h).symm.imp_left fun h => h
  · split at h
    · exact .inl h
    · exact (List.mem_cons.1 h).symm.imp_left fun h => h
  · exact .inl h

theorem mem_rooted (h : s ∈ rooted ss) : s ∈ ss ∨ s = anyDepth := by
  obtain ⟨start, hstart, heq⟩ := exists_rooted ss
  rw [heq] at h
  split at h
  · rcases List.mem_append.1 h with h | h
    · exact hstart s (List.mem_of_mem_dropLast h)
    · exact .inr (List.mem_singleton.1 h)
  · exact hstart s h

theorem getLast?_rooted (ss : List Text) : (rooted ss).getLast? ≠ some [] ∨ rooted ss = [[]] := by
  obtain ⟨start, -, heq⟩ := exists_rooted ss
  rw [heq]
  split
  · simp [anyDepth]
  · next hshort =>
      rcases start with - | ⟨s, - | ⟨t, rest⟩⟩
      · simp
      · by_cases hs : s = []
        · exact .inr (by rw [hs])
        · exact .inl (by simpa using hs)
      · exact .inl fun hlast => hshort ⟨by simp, hlast⟩

theorem row_of_ofLine (h : Pattern.ofLine line = .ok (.row pieces)) :
    pieces = [.nested] ∨ pieces = [.below] ∨ Ended pieces := by
  rw [ofLine_text] at h
  generalize hline : (if ("\\ " : Text).isSuffixOf line then Text.stripStart line
    else Text.strip line) = stripped at h
  simp only at h
  split at h
  · cases h
  split at h
  · cases h
    exact .inl rfl
  · obtain ⟨row, hrow, heq⟩ := ok_of_map h
    cases heq
    rcases getLast?_rooted (collapse (Text.splitOn '/' stripped)) with hlast | hnil
    · refine .inr (.inr (ended_rowPieces (fun s hs => ?_) hlast hrow))
      rcases mem_rooted hs with hs | rfl
      · exact Text.not_mem_of_mem_splitOn (mem_collapse hs)
      · decide
    · have hbelow : rowPieces ([[]] : List Text) = .ok [.below] := by cbv
      rw [hnil, hbelow] at hrow
      cases hrow
      exact .inr (.inl rfl)

/-! ## What lies below a path -/

def Further (t : Text) : Prop := '\n' ∉ t ∧ (t = [] ∨ t.head? = some '/')

theorem Further.reads_below {t : Text} (h : Further t) : Piece.below.Reads t := by
  obtain ⟨hline, rfl | hhead⟩ := h
  · exact .inl rfl
  · cases t with
    | nil => cases hhead
    | cons c t =>
        cases hhead
        exact .inr ⟨t, fun hmem => hline (List.mem_cons_of_mem _ hmem), rfl⟩

theorem reads_below_append {c : Text} (h : Piece.below.Reads c) (hne : c ≠ []) (hb : '\n' ∉ b) :
    Piece.below.Reads (c ++ b) := by
  obtain rfl | ⟨a, ha, rfl⟩ := h
  · exact absurd rfl hne
  · exact .inr ⟨a ++ b, by simp [ha, hb], rfl⟩

/-- A row that takes a path takes everything below it. -/
theorem rowReads_append_slash (h : pieces = [.nested] ∨ pieces = [.below] ∨ Ended pieces)
    (hd : RowReads pieces d) (hb : '\n' ∉ b) : RowReads pieces (d ++ '/' :: b) := by
  have hbelow : ∀ {c : Text}, Piece.below.Reads c → Piece.below.Reads (c ++ '/' :: b) := by
    rintro _ (rfl | ⟨a, ha, rfl⟩)
    · exact .inr ⟨b, hb, rfl⟩
    · exact .inr ⟨a ++ '/' :: b, by simp [ha, hb], rfl⟩
  rcases h with rfl | rfl | hended
  · rw [rowReads_singleton] at hd ⊢
    obtain ⟨x, y, hne, hx, hy, rfl⟩ := hd
    exact ⟨x, y ++ '/' :: b, hne, hx, by simp [hy, hb], by simp⟩
  · rw [rowReads_singleton] at hd ⊢
    exact hbelow hd
  · cases hended with
    | contents front =>
        obtain ⟨x, _, hx, ⟨a, ha, rfl⟩, rfl⟩ := rowReads_snoc.1 hd
        exact rowReads_snoc.2 ⟨x, _, hx, ⟨a ++ '/' :: b, by simp [ha, hb], rfl⟩, by simp⟩
    | below front hpiece =>
        rw [List.append_cons] at hd ⊢
        obtain ⟨x, c, hx, hc, rfl⟩ := rowReads_snoc.1 hd
        exact rowReads_snoc.2 ⟨x, _, hx, hbelow hc, by simp⟩

/-- The slash after a path goes to a class at the end of the last segment. -/
def TakesSlash (pieces : List Piece) (d : Text) : Prop :=
  ∃ front k, pieces = front ++ [.oneOf k, .below] ∧ k.holds '/' = true ∧ RowReads front d

/-- A piece inside a segment takes a slash at the end only if it is a class, and otherwise leaves it
to the pieces before only if it is a run. -/
theorem reads_slash_of_inward {front : List Piece} {piece : Piece} (hpiece : piece.Inward)
    (h : RowReads (front ++ [piece]) (d ++ ['/'])) :
    (∃ k, piece = .oneOf k ∧ k.holds '/' = true ∧ RowReads front d) ∨
      (piece = .run ∧ RowReads front (d ++ ['/'])) := by
  obtain ⟨z, y, hz, hy, heq⟩ := rowReads_snoc.1 h
  have hlast : y ≠ [] → '/' ∈ y := by
    intro hne
    have hend := congrArg List.getLast? heq
    rw [List.getLast?_append_of_ne_nil _ hne] at hend
    exact List.mem_of_getLast? (hend.symm.trans (by simp))
  cases piece with
  | char c =>
      obtain rfl := hy
      exact absurd (List.mem_singleton.1 (hlast (by simp))).symm hpiece
  | oneOf k =>
      obtain ⟨c, hholds, rfl⟩ := hy
      obtain rfl := List.mem_singleton.1 (hlast (by simp))
      obtain ⟨rfl, -⟩ := List.append_inj' heq rfl
      exact .inl ⟨k, rfl, hholds, hz⟩
  | unit =>
      obtain ⟨c, hslash, rfl⟩ := hy
      exact absurd (List.mem_singleton.1 (hlast (by simp))).symm hslash
  | segment => exact absurd (hlast hy.1) hy.2
  | run =>
      have hrun : y = [] := by
        by_contra hne
        exact hy (hlast hne)
      rw [hrun, List.append_nil] at heq
      exact .inr ⟨rfl, heq ▸ hz⟩
  | leading | inner | below | contents | nested => cases hpiece

/-- A row that takes a path with a slash after it takes everything below the path, unless the slash
goes to a class. -/
theorem rowReads_of_slash (h : pieces = [.nested] ∨ pieces = [.below] ∨ Ended pieces)
    (hd : RowReads pieces (d ++ ['/'])) :
    TakesSlash pieces d ∨ ∀ x t, '/' ∉ x → '\n' ∉ x → Further t →
      RowReads pieces (d ++ '/' :: (x ++ t)) := by
  have hline : ∀ {x t : Text}, '\n' ∉ x → Further t → '\n' ∉ x ++ t := fun hx ht => by
    simp [hx, ht.1]
  have hcons : ∀ x t : Text, d ++ '/' :: (x ++ t) = (d ++ ['/']) ++ (x ++ t) := by simp
  rcases h with rfl | rfl | hended
  · rw [rowReads_singleton] at hd
    obtain ⟨a, c, hne, ha, hc, heq⟩ := hd
    refine .inr fun x t _ hx ht => rowReads_singleton.2 ⟨a, c ++ (x ++ t), hne, ha, ?_, ?_⟩
    · rw [List.mem_append, not_or]
      exact ⟨hc, hline hx ht⟩
    · rw [hcons, heq]
      simp
  · rw [rowReads_singleton] at hd
    refine .inr fun x t _ hx ht => rowReads_singleton.2 ?_
    rw [hcons]
    exact reads_below_append hd (by simp) (hline hx ht)
  · cases hended with
    | contents front =>
        obtain ⟨z, _, hz, ⟨a, ha, rfl⟩, heq⟩ := rowReads_snoc.1 hd
        refine .inr fun x t _ hx ht => rowReads_snoc.2 ⟨z, _, hz, ⟨a ++ (x ++ t), ?_, rfl⟩, ?_⟩
        · rw [List.mem_append, not_or]
          exact ⟨ha, hline hx ht⟩
        · rw [hcons, heq]
          simp
    | @below front piece hpiece =>
        rw [List.append_cons] at hd
        obtain ⟨z, c, hz, hc, heq⟩ := rowReads_snoc.1 hd
        -- The slash goes to the piece in front, or it opens what lies below.
        by_cases hnil : c = []
        · subst hnil
          rw [List.append_nil] at heq
          subst heq
          rcases reads_slash_of_inward hpiece hz with ⟨k, rfl, hholds, hfront⟩ | ⟨rfl, hfront⟩
          · exact .inl ⟨front, k, rfl, hholds, hfront⟩
          · refine .inr fun x t hslash hx ht => ?_
            rw [List.append_cons]
            exact rowReads_snoc.2 ⟨(d ++ ['/']) ++ x, t,
              rowReads_snoc.2 ⟨_, x, hfront, hslash, rfl⟩, ht.reads_below, by simp⟩
        · refine .inr fun x t _ hx ht => ?_
          rw [List.append_cons]
          refine rowReads_snoc.2 ⟨z, c ++ (x ++ t), hz,
            reads_below_append hc hnil (hline hx ht), ?_⟩
          rw [hcons, heq]
          simp

end SourceScan.Glob
