import SourceScan.Proofs.Glob.Expansion
import SourceScan.Proofs.Glob.Segments
import SourceScan.Proofs.Rule.Normal

/-!
# What a glob rule means

A rule whose alternatives are rows of segments, without brackets, escapes and blanks, matches a path
if it is the path, or if the segments of one alternative take the first segments of the path.  No
blank is trimmed off such a rule, and reading its alternatives as lines of an ignore file changes
nothing about their segments.
-/

namespace SourceScan.Glob

/-! ## Alternatives as lines -/

/-- The segments of an alternative; a slash in front changes nothing. -/
def segmentsOf (alternative : Text) : List Text :=
  Text.splitOn '/' (match alternative with
    | '/' :: rest => rest
    | _ => alternative)

theorem segmentsOf_of_ne {c : Char} (hc : c ≠ '/') (t : Text) :
    segmentsOf (c :: t) = Text.splitOn '/' (c :: t) := by
  unfold segmentsOf
  split
  · next heq => exact absurd (List.cons.inj heq).1 hc
  · rfl

/-- A row of segments with no two `**` side by side and one segment at least which is another. -/
structure IsRow (ss : List Text) : Prop where
  segments : ∀ s ∈ ss, IsSegment s
  apart : ss.IsChain fun s t => ¬(s = anyDepth ∧ t = anyDepth)
  named : ∃ s ∈ ss, s ≠ anyDepth

instance : DecidablePred IsRow := fun ss => decidable_of_iff
  ((∀ s ∈ ss, IsSegment s) ∧ (ss.IsChain fun s t => ¬(s = anyDepth ∧ t = anyDepth)) ∧
    ∃ s ∈ ss, s ≠ anyDepth)
  ⟨fun h => ⟨h.1, h.2.1, h.2.2⟩, fun h => ⟨h.segments, h.apart, h.named⟩⟩

variable {ss : List Text} {a line : Text}

theorem getLast?_ne_some_nil (h : [] ∉ ss) : ss.getLast? ≠ some [] :=
  fun hlast => h (List.mem_of_getLast? hlast)

theorem rooted_of_slash (h : [] ∉ ss) : rooted ([] :: ss) = ss := by
  simp only [rooted, getLast?_ne_some_nil h, and_false, if_false]

theorem rooted_of_named (h : [] ∉ ss) (hlength : 1 < ss.length) : rooted ss = ss := by
  have hlast := getLast?_ne_some_nil h
  rcases ss with - | ⟨- | ⟨c, s⟩, - | ⟨- | ⟨d, t⟩, rest⟩⟩
  · cases hlength
  · simp at h
  · simp at h
  · simp at h
  · simp at hlength
  · simp at h
  · exact if_neg fun h => hlast h.2

theorem ofLine_eq (hblank : ∀ c ∈ line, Text.isBlank c = false) (hhash : line.head? ≠ some '#')
    (happart : (Text.splitOn '/' line).IsChain fun s t => ¬(s = anyDepth ∧ t = anyDepth))
    (hnamed : ∃ s ∈ Text.splitOn '/' line, s ≠ anyDepth ∧ s ≠ []) :
    Pattern.ofLine line = (rowPieces (rooted (Text.splitOn '/' line))).map .row := by
  have hspace : ¬("\\ " : Text).isSuffixOf line = true := by
    intro h
    rw [List.isSuffixOf_iff_suffix] at h
    have := hblank ' ' (h.subset (by decide))
    revert this
    decide
  have hstrip : Text.strip line = line := Text.trim_eq_self_iff.2
    ⟨fun c hc => hblank c (List.mem_of_head? hc), fun c hc => hblank c (List.mem_of_getLast? hc)⟩
  obtain ⟨s, hs, hdepth, hne⟩ := hnamed
  have hrest : ¬(line = [] ∨ line = ['/'] ∨ line.head? = some '#') := by
    rintro (rfl | rfl | h)
    · exact hne (List.mem_singleton.1 hs)
    · exact hne (by simpa [Text.splitOn, Text.splitOn.go] using hs)
    · exact hhash h
  have hnested : Text.splitOn '/' line ≠ [anyDepth, []] := by
    intro h
    rw [h] at hs
    simp only [List.mem_cons, List.not_mem_nil, or_false] at hs
    exact hs.elim hdepth hne
  rw [ofLine_text, if_neg hspace, hstrip]
  simp only [if_neg hrest, collapse_eq_self happart, if_neg hnested]

theorem splitOn_slash (t : Text) : Text.splitOn '/' ('/' :: t) = [] :: Text.splitOn '/' t := by
  rw [Text.splitOn_eq, Text.splitOn_eq, List.splitOn_cons_eq_if_modifyHead,
    if_pos (beq_self_eq_true _)]

theorem splitOn_cons_of_ne {c : Char} (hc : c ≠ '/') {t first : Text} {rest : List Text}
    (h : Text.splitOn '/' t = first :: rest) :
    Text.splitOn '/' (c :: t) = (c :: first) :: rest := by
  rw [Text.splitOn_eq] at h ⊢
  rw [List.splitOn_cons_eq_if_modifyHead, if_neg (by simpa using hc), h, List.modifyHead_cons]

theorem exists_splitOn_cons {c : Char} (hc : c ≠ '/') (t : Text) :
    ∃ first rest, Text.splitOn '/' t = first :: rest ∧
      Text.splitOn '/' (c :: t) = (c :: first) :: rest := by
  cases h : Text.splitOn '/' t with
  | nil =>
      rw [Text.splitOn_eq] at h
      exact absurd h (List.splitOn_ne_nil _ _)
  | cons first rest => exact ⟨first, rest, rfl, splitOn_cons_of_ne hc h⟩

theorem mem_or_of_mem_splitOn {c : Char} {t : Text} (hc : c ∈ t) :
    c = '/' ∨ ∃ s ∈ Text.splitOn '/' t, c ∈ s := by
  have hmem : c ∈ slashed (Text.splitOn '/' t) := by
    rw [← slash_cons_eq_slashed]
    exact List.mem_cons_of_mem _ hc
  obtain ⟨s, hs, hmem⟩ := List.mem_flatMap.1 hmem
  rcases List.mem_cons.1 hmem with rfl | hmem
  · exact .inl rfl
  · exact .inr ⟨s, hs, hmem⟩

namespace IsRow

theorem filled (h : IsRow ss) : [] ∉ ss := fun hmem => (h.segments [] hmem).filled rfl

theorem not_blank {t : Text} (h : IsRow (Text.splitOn '/' t)) :
    ∀ c ∈ t, Text.isBlank c = false := by
  intro c hc
  rcases mem_or_of_mem_splitOn hc with rfl | ⟨s, hs, hmem⟩
  · decide
  · have hordinary := (h.segments s hs).ordinary c hmem
    simp only [isOrdinary, Bool.and_eq_true, Bool.not_eq_true'] at hordinary
    exact hordinary.2

theorem one_lt_length {t : Text} (h : IsRow (Text.splitOn '/' t))
    (hstarts : anyDepth.isPrefixOf t = true) : 1 < (Text.splitOn '/' t).length := by
  obtain ⟨t, rfl⟩ := List.isPrefixOf_iff_prefix.1 hstarts
  obtain ⟨first, rest, hrest, hsplit⟩ := exists_splitOn_cons (by decide : '*' ≠ '/') t
  have hstars := splitOn_cons_of_ne (by decide : '*' ≠ '/') hsplit
  change Text.splitOn '/' (anyDepth ++ t) = _ at hstars
  rw [hstars] at h ⊢
  cases rest with
  | cons next rest => simp
  | nil =>
      obtain ⟨s, hs, hdepth⟩ := h.named
      obtain rfl := List.mem_singleton.1 hs
      have hfree := (h.segments _ hs).stars.resolve_left hdepth
      simp [Text.occursIn, anyDepth] at hfree

end IsRow

theorem ofLine_slash {t : Text} (hblank : ∀ c ∈ t, Text.isBlank c = false)
    (happart : (Text.splitOn '/' t).IsChain fun s t => ¬(s = anyDepth ∧ t = anyDepth))
    (hfilled : [] ∉ Text.splitOn '/' t) (hnamed : ∃ s ∈ Text.splitOn '/' t, s ≠ anyDepth) :
    Pattern.ofLine ('/' :: t) = (rowPieces (Text.splitOn '/' t)).map .row := by
  obtain ⟨s, hs, hdepth⟩ := hnamed
  have hsplit := splitOn_slash t
  rw [ofLine_eq, hsplit, rooted_of_slash hfilled]
  · intro c hc
    rcases List.mem_cons.1 hc with rfl | hc
    · decide
    · exact hblank c hc
  · simp
  · rw [hsplit]
    exact List.isChain_cons.2 ⟨fun t _ h => (by cases h.1), happart⟩
  · rw [hsplit]
    exact ⟨s, List.mem_cons_of_mem _ hs, hdepth, fun h => hfilled (h ▸ hs)⟩

theorem rowPieces_escaped {c : Char} (hc : c = '!' ∨ c = '#') (s : Text) :
    rowPieces (('\\' :: c :: s) :: ss) = rowPieces ((c :: s) :: ss) := by
  have hown : ownPieces ('\\' :: c :: s) = ownPieces (c :: s) := by
    have hsame : segmentPieces (c :: s) = (segmentPieces s).map (.char c :: ·) := by
      rcases hc with rfl | rfl <;>
        exact segmentPieces_same (by decide) (by decide) (by decide) (by decide) s
    rcases hc with rfl | rfl <;> simp [ownPieces, hsame, segmentPieces, Piece.literal]
  have hdepth : c :: s ≠ anyDepth := by
    rcases hc with rfl | rfl <;> exact fun h => by cases h
  have hdepth' : '\\' :: c :: s ≠ anyDepth := fun h => by cases h
  rw [rowPieces, if_neg hdepth', rowPieces, if_neg hdepth, laterPieces_of_ne false hdepth,
    laterPieces_of_ne false hdepth', hown]

theorem ofLine_anchoredLine (h : IsRow (segmentsOf a)) :
    Pattern.ofLine (anchoredLine a) = (rowPieces (segmentsOf a)).map .row := by
  rcases a with - | ⟨c, t⟩
  · exact absurd (List.mem_singleton.2 rfl) h.filled
  by_cases hslash : c = '/'
  · subst hslash
    exact ofLine_slash h.not_blank h.apart h.filled h.named
  rw [segmentsOf_of_ne hslash] at h ⊢
  -- The escape of a mark is gone once the segments are read.
  by_cases hmark : c = '!' ∨ c = '#'
  · obtain ⟨first, rest, -, hsplit⟩ := exists_splitOn_cons hslash t
    have hescaped : Text.splitOn '/' ('\\' :: c :: t) = ('\\' :: c :: first) :: rest :=
      splitOn_cons_of_ne (by decide) hsplit
    have hline : anchoredLine (c :: t) = '/' :: '\\' :: c :: t := by
      rcases hmark with rfl | rfl <;> rfl
    have hne : ∀ s ∈ Text.splitOn '/' (c :: t), s ≠ [] := fun s hs => (h.segments s hs).filled
    rw [hline, ofLine_slash, hescaped, hsplit, rowPieces_escaped hmark]
    · intro d hd
      rcases List.mem_cons.1 hd with rfl | hd
      · decide
      · exact h.not_blank d hd
    · have happart := h.apart
      rw [hsplit] at happart
      rw [hescaped]
      exact List.isChain_cons.2 ⟨fun t _ h => (by cases h.1), (List.isChain_cons.1 happart).2⟩
    · rw [hescaped]
      rw [hsplit] at hne
      intro hmem
      exact (List.mem_cons.1 hmem).elim (fun h => by cases h)
        fun hmem => hne [] (List.mem_cons_of_mem _ hmem) rfl
    · rw [hescaped]
      exact ⟨_, List.mem_cons_self, fun h => by cases h⟩
  · simp only [not_or] at hmark
    have hline : anchoredLine (c :: t) =
        if anyDepth.isPrefixOf (c :: t) then c :: t else '/' :: c :: t := by
      simp [anchoredLine, hmark, hslash]
    rw [hline]
    split
    · next hstarts =>
        -- Such a line is left as it is, and has more than one segment.
        have hlength := h.one_lt_length hstarts
        rw [ofLine_eq h.not_blank (by simpa using hmark.2) h.apart,
          rooted_of_named h.filled hlength]
        obtain ⟨s, hs, hdepth⟩ := h.named
        exact ⟨s, hs, hdepth, (h.segments s hs).filled⟩
    · exact ofLine_slash h.not_blank h.apart h.filled h.named

/-- The pattern of an alternative takes what its segments take, and then anything below that. -/
theorem exists_pattern (h : IsRow (segmentsOf a)) : ∃ pieces,
    Pattern.ofLine (anchoredLine a) = .ok (.row pieces) ∧
      ∀ (ps : List Text) (e : Text), (∀ p ∈ ps, IsEntry p) → (e = [] ∨ e = ['/']) →
        ∀ path, '/' :: path = slashed ps ++ e → (RowReads pieces path ↔
          ∃ front back, ps = front ++ back ∧
            Takes (e ≠ [] ∧ back = []) (segmentsOf a) front) := by
  obtain ⟨pieces, hpieces, hreads⟩ := exists_rowPieces h.segments h.apart h.named
  exact ⟨pieces, by rw [ofLine_anchoredLine h, hpieces]; rfl, hreads⟩

/-! ## The paths that a rule matches -/

theorem takes_ne_nil {orNone : Prop} {ps : List Text} (h : Takes orNone ss ps)
    (hnamed : ∃ s ∈ ss, s ≠ anyDepth) : ps ≠ [] := by
  induction h with
  | done => simp at hnamed
  | one => exact List.cons_ne_nil _ _
  | through skipped hss _ ih =>
      have hrest := ih (by simpa using hnamed)
      simp [hrest]
  | contents => simp at hnamed

variable {rule path : Text} {patterns : List Pattern}

section Alternatives

variable (hrule : ∀ a ∈ expand rule, IsRow (segmentsOf a))
include hrule

theorem exists_compile : ∃ patterns, compile rule = .ok patterns :=
  exists_mapM_ok fun a ha =>
    let ⟨_, hpattern, _⟩ := exists_pattern (hrule a ha)
    ⟨_, hpattern⟩

theorem anyHolds_iff (hcompile : compile rule = .ok patterns) {ps : List Text} {e : Text}
    (hps : ∀ p ∈ ps, IsEntry p) (he : e = [] ∨ e = ['/'])
    (hpath : '/' :: withoutLead path = slashed ps ++ e) :
    anyHolds patterns path = true ↔ ∃ a ∈ expand rule, ∃ front back, ps = front ++ back ∧
      Takes (e ≠ [] ∧ back = []) (segmentsOf a) front := by
  have hlast : (withoutLead path).getLast? ≠ some '\n' := by
    intro h
    refine newline_not_mem_append hps he ?_
    rw [← hpath]
    exact List.mem_cons_of_mem _ (List.mem_of_getLast? h)
  simp only [anyHolds, List.any_eq_true, mem_compile hcompile]
  constructor
  · rintro ⟨pattern, ⟨a, ha, hline⟩, hholds⟩
    obtain ⟨pieces, hpieces, hreads⟩ := exists_pattern (hrule a ha)
    cases hline.symm.trans hpieces
    rw [Pattern.holds_row_of_getLast? hlast] at hholds
    exact ⟨a, ha, (hreads ps e hps he _ hpath).1 hholds⟩
  · rintro ⟨a, ha, htakes⟩
    obtain ⟨pieces, hpieces, hreads⟩ := exists_pattern (hrule a ha)
    refine ⟨_, ⟨a, ha, hpieces⟩, ?_⟩
    rw [Pattern.holds_row_of_getLast? hlast]
    exact (hreads ps e hps he _ hpath).2 htakes

theorem strip_of_rows : Text.strip rule = rule := by
  have hblank : ∀ c ∈ rule, Text.isBlank c = false := by
    intro c hc
    by_cases hmark : isGroupMark c = true
    · simp only [isGroupMark, Bool.or_eq_true, decide_eq_true_eq] at hmark
      rcases hmark with (rfl | rfl) | rfl <;> decide
    · obtain ⟨a, ha, hmem⟩ := exists_mem_expand (Bool.eq_false_iff.2 hmark) hc
      rcases a with - | ⟨d, t⟩
      · cases hmem
      have hrow := hrule _ ha
      by_cases hslash : d = '/'
      · subst hslash
        rcases List.mem_cons.1 hmem with rfl | hmem
        · decide
        · exact hrow.not_blank c hmem
      · rw [segmentsOf_of_ne hslash] at hrow
        exact hrow.not_blank c hmem
  exact Text.trim_eq_self_iff.2
    ⟨fun c hc => hblank c (List.mem_of_head? hc), fun c hc => hblank c (List.mem_of_getLast? hc)⟩

end Alternatives

/-- A glob rule matches the path that it spells and every path of which an alternative takes the
first segments.  A final `**` may take none of them if the path is a directory, but for the single
dot, whose slash is dropped with it. -/
theorem matchesPattern_iff_takes (hwild : hasWildcard rule = true)
    (hrule : ∀ a ∈ expand rule, IsRow (segmentsOf a)) (hnormal : normalizePath path = path)
    (hpath : ∀ p ∈ Text.splitOn '/' path, p ≠ [] ∧ '\n' ∉ p) (isDir : Bool) :
    Matcher.standard.matchesPattern path rule isDir = true ↔
      path = rule ∨ ∃ a ∈ expand rule, ∃ front back, Text.splitOn '/' path = front ++ back ∧
        Takes (isDir = true ∧ path ≠ ['.'] ∧ back = []) (segmentsOf a) front := by
  obtain ⟨patterns, hcompile⟩ := exists_compile hrule
  have hps : ∀ p ∈ Text.splitOn '/' path, IsEntry p := fun p hp =>
    ⟨(hpath p hp).1, Text.not_mem_of_mem_splitOn hp, (hpath p hp).2⟩
  have hne : path ≠ [] := by
    rintro rfl
    exact (hpath [] (List.mem_singleton.2 rfl)).1 rfl
  have hplain : anyHolds patterns path = true ↔ ∃ a ∈ expand rule, ∃ front back,
      Text.splitOn '/' path = front ++ back ∧ Takes False (segmentsOf a) front := by
    rw [anyHolds_iff hrule hcompile hps (.inl rfl)
      (by rw [withoutLead_eq_self hnormal, slash_cons_eq_slashed, List.append_nil])]
    simp
  have hslash : anyHolds patterns (path ++ ['/']) = true ↔ ∃ a ∈ expand rule, ∃ front back,
      Text.splitOn '/' path = front ++ back ∧
        path ≠ ['.'] ∧ Takes (back = []) (segmentsOf a) front := by
    -- Of the single dot with a slash after it only the slash is left.
    by_cases hdot : path = ['.']
    · subst hdot
      have hroot : '/' :: withoutLead (['.'] ++ ['/']) = slashed [] ++ ['/'] := rfl
      rw [anyHolds_iff hrule hcompile (List.forall_mem_nil _) (.inr rfl) hroot]
      simp only [ne_eq, not_true_eq_false, false_and, and_false, exists_false, iff_false]
      rintro ⟨a, ha, front, back, hnil, htakes⟩
      exact takes_ne_nil htakes (hrule a ha).named (List.append_eq_nil_iff.1 hnil.symm).1
    · rw [anyHolds_iff hrule hcompile hps (.inr rfl)
        (by rw [withoutLead_below hnormal hne hdot, ← List.cons_append, slash_cons_eq_slashed])]
      simp [hdot]
  have hrule' : rule ≠ [] := by
    rintro rfl
    cases hwild
  simp only [Matcher.matchesPattern, strip_of_rows hrule, hrule', hwild, Matcher.matchesGlob,
    Matcher.standard, hcompile, if_true, if_false]
  by_cases heq : path = rule
  · simp [heq]
  · simp only [heq, if_false, false_or, Bool.or_eq_true, Bool.and_eq_true, hplain, hslash]
    constructor
    · rintro (⟨a, ha, front, back, hsplit, htakes⟩ |
        ⟨hdir, a, ha, front, back, hsplit, hdot, htakes⟩)
      · exact ⟨a, ha, front, back, hsplit, htakes.mono False.elim⟩
      · exact ⟨a, ha, front, back, hsplit, htakes.mono fun hback => ⟨hdir, hdot, hback⟩⟩
    · rintro ⟨a, ha, front, back, hsplit, htakes⟩
      by_cases hflag : isDir = true ∧ path ≠ ['.']
      · exact .inr ⟨hflag.1, a, ha, front, back, hsplit, hflag.2, htakes.mono fun h => h.2.2⟩
      · exact .inl ⟨a, ha, front, back, hsplit, htakes.mono fun h => hflag ⟨h.1, h.2.1⟩⟩

theorem expand_nested : expand ("src/**/*.\x7bpy,pyi\x7d" : Text) =
    [("src/**/*.py" : Text), ("src/**/*.pyi" : Text)] := by
  have hcut : Text.cutWhere (· = '\x7b') ("src/**/*.\x7bpy,pyi\x7d" : Text) =
      some (("src/**/*." : Text), '\x7b', ("py,pyi\x7d" : Text)) := by decide
  have hsplit : splitGroup 0 [] [] ("py,pyi\x7d" : Text) =
      some ([("py" : Text), ("pyi" : Text)], []) := by decide
  have hpy : expand (("src/**/*." : Text) ++ ("py" : Text) ++ []) = [("src/**/*.py" : Text)] :=
    expand_of_literal (by decide)
  have hpyi : expand (("src/**/*." : Text) ++ ("pyi" : Text) ++ []) =
      [("src/**/*.pyi" : Text)] := expand_of_literal (by decide)
  rw [expand_of_choice hcut hsplit, List.flatMap_cons, List.flatMap_cons, hpy, hpyi]
  decide

theorem matchesPattern_iff_takes_nested : Matcher.standard.matchesPattern ("src/a/b.py" : Text)
    ("src/**/*.\x7bpy,pyi\x7d" : Text) false = true := by
  have hrows : ∀ a ∈ expand ("src/**/*.\x7bpy,pyi\x7d" : Text), IsRow (segmentsOf a) := by
    rw [expand_nested]
    decide
  have hsegments : segmentsOf ("src/**/*.py" : Text) =
      [("src" : Text), anyDepth, ("*.py" : Text)] := by decide
  refine (matchesPattern_iff_takes (by decide) hrows (by decide) (by decide) false).2
    (.inr ⟨("src/**/*.py" : Text), by rw [expand_nested]; exact List.mem_cons_self,
      [("src" : Text), ("a" : Text), ("b.py" : Text)], [], by decide, ?_⟩)
  rw [hsegments]
  exact .one (by decide) (fits_self (by decide) (by decide)) (.through [("a" : Text)] (by simp)
    (.one (by decide) (.star ['b'] (fits_self (by decide) (by decide))) .done))

/-- Without the exception for the single dot the two sides differ. -/
theorem not_matchesPattern_root : ¬∀ (rule path : Text) (isDir : Bool),
    hasWildcard rule = true → (∀ a ∈ expand rule, IsRow (segmentsOf a)) →
    normalizePath path = path → (∀ p ∈ Text.splitOn '/' path, p ≠ [] ∧ '\n' ∉ p) →
    (Matcher.standard.matchesPattern path rule isDir = true ↔
      path = rule ∨ ∃ a ∈ expand rule, ∃ front back, Text.splitOn '/' path = front ++ back ∧
        Takes (isDir = true ∧ back = []) (segmentsOf a) front) := by
  intro h
  have hexpand : expand ("*/**" : Text) = [("*/**" : Text)] := expand_of_literal (by decide)
  have hsegments : segmentsOf ("*/**" : Text) = [['*'], anyDepth] := by decide
  have hcompile : compile ("*/**" : Text) = .ok [.row [.segment, .contents]] := by
    rw [compile, hexpand]
    cbv
  have hmiss : Matcher.standard.matchesGlob ("." : Text) ("*/**" : Text) true = false := by
    rw [Matcher.matchesGlob, hcompile]
    decide
  have hroot := (h ("*/**" : Text) ("." : Text) true (by decide)
    (by rw [hexpand]; decide) (by decide) (by decide)).2
    (.inr ⟨("*/**" : Text), by rw [hexpand]; exact List.mem_cons_self, [("." : Text)], [],
      by decide, by
        rw [hsegments]
        exact .one (by decide) (fits_star _) (.contents (.inr ⟨rfl, rfl⟩))⟩)
  have hstrip : Text.strip ("*/**" : Text) = ("*/**" : Text) := by decide
  rw [Matcher.matchesPattern, hstrip, if_neg (by decide), if_neg (by decide), if_pos (by decide),
    hmiss] at hroot
  cases hroot

end SourceScan.Glob
