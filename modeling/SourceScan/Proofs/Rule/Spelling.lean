import SourceScan.Proofs.Path
import SourceScan.Rule.Match

/-!
# Patterns that spell a path out

A path below the root is matched in its normal form and a pattern without the blanks at
its ends.  Where neither changes anything, the pattern that spells a path out excludes
it, whatever characters stand in it.
-/

namespace SourceScan

/-! ## Trimming what need not be trimmed -/

theorem Text.trim_eq_self_iff {α : Type} {p : α → Bool} {s : List α} :
    Text.trim p s = s ↔
      (∀ c, s.head? = some c → p c = false) ∧ ∀ c, s.getLast? = some c → p c = false := by
  have hstart : s.dropWhile p = s ↔ ∀ c, s.head? = some c → p c = false := by
    cases s with
    | nil => simp
    | cons c s => simp [List.dropWhile_eq_self_iff]
  have hend : Text.dropEndWhile p s = s ↔ ∀ c, s.getLast? = some c → p c = false := by
    change s.rdropWhile p = s ↔ _
    rw [List.rdropWhile_eq_self_iff]
    constructor
    · intro h c hc
      have hne : s ≠ [] := by
        rintro rfl
        simp at hc
      rw [List.getLast?_eq_getLast_of_ne_nil hne] at hc
      cases hc
      simpa using h hne
    · intro h hne
      simpa using h _ (List.getLast?_eq_getLast_of_ne_nil hne)
  rw [← hstart, ← hend]
  constructor
  · intro h
    have hshort : (s.dropWhile p).length = s.length := by
      apply le_antisymm (List.length_dropWhile_le p s)
      calc s.length = (Text.trim p s).length := by rw [h]
        _ ≤ (s.dropWhile p).length := (List.rdropWhile_prefix p _).length_le
    have hsame := (List.dropWhile_suffix p).eq_of_length hshort
    refine ⟨hsame, ?_⟩
    unfold Text.trim at h
    rwa [hsame] at h
  · rintro ⟨h, h'⟩
    rw [Text.trim, h, h']

theorem Text.occursIn_iff {α : Type} [DecidableEq α] {needle s : List α} :
    Text.occursIn needle s = true ↔ needle <:+: s := by
  induction s with
  | nil => simp [Text.occursIn]
  | cons c s ih =>
      rw [Text.occursIn, Bool.or_eq_true, ih, List.isPrefixOf_iff_prefix, List.infix_cons_iff]

theorem normalizePath.dropDots_eq_self {s : Text} (h : ∀ r, s ≠ '.' :: '/' :: r) :
    dropDots s = s := by
  unfold dropDots
  split
  · rename_i r
    exact absurd rfl (h r)
  · rfl

/-! ## How a path is spelled -/

def Path.spelled (names : List FileName) : Text := (Path.mk 0 names).toRaw.shown

namespace Path

open FileTree

variable {names sub : List FileName} {name : FileName}

theorem spelled_eq (hne : names ≠ []) : spelled names = (joined names).shown := by
  simp [spelled, toRaw, hne]

theorem shown_append (r s : RawText) : (r ++ s).shown = r.shown ++ s.shown := by
  simp [RawText.shown]

theorem eq_slash_of_shown {u : TextUnit} (h : u.char?.getD '\uFFFD' = '/') :
    u = slash := by
  cases u with
  | char c =>
      cases h
      rfl
  | stray byte => simp [TextUnit.char?] at h

theorem slash_not_mem_shown (h : slash ∉ name) : '/' ∉ name.shown := by
  intro hmem
  obtain ⟨u, hu, hshown⟩ := List.mem_map.1 hmem
  exact h (eq_slash_of_shown hshown ▸ hu)

theorem eq_dot_of_shown {u : TextUnit} (h : u.char?.getD '\uFFFD' = '.') : u = dot := by
  cases u with
  | char c =>
      cases h
      rfl
  | stray byte => simp [TextUnit.char?] at h

theorem eq_dotDot_of_shown (h : name.shown = dotDot.shown) : name = dotDot := by
  have hlength : name.length = 2 := by
    simpa [RawText.shown, dotDot] using congrArg List.length h
  obtain ⟨u, v, rfl⟩ := List.length_eq_two.1 hlength
  simp only [RawText.shown, dotDot, List.map_cons, List.map_nil, List.cons.injEq] at h
  rw [eq_dot_of_shown h.1, eq_dot_of_shown h.2.1]
  rfl

theorem spelled_snoc (hne : names ≠ []) :
    spelled (names ++ [name]) = spelled names ++ '/' :: name.shown := by
  rw [spelled_eq (by simp), spelled_eq hne, joined_snoc name hne, shown_append]
  rfl

theorem head?_spelled (hne : name ≠ []) :
    (spelled (name :: names)).head? = name.shown.head? := by
  rw [spelled_eq (by simp)]
  cases names with
  | nil => rw [joined_singleton]
  | cons next names =>
      rw [joined_cons name (by simp), shown_append, List.head?_append_of_ne_nil]
      simpa [RawText.shown] using hne

theorem getLast?_spelled (hne : name ≠ []) :
    (spelled (names ++ [name])).getLast? = name.shown.getLast? := by
  rcases List.eq_nil_or_concat' names with rfl | ⟨above, last, rfl⟩
  · rw [List.nil_append, spelled_eq (by simp), joined_singleton]
  · rw [spelled_snoc (by simp), List.getLast?_append_of_ne_nil _ (List.cons_ne_nil _ _)]
    cases name with
    | nil => exact absurd rfl hne
    | cons u name => simp [RawText.shown]

theorem slash_free_ends (hnames : ∀ name ∈ names, isEntryName name = true) :
    Text.trim (fun c => decide (c = '/')) (spelled names) = spelled names := by
  have hfree : ∀ {name : FileName} {c : Char}, name ∈ names → c ∈ name.shown →
      decide (c = '/') = false := by
    intro name c hname hc
    rw [decide_eq_false_iff_not]
    rintro rfl
    exact slash_not_mem_shown (slash_not_mem (hnames name hname)) hc
  rw [Text.trim_eq_self_iff]
  constructor
  · intro c hc
    cases names with
    | nil =>
        cases hc
        rfl
    | cons name names =>
        rw [head?_spelled (ne_nil_of_isEntryName (hnames name List.mem_cons_self)).1] at hc
        exact hfree List.mem_cons_self (List.mem_of_head? hc)
  · intro c hc
    rcases List.eq_nil_or_concat' names with rfl | ⟨sub, name, rfl⟩
    · cases hc
      rfl
    · have hname : name ∈ sub ++ [name] := by simp
      rw [getLast?_spelled (ne_nil_of_isEntryName (hnames name hname)).1] at hc
      exact hfree hname (List.mem_of_getLast? hc)

theorem spelled_ne_dots (hnames : ∀ name ∈ names, isEntryName name = true) (r : Text) :
    spelled names ≠ '.' :: '/' :: r := by
  intro heq
  cases names with
  | nil => cases heq
  | cons name names =>
      have hname := hnames name List.mem_cons_self
      obtain ⟨hnil, hdot⟩ := ne_nil_of_isEntryName hname
      obtain ⟨rest, hrest⟩ := joined_eq_append name names
      rw [spelled_eq (by simp), hrest] at heq
      cases name with
      | nil => exact hnil rfl
      | cons u name =>
          simp only [RawText.shown, List.cons_append, List.map_cons, List.cons.injEq] at heq
          obtain ⟨hu, heq⟩ := heq
          cases name with
          | nil => exact hdot (by rw [eq_dot_of_shown hu])
          | cons v name =>
              simp only [List.cons_append, List.map_cons, List.cons.injEq] at heq
              have hv := eq_slash_of_shown heq.1
              exact slash_not_mem hname (by simp [hv])

theorem normalizePath_spelled (hnames : ∀ name ∈ names, isEntryName name = true)
    (hslash : '\\' ∉ spelled names) : normalizePath (spelled names) = spelled names := by
  have hmap : (spelled names).map (fun c => if c = '\\' then '/' else c) = spelled names := by
    rw [List.map_congr_left (g := id), List.map_id]
    intro c hc
    have hne : c ≠ '\\' := fun heq => hslash (heq ▸ hc)
    simp [hne]
  rw [normalizePath, hmap, normalizePath.dropDots_eq_self (spelled_ne_dots hnames),
    slash_free_ends hnames]

/-- The path is spelled with neither backslashes nor blanks at its ends. -/
def Plain (names : List FileName) : Prop :=
  '\\' ∉ spelled names ∧ Text.strip (spelled names) = spelled names

theorem Plain.last (h : Plain (sub ++ [name])) : '\\' ∉ name.shown := by
  have hclean := h.1
  cases sub with
  | nil => rwa [List.nil_append, spelled_eq (by simp), joined_singleton] at hclean
  | cons first sub =>
      rw [spelled_snoc (by simp)] at hclean
      exact fun hmem => hclean (List.mem_append_right _ (List.mem_cons_of_mem _ hmem))

theorem Plain.beside {other : FileName} (h : Plain (sub ++ [name]))
    (hsub : ∀ entry ∈ sub, entry ≠ []) (hother : other ≠ []) (hslash : '\\' ∉ other.shown)
    (hhead : ∀ c, other.shown.head? = some c → Text.isBlank c = false)
    (hlast : ∀ c, other.shown.getLast? = some c → Text.isBlank c = false) :
    Plain (sub ++ [other]) := by
  obtain ⟨hclean, hstrip⟩ := h
  obtain ⟨hstart, -⟩ := Text.trim_eq_self_iff.1 hstrip
  constructor
  · cases sub with
    | nil => rwa [List.nil_append, spelled_eq (by simp), joined_singleton]
    | cons first sub =>
        rw [spelled_snoc (by simp)] at hclean ⊢
        simp only [List.mem_append, List.mem_cons, not_or] at hclean ⊢
        exact ⟨hclean.1, hclean.2.1, hslash⟩
  · refine Text.trim_eq_self_iff.2 ⟨?_, fun c hc => ?_⟩
    · cases sub with
      | nil =>
          rw [List.nil_append, head?_spelled hother]
          exact hhead
      | cons first sub =>
          have hfirst := hsub first List.mem_cons_self
          rw [List.cons_append, head?_spelled hfirst] at hstart ⊢
          exact hstart
    · rw [getLast?_spelled hother] at hc
      exact hlast c hc

theorem spelled_ne_nil (hnames : ∀ name ∈ names, isEntryName name = true)
    (hne : names ≠ []) : spelled names ≠ [] := by
  cases names with
  | nil => exact absurd rfl hne
  | cons name names =>
      have hname := (ne_nil_of_isEntryName (hnames name List.mem_cons_self)).1
      obtain ⟨rest, hrest⟩ := joined_eq_append name names
      rw [spelled_eq (by simp), hrest, shown_append]
      intro heq
      apply hname
      simpa [RawText.shown] using (List.append_eq_nil_iff.1 heq).1

theorem excludes_of_spelled (m : Matcher) {patterns : List Text}
    (hmem : spelled names ∈ patterns) (hne : names ≠ [])
    (hnames : ∀ name ∈ names, isEntryName name = true) (hplain : Plain names) :
    m.excludes (spelled names) patterns false = true := by
  have hspelled := spelled_ne_nil hnames hne
  have hmatch : m.matchesPattern (spelled names) (spelled names) false = true := by
    rw [Matcher.matchesPattern, hplain.2]
    simp [hspelled]
  rw [Matcher.excludes, normalizePath_spelled hnames hplain.1]
  simp only [ne_eq, hspelled, not_false_eq_true, decide_true, Bool.true_and,
    Bool.or_eq_true, List.any_eq_true]
  exact .inr ⟨_, hmem, hmatch⟩

/-! ## Rules for other paths -/

theorem cons_spelled (hne : names ≠ []) :
    '/' :: spelled names = names.flatMap fun name => '/' :: name.shown := by
  induction names with
  | nil => exact absurd rfl hne
  | cons name names ih =>
      cases names with
      | nil => rw [spelled_eq (by simp), joined_singleton, List.flatMap_singleton]
      | cons next names =>
          rw [List.flatMap_cons, ← ih (by simp), spelled_eq (by simp), spelled_eq (by simp),
            joined_cons name (by simp), shown_append]
          rfl

theorem splitOn_flatMap_shown (hnames : ∀ name ∈ names, slash ∉ name) :
    List.splitOn '/' (names.flatMap fun name => '/' :: name.shown) =
      [] :: names.map RawText.shown := by
  induction names with
  | nil => rfl
  | cons name names ih =>
      have hname := slash_not_mem_shown (hnames name List.mem_cons_self)
      have hrest := ih fun other hother => hnames other (List.mem_cons_of_mem _ hother)
      rw [List.flatMap_cons, List.cons_append, List.splitOn_cons_eq_if_modifyHead,
        if_pos (beq_self_eq_true _)]
      cases names with
      | nil =>
          rw [List.flatMap_nil, List.append_nil, List.splitOn_eq_singleton hname]
          rfl
      | cons next names =>
          rw [List.flatMap_cons, List.cons_append, List.splitOn_cons_eq_if_modifyHead,
            if_pos (beq_self_eq_true _), List.cons.injEq] at hrest
          rw [List.flatMap_cons, List.cons_append,
            List.splitOn_append_cons_self_of_not_mem hname, hrest.2]
          rfl

theorem mem_of_splitOn_spelled (hnames : ∀ name ∈ names, slash ∉ name) (hne : names ≠ [])
    {piece : Text} (h : piece ∈ List.splitOn '/' ('/' :: spelled names)) :
    piece = [] ∨ ∃ name ∈ names, name.shown = piece := by
  rw [cons_spelled hne, splitOn_flatMap_shown hnames, List.mem_cons, List.mem_map] at h
  exact h

theorem mem_of_matchesPlain (hsub : ∀ entry ∈ sub, slash ∉ entry)
    (hnames : ∀ name ∈ names, slash ∉ name) (hne : names ≠ [])
    (h : matchesPlain (spelled names) (spelled (sub ++ [name])) = true) :
    ∀ entry ∈ sub, entry.shown = [] ∨ ∃ other ∈ names, other.shown = entry.shown := by
  intro entry hentry
  have hinfix : '/' :: spelled (sub ++ [name]) <:+: '/' :: spelled names := by
    simp only [matchesPlain, Bool.or_eq_true, decide_eq_true_eq, Text.occursIn_iff,
      List.isPrefixOf_iff_prefix] at h
    rcases h with (heq | hoccurs) | hprefix
    · rw [heq]
    · exact hoccurs.trans (List.suffix_cons _ _).isInfix
    · have hpattern := (List.prefix_append _ ['/']).trans hprefix
      exact (List.cons_prefix_cons.2 ⟨rfl, hpattern⟩).isInfix
  -- A directory stands between two slashes, and so it does where the rule is found.
  obtain ⟨before, after, heq⟩ := hinfix
  obtain ⟨above, below, rfl⟩ := List.append_of_mem hentry
  have hrest : below ++ [name] ≠ [] := by simp
  have hown : above ++ entry :: below ++ [name] = above ++ ([entry] ++ (below ++ [name])) := by
    simp
  rw [cons_spelled (by simp), hown, List.flatMap_append, List.flatMap_append,
    List.flatMap_singleton, ← cons_spelled hrest] at heq
  refine mem_of_splitOn_spelled hnames hne ?_
  have hsplit : '/' :: spelled names =
      (before ++ above.flatMap fun name => '/' :: name.shown) ++
        '/' :: (entry.shown ++ '/' :: (spelled (below ++ [name]) ++ after)) := by
    rw [← heq]
    simp
  have hentry' := slash_not_mem_shown (hsub entry hentry)
  rw [hsplit, List.splitOn_append_cons_self,
    List.splitOn_append_cons_self_of_not_mem hentry']
  simp

theorem matchesPattern_of_literal (m : Matcher) {path pattern : Text} {isDir : Bool}
    (hne : pattern ≠ []) (hstrip : Text.strip pattern = pattern)
    (hliteral : hasWildcard pattern = false) (hend : pattern.getLast? ≠ some '/') :
    m.matchesPattern path pattern isDir = matchesPlain path pattern := by
  simp only [Matcher.matchesPattern, hstrip, hne, hliteral, hend, if_false,
    Bool.false_eq_true]
  split
  · simp [matchesPlain, *]
  · rfl

theorem not_matches_of_away (m : Matcher) {isDir : Bool} {entry : FileName}
    (hsub : ∀ entry ∈ sub, entry ≠ [] ∧ slash ∉ entry) (hname : name ≠ [] ∧ slash ∉ name)
    (hplain : Plain (sub ++ [name]))
    (hliteral : hasWildcard (spelled (sub ++ [name])) = false)
    (hnames : ∀ name ∈ names, slash ∉ name) (hne : names ≠ []) (hentry : entry ∈ sub)
    (haway : ∀ other ∈ names, other.shown ≠ entry.shown) :
    m.matchesPattern (spelled names) (spelled (sub ++ [name])) isDir = false := by
  have hlast : (spelled (sub ++ [name])).getLast? = name.shown.getLast? :=
    getLast?_spelled hname.1
  have hfilled : spelled (sub ++ [name]) ≠ [] := by
    intro hnil
    rw [hnil, List.getLast?_nil, eq_comm, List.getLast?_eq_none_iff] at hlast
    exact hname.1 (List.map_eq_nil_iff.1 hlast)
  have hend : (spelled (sub ++ [name])).getLast? ≠ some '/' := by
    rw [hlast]
    exact fun h => slash_not_mem_shown hname.2 (List.mem_of_getLast? h)
  rw [matchesPattern_of_literal m hfilled hplain.2 hliteral hend, Bool.eq_false_iff]
  intro h
  rcases mem_of_matchesPlain (fun entry hentry => (hsub entry hentry).2) hnames hne h
    entry hentry with hnil | ⟨other, hother, heq⟩
  · exact (hsub entry hentry).1 (List.map_eq_nil_iff.1 hnil)
  · exact haway other hother heq

theorem excludes_append (m : Matcher) {own others : List Text} {isDir : Bool}
    (hnames : ∀ name ∈ names, isEntryName name = true) (hslash : '\\' ∉ spelled names)
    (hown : ∀ pattern ∈ own, m.matchesPattern (spelled names) pattern isDir = false) :
    m.excludes (spelled names) (own ++ others) isDir =
      m.excludes (spelled names) others isDir := by
  have hnone : own.any (m.matchesPattern (spelled names) · isDir) = false := by
    rw [List.any_eq_false]
    intro pattern hpattern
    simp [hown pattern hpattern]
  simp only [Matcher.excludes, normalizePath_spelled hnames hslash, List.any_append, hnone,
    Bool.false_or]

end Path

end SourceScan
