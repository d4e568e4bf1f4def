import SourceScan.Proofs.Glob.Expansion
import SourceScan.Proofs.Glob.Shape
import SourceScan.Proofs.Rule.Normal

/-!
# What lies below an excluded directory

A walk does not enter a directory that is excluded, while a watcher asks for each path by itself.
The two agree if a rule that excludes a directory excludes every path below it as well.  This holds
of hidden directories, of plain rules and of rules for directories, and of all glob rules but one
kind: a class of characters at the end of an alternative may take the slash after a directory, which
is then excluded itself and nothing below it.
-/

namespace SourceScan

open Glob (slashed)

variable {d : Text} {names : List Text}

/-! ## Paths below a path -/

def IsName (name : Text) : Prop := name ≠ [] ∧ '/' ∉ name ∧ '\\' ∉ name ∧ '\n' ∉ name

theorem exists_slashed (hne : names ≠ []) : ∃ x rest, names = x :: rest ∧
    slashed names = '/' :: (x ++ slashed rest) := by
  cases names with
  | nil => exact absurd rfl hne
  | cons x rest => exact ⟨x, rest, rfl, rfl⟩

theorem mem_slashed {c : Char} (h : c ∈ slashed names) : c = '/' ∨ ∃ x ∈ names, c ∈ x := by
  obtain ⟨x, hx, hmem⟩ := List.mem_flatMap.1 h
  exact (List.mem_cons.1 hmem).imp_right fun hmem => ⟨x, hx, hmem⟩

theorem splitOn_ne_nil (s : Text) : Text.splitOn '/' s ≠ [] := by
  rw [Text.splitOn_eq]
  exact List.splitOn_ne_nil _ _

theorem splitOn_cut (s t : Text) :
    Text.splitOn '/' (s ++ '/' :: t) = Text.splitOn '/' s ++ Text.splitOn '/' t :=
  Text.splitOn_append_cons '/' s t

theorem splitOn_below (hnames : ∀ x ∈ names, '/' ∉ x) (d : Text) :
    Text.splitOn '/' (d ++ slashed names) = Text.splitOn '/' d ++ names := by
  induction names generalizing d with
  | nil => simp [slashed]
  | cons x names ih =>
      obtain ⟨hx, hrest⟩ := List.forall_mem_cons.1 hnames
      have hcut : d ++ slashed (x :: names) = d ++ '/' :: (x ++ slashed names) := rfl
      rw [hcut, splitOn_cut, ih hrest x, Text.splitOn_eq '/' x, List.splitOn_eq_singleton hx]
      rfl

theorem normalizePath_below (hnormal : normalizePath d = d) (hd : d ≠ []) (hdot : d ≠ ['.'])
    (hne : names ≠ []) (hnames : ∀ x ∈ names, IsName x) :
    normalizePath (d ++ slashed names) = d ++ slashed names := by
  obtain ⟨hslash, hdots, hhead, -⟩ := normalizePath_eq_self_iff.1 hnormal
  obtain ⟨first, rest, rfl, hslashed⟩ := exists_slashed hne
  refine normalizePath_eq_self_iff.2 ⟨?_, fun r heq => ?_, ?_, ?_⟩
  · rw [List.mem_append, not_or]
    refine ⟨hslash, fun hmem => ?_⟩
    rcases mem_slashed hmem with h | ⟨x, hx, hmem⟩
    · cases h
    · exact (hnames x hx).2.2.1 hmem
  · have hlead := Glob.withoutLead_below hnormal hd hdot (first ++ slashed rest)
    rw [← hslashed, heq] at hlead
    have hlength := congrArg List.length hlead
    simp only [Glob.withoutLead, List.length_cons] at hlength
    omega
  · rwa [List.head?_append_of_ne_nil _ hd]
  · obtain ⟨above, last, hlast⟩ := (List.eq_nil_or_concat' (first :: rest)).resolve_left hne
    have hname := hnames last (by rw [hlast]; simp)
    rw [hlast, slashed, List.flatMap_append, List.flatMap_singleton, ← List.append_assoc,
      List.getLast?_append_of_ne_nil _ (List.cons_ne_nil _ _),
      List.getLast?_cons_of_ne_nil hname.1]
    exact fun h => hname.2.1 (List.mem_of_getLast? h)

/-! ## One rule -/

theorem isBuiltinExcluded_below {isDir other : Bool} (hne : names ≠ [])
    (hnames : ∀ x ∈ names, '/' ∉ x) (h : isBuiltinExcluded d isDir = true) :
    isBuiltinExcluded (d ++ slashed names) other = true := by
  have hmarker : ∀ name ∈ markerNames, isHidden name = true := by decide
  -- A marker file is hidden, should it be a directory.
  obtain ⟨s, hs, hhidden⟩ : ∃ s ∈ Text.splitOn '/' d, isHidden s = true := by
    simp only [isBuiltinExcluded, Bool.or_eq_true, Option.any_eq_true, decide_eq_true_eq,
      List.any_eq_true] at h
    rcases h with ⟨s, hlast, hs⟩ | ⟨s, hs, hhidden⟩
    · exact ⟨s, List.mem_of_getLast? hlast, hmarker s hs⟩
    · refine ⟨s, ?_, hhidden⟩
      split at hs
      · exact hs
      · exact List.mem_of_mem_dropLast hs
  simp only [isBuiltinExcluded, splitOn_below hnames, Bool.or_eq_true, List.any_eq_true]
  refine .inr ⟨s, ?_, hhidden⟩
  split
  · exact List.mem_append_left _ hs
  · rw [List.dropLast_append_of_ne_nil hne]
    exact List.mem_append_left _ hs

theorem matchesDirectory_below {name : Text} (hne : names ≠ [])
    (h : matchesDirectory d name = true) : matchesDirectory (d ++ slashed names) name = true := by
  obtain ⟨x, rest, rfl, hslashed⟩ := exists_slashed hne
  simp only [matchesDirectory, Bool.and_eq_true, Bool.or_eq_true, decide_eq_true_eq,
    List.isPrefixOf_iff_prefix, Text.occursIn_iff] at h ⊢
  refine ⟨h.1, ?_⟩
  rcases h.2 with (rfl | hstarts) | hwithin
  · refine .inl (.inr ?_)
    rw [hslashed]
    exact ⟨x ++ slashed rest, by simp⟩
  · exact .inl (.inr (hstarts.trans (List.prefix_append _ _)))
  · exact .inr (hwithin.trans (List.prefix_append _ _).isInfix)

theorem matchesPlain_below {pattern : Text} (hne : names ≠ [])
    (h : matchesPlain d pattern = true) : matchesPlain (d ++ slashed names) pattern = true := by
  obtain ⟨x, rest, rfl, hslashed⟩ := exists_slashed hne
  simp only [matchesPlain, Bool.or_eq_true, decide_eq_true_eq, List.isPrefixOf_iff_prefix,
    Text.occursIn_iff] at h ⊢
  rcases h with (rfl | hwithin) | hstarts
  · refine .inr ?_
    rw [hslashed]
    exact ⟨x ++ slashed rest, by simp⟩
  · exact .inl (.inr (hwithin.trans (List.prefix_append _ _).isInfix))
  · exact .inr (hstarts.trans (List.prefix_append _ _))

/-- An alternative of the rule takes the slash after the directory with a class of characters. -/
def ClassTakesSlash (rule d : Text) : Prop :=
  ∃ patterns pieces, Glob.compile rule = .ok patterns ∧ .row pieces ∈ patterns ∧
    Glob.TakesSlash pieces d

theorem Matcher.matchesGlob_below {rule : Text} {isDir other : Bool} {patterns : List Glob.Pattern}
    (hcompile : Glob.compile rule = .ok patterns) (hnormal : normalizePath d = d) (hd : d ≠ [])
    (hdot : d ≠ ['.']) (hline : d.getLast? ≠ some '\n') (hne : names ≠ [])
    (hnames : ∀ x ∈ names, IsName x)
    (h : Matcher.standard.matchesGlob d rule isDir = true) :
    Matcher.standard.matchesGlob (d ++ slashed names) rule other = true ∨
      isDir = true ∧ ClassTakesSlash rule d := by
  obtain ⟨x, rest, rfl, hslashed⟩ := exists_slashed hne
  obtain ⟨hx, hrest⟩ := List.forall_mem_cons.1 hnames
  have hfurther : Glob.Further (slashed rest) := by
    refine ⟨fun hmem => ?_, ?_⟩
    · rcases mem_slashed hmem with h | ⟨y, hy, hmem⟩
      · cases h
      · exact (hrest y hy).2.2.2 hmem
    · cases rest with
      | nil => exact .inl rfl
      | cons y rest => exact .inr rfl
  have hfree : '\n' ∉ x ++ slashed rest := by simp [hx.2.2.2, hfurther.1]
  have hbelow : ∀ pieces, .row pieces ∈ patterns →
      Glob.RowReads pieces (d ++ '/' :: (x ++ slashed rest)) →
      Matcher.standard.matchesGlob (d ++ slashed (x :: rest)) rule other = true := by
    intro pieces hmem hreads
    simp only [Matcher.matchesGlob, Matcher.standard, if_true, hcompile, Bool.or_eq_true,
      Glob.anyHolds, List.any_eq_true]
    refine .inl ⟨_, hmem, ?_⟩
    rw [hslashed, Glob.withoutLead_below hnormal hd hdot, Glob.Pattern.holds_row]
    exact .inl hreads
  have hrow : ∀ pieces, .row pieces ∈ patterns → pieces = [.nested] ∨ pieces = [.below] ∨
      Glob.Ended pieces := by
    intro pieces hmem
    obtain ⟨a, -, hofLine⟩ := (Glob.mem_compile hcompile).1 hmem
    exact Glob.row_of_ofLine hofLine
  simp only [Matcher.matchesGlob, Matcher.standard, if_true, hcompile, Bool.or_eq_true,
    Bool.and_eq_true, Glob.anyHolds, List.any_eq_true] at h
  rcases h with ⟨pattern, hmem, hholds⟩ | ⟨hdir, pattern, hmem, hholds⟩
  · cases pattern with
    | never => cases hholds
    | row pieces =>
        -- The rule takes the directory as it is.
        rw [Glob.withoutLead_eq_self hnormal, Glob.Pattern.holds_row_of_getLast? hline] at hholds
        exact .inl (hbelow pieces hmem (Glob.rowReads_append_slash (hrow pieces hmem) hholds hfree))
  · cases pattern with
    | never => cases hholds
    | row pieces =>
        -- The rule takes the directory with a slash after it.
        rw [Glob.withoutLead_below hnormal hd hdot,
          Glob.Pattern.holds_row_of_getLast? (by simp)] at hholds
        rcases Glob.rowReads_of_slash (hrow pieces hmem) hholds with hclass | hall
        · exact .inr ⟨hdir, patterns, pieces, hcompile, hmem, hclass⟩
        · exact .inl (hbelow pieces hmem (hall x _ hx.2.1 hx.2.2.2 hfurther))

/-- A rule that excludes a directory excludes everything below it, unless a class takes the
slash. -/
theorem Matcher.matchesPattern_below {rule : Text} {isDir other : Bool}
    (hcompile : hasWildcard (Text.strip rule) = true →
      ∃ patterns, Glob.compile (Text.strip rule) = .ok patterns)
    (hnormal : normalizePath d = d) (hd : d ≠ []) (hdot : d ≠ ['.'])
    (hline : hasWildcard (Text.strip rule) = true → d.getLast? ≠ some '\n')
    (hspelled : hasWildcard (Text.strip rule) = true → d ≠ Text.strip rule)
    (hne : names ≠ []) (hnames : ∀ x ∈ names, IsName x)
    (h : Matcher.standard.matchesPattern d rule isDir = true) :
    Matcher.standard.matchesPattern (d ++ slashed names) rule other = true ∨
      isDir = true ∧ hasWildcard (Text.strip rule) = true ∧
        ClassTakesSlash (Text.strip rule) d := by
  simp only [Matcher.matchesPattern] at h ⊢
  generalize Text.strip rule = pattern at *
  have hends := (normalizePath_eq_self_iff.1 hnormal).2.2.2
  by_cases hnil : pattern = []
  · simp [hnil] at h
  by_cases hlonger : d ++ slashed names = pattern
  · simp [hnil, hlonger]
  rw [if_neg hnil] at h
  rw [if_neg hnil, if_neg hlonger]
  by_cases hwild : hasWildcard pattern = true
  · rw [if_neg (hspelled hwild), if_pos hwild] at h
    obtain ⟨patterns, hok⟩ := hcompile hwild
    rw [if_pos hwild]
    exact (matchesGlob_below hok hnormal hd hdot (hline hwild) hne hnames h).imp_right
      fun hclass => ⟨hclass.1, hwild, hclass.2⟩
  · rw [if_neg hwild] at h ⊢
    left
    by_cases hdir : pattern.getLast? = some '/'
    · have hsame : d ≠ pattern := fun heq => hends (heq ▸ hdir)
      rw [if_neg hsame, if_pos hdir] at h
      rw [if_pos hdir]
      exact matchesDirectory_below hne h
    · rw [if_neg hdir] at h ⊢
      refine matchesPlain_below hne ?_
      split at h
      · next heq => simp [matchesPlain, heq]
      · exact h

/-! ## All rules -/

namespace Matcher

section Rules

variable {patterns : List Text}
  (hcompile : ∀ rule ∈ patterns, hasWildcard (Text.strip rule) = true →
    ∃ compiled, Glob.compile (Text.strip rule) = .ok compiled)
  (hnormal : normalizePath d = d)
  (hspelled : ∀ rule ∈ patterns, hasWildcard (Text.strip rule) = true → d ≠ Text.strip rule)
  (hne : names ≠ []) (hnames : ∀ x ∈ names, IsName x) (hdot : d ≠ ['.'])
  (hline : ∀ rule ∈ patterns, hasWildcard (Text.strip rule) = true → d.getLast? ≠ some '\n')
include hcompile hnormal hspelled hne hnames hdot hline

theorem excludes_below_or {isDir : Bool} (other : Bool)
    (h : standard.excludes d patterns isDir = true) :
    standard.excludes (d ++ slashed names) patterns other = true ∨
      isDir = true ∧ ∃ rule ∈ patterns, hasWildcard (Text.strip rule) = true ∧
        ClassTakesSlash (Text.strip rule) d := by
  rw [excludes, hnormal] at h
  simp only [ne_eq, Bool.and_eq_true, decide_eq_true_eq, Bool.or_eq_true, List.any_eq_true] at h
  obtain ⟨hd, h⟩ := h
  rw [excludes, normalizePath_below hnormal hd hdot hne hnames]
  simp only [ne_eq, Bool.and_eq_true, decide_eq_true_eq, Bool.or_eq_true, List.any_eq_true]
  have hfilled : ¬d ++ slashed names = [] := by simp [hd]
  rcases h with hbuiltin | ⟨rule, hrule, hmatch⟩
  · exact .inl
      ⟨hfilled, .inl (isBuiltinExcluded_below hne (fun x hx => (hnames x hx).2.1) hbuiltin)⟩
  · rcases matchesPattern_below (hcompile rule hrule) hnormal hd hdot (hline rule hrule)
      (hspelled rule hrule) hne hnames hmatch with hbelow | ⟨hdir, hwild, hclass⟩
    · exact .inl ⟨hfilled, .inr ⟨rule, hrule, hbelow⟩⟩
    · exact .inr ⟨hdir, rule, hrule, hwild, hclass⟩

/-- Rules that exclude a directory exclude everything below it, as a file and as a directory.  A
directory whose slash is taken by a class has to be excluded without the slash too. -/
theorem excludes_below
    (hclass : ∀ rule ∈ patterns, hasWildcard (Text.strip rule) = true →
      ClassTakesSlash (Text.strip rule) d → standard.excludes d patterns false = true)
    (h : standard.excludes d patterns true = true) (isDir : Bool) :
    standard.excludes (d ++ slashed names) patterns isDir = true := by
  rcases excludes_below_or hcompile hnormal hspelled hne hnames hdot hline isDir h with
    hbelow | ⟨-, rule, hrule, hwild, htakes⟩
  · exact hbelow
  · have hplain := hclass rule hrule hwild htakes
    exact (excludes_below_or hcompile hnormal hspelled hne hnames hdot hline isDir
      hplain).resolve_right fun h => Bool.false_ne_true h.1

end Rules

theorem compile_star : Glob.compile ("b*" : Text) = .ok [.row [.char 'b', .run, .below]] := by
  rw [Glob.compile, Glob.expand_of_literal (by decide)]
  cbv

theorem excludes_star : standard.excludes ("bc" : Text) [("b*" : Text)] true = true := by
  have hmatch : standard.matchesPattern ("bc" : Text) ("b*" : Text) true = true := by
    have hstrip : Text.strip ("b*" : Text) = ("b*" : Text) := by decide
    rw [matchesPattern, hstrip, if_neg (by decide), if_neg (by decide), if_pos (by decide),
      matchesGlob, compile_star]
    decide
  have hnormal : normalizePath ("bc" : Text) = ("bc" : Text) := by decide
  rw [excludes, hnormal, List.any_cons, hmatch]
  decide

theorem excludes_below_star :
    standard.excludes ("bc/x/y" : Text) [("b*" : Text)] false = true := by
  have hstrip : Text.strip ("b*" : Text) = ("b*" : Text) := by decide
  have hclass : ¬ClassTakesSlash ("b*" : Text) ("bc" : Text) := by
    rintro ⟨patterns, pieces, hcompile, hmem, front, k, rfl, -, -⟩
    cases compile_star.symm.trans hcompile
    have hlast := congrArg List.reverse (Glob.Pattern.row.inj (List.mem_singleton.1 hmem))
    simp at hlast
  have hrules : ∀ {p : Text → Prop}, p ("b*" : Text) → ∀ rule ∈ [("b*" : Text)], p rule :=
    fun hp => by simpa using hp
  have hnames : ∀ x ∈ [("x" : Text), ("y" : Text)], IsName x := by
    simp [IsName]
  exact excludes_below (hrules fun _ => ⟨_, hstrip ▸ compile_star⟩) (by decide)
    (hrules fun _ => by decide) (List.cons_ne_nil _ _) hnames (by decide)
    (hrules fun _ => by decide) (hrules fun _ h => absurd (hstrip ▸ h) hclass) excludes_star false

end Matcher

end SourceScan
