import SourceScan.Proofs.Glob.Meaning
import SourceScan.Proofs.Rule.Below

/-!
# Rules for directories

A rule that ends with a slash names a directory.  It takes all that lies below a directory of the
name.  The directory itself it takes only in the root, and there it takes a file of the name as
well, since a path is matched without regard to what it leads to.
-/

namespace SourceScan

open Glob (slashed slash_cons_eq_slashed)

variable {path name : Text}

theorem exists_splitOn_concat (path : Text) :
    ∃ directories last, Text.splitOn '/' path = directories ++ [last] :=
  (List.eq_nil_or_concat' _).resolve_left (splitOn_ne_nil path)

theorem mem_dropLast_splitOn (hne : name ≠ []) (hslash : '/' ∉ name) :
    name ∈ (Text.splitOn '/' path).dropLast ↔ '/' :: name ++ ['/'] <:+: '/' :: path := by
  obtain ⟨directories, last, hpath⟩ := exists_splitOn_concat path
  rw [hpath, List.dropLast_concat]
  constructor
  · intro hmem
    obtain ⟨above, between, rfl⟩ := List.append_of_mem hmem
    obtain ⟨next, rest, -, hbelow⟩ := exists_slashed (by simp : between ++ [last] ≠ [])
    refine ⟨slashed above, next ++ slashed rest, ?_⟩
    calc slashed above ++ ('/' :: name ++ ['/']) ++ (next ++ slashed rest)
        = slashed above ++ ('/' :: name ++ slashed (between ++ [last])) := by simp [hbelow]
      _ = slashed (above ++ name :: between ++ [last]) := by simp [slashed]
      _ = '/' :: path := by rw [slash_cons_eq_slashed, hpath]
  · rintro ⟨before, after, heq⟩
    obtain ⟨between, final, hafter⟩ := exists_splitOn_concat after
    have hcut : '/' :: path = before ++ '/' :: (name ++ '/' :: after) := by
      rw [← heq]
      simp
    have hsplit : [] :: directories ++ [last] =
        Text.splitOn '/' before ++ name :: between ++ [final] := by
      calc [] :: directories ++ [last] = Text.splitOn '/' ('/' :: path) := by
            rw [Glob.splitOn_slash, hpath, List.cons_append]
        _ = Text.splitOn '/' before ++ name :: Text.splitOn '/' after := by
            rw [hcut, Text.splitOn_eq, Text.splitOn_eq, Text.splitOn_eq,
              List.splitOn_append_cons_self, List.splitOn_append_cons_self_of_not_mem hslash]
        _ = Text.splitOn '/' before ++ name :: between ++ [final] := by simp [hafter]
    have hmem : name ∈ [] :: directories := by
      rw [(List.append_inj' hsplit rfl).1]
      simp
    exact (List.mem_cons.1 hmem).resolve_left hne

theorem splitOn_eq_singleton_iff (hslash : '/' ∉ name) :
    Text.splitOn '/' path = [name] ↔ path = name := by
  rw [Text.splitOn_eq]
  constructor
  · intro h
    have hjoin : ['/'].intercalate (List.splitOn '/' path) = path := List.intercalate_splitOn '/'
    rw [← hjoin, h]
    simp
  · rintro rfl
    exact List.splitOn_eq_singleton hslash

/-! ## What a rule takes -/

namespace DirectoryRule

/-- The last segment is no directory unless the path leads to one. -/
def Means (name : Text) (isDir : Bool) (segments : List Text) : Prop :=
  name ∈ if isDir then segments else segments.dropLast

/-- What a rule for the name takes: all below a directory of the name, and the name itself if the
path has no other segment. -/
def Takes (name : Text) (segments : List Text) : Prop :=
  name ∈ segments.dropLast ∨ segments = [name]

instance (name : Text) (isDir : Bool) (segments : List Text) :
    Decidable (Means name isDir segments) :=
  inferInstanceAs (Decidable (_ ∈ _))

instance (name : Text) (segments : List Text) : Decidable (Takes name segments) :=
  inferInstanceAs (Decidable (_ ∨ _))

/-- A directory of the name that is not in the root, or a file of the name that is. -/
inductive Misjudged (name : Text) : Bool → List Text → Prop
  | directory {above : List Text} (nested : above ≠ []) (outside : name ∉ above) :
      Misjudged name true (above ++ [name])
  | file : Misjudged name false [name]

theorem takes_iff_means_iff {isDir : Bool} {segments : List Text} :
    (Takes name segments ↔ Means name isDir segments) ↔ ¬Misjudged name isDir segments := by
  constructor
  · rintro h (⟨hnested, houtside⟩ | -)
    · rcases h.2 (by simp [Means]) with hmem | hsingle
      · rw [List.dropLast_concat] at hmem
        exact houtside hmem
      · exact hnested (List.append_inj' (hsingle.trans (List.nil_append _).symm) rfl).1
    · cases h.1 (.inr rfl)
  · intro h
    cases isDir with
    | false =>
        refine or_iff_left ?_
        rintro rfl
        exact h .file
    | true =>
        constructor
        · rintro (hmem | rfl)
          · exact List.mem_of_mem_dropLast hmem
          · exact List.mem_singleton_self _
        · intro hmem
          obtain ⟨above, last, rfl⟩ :=
            (List.eq_nil_or_concat' segments).resolve_left (List.ne_nil_of_mem hmem)
          rw [Takes, List.dropLast_concat]
          rcases List.mem_append.1 hmem with habove | hlast
          · exact .inl habove
          · obtain rfl := List.mem_singleton.1 hlast
            by_contra hneither
            obtain ⟨houtside, hnested⟩ := not_or.1 hneither
            refine h (.directory ?_ houtside)
            rintro rfl
            exact hnested rfl

theorem Takes.below {segments : List Text} (h : Takes name segments) (more : List Text) :
    Takes name (segments ++ more) := by
  rcases List.eq_nil_or_concat' more with rfl | ⟨between, last, rfl⟩
  · rwa [List.append_nil]
  · refine .inl ?_
    rw [← List.append_assoc, List.dropLast_concat]
    refine List.mem_append_left _ ?_
    rcases h with hmem | rfl
    · exact List.mem_of_mem_dropLast hmem
    · exact List.mem_singleton_self _

end DirectoryRule

structure IsDirectoryName (name : Text) : Prop where
  filled : name ≠ []
  single : '/' ∉ name
  stripped : Text.strip name = name
  literal : hasWildcard name = false

open DirectoryRule

theorem matchesDirectory_iff (hne : name ≠ []) (hslash : '/' ∉ name) :
    matchesDirectory path name = true ↔ Takes name (Text.splitOn '/' path) := by
  simp only [matchesDirectory, Bool.and_eq_true, Bool.or_eq_true, decide_eq_true_eq, Takes,
    List.isPrefixOf_iff_prefix, Text.occursIn_iff, mem_dropLast_splitOn hne hslash,
    splitOn_eq_singleton_iff hslash, List.infix_cons_iff, List.cons_append,
    List.cons_prefix_cons, true_and]
  tauto

theorem IsDirectoryName.matchesPattern_iff (h : IsDirectoryName name) (m : Matcher) (path : Text)
    (isDir : Bool) : m.matchesPattern path (name ++ ['/']) isDir = true ↔
      Takes name (Text.splitOn '/' path) := by
  have hstrip : Text.strip (name ++ ['/']) = name ++ ['/'] := by
    refine Text.trim_eq_self_iff.2 ⟨fun c hc => ?_, fun c hc => ?_⟩
    · rw [List.head?_append_of_ne_nil _ h.filled] at hc
      exact (Text.trim_eq_self_iff.1 h.stripped).1 c hc
    · rw [List.getLast?_concat] at hc
      cases hc
      rfl
  have hliteral : hasWildcard (name ++ ['/']) = false := by
    have hname := h.literal
    simp only [hasWildcard] at hname
    rw [hasWildcard, List.any_append, hname]
    rfl
  unfold Matcher.matchesPattern
  simp only [hstrip, hliteral, List.append_eq_nil_iff, List.cons_ne_nil, and_false, if_false,
    List.getLast?_concat, List.dropLast_concat, if_true, Bool.false_eq_true]
  split
  · next hwhole =>
      refine iff_of_true rfl (.inl ((mem_dropLast_splitOn h.filled h.single).2 ?_))
      rw [hwhole]
      exact List.infix_refl _
  · exact matchesDirectory_iff h.filled h.single

theorem IsDirectoryName.excludes_iff (h : IsDirectoryName name) (m : Matcher) (path : Text)
    (isDir : Bool) : m.excludes path [name ++ ['/']] isDir = true ↔
      isBuiltinExcluded (normalizePath path) isDir = true ∨
        Takes name (Text.splitOn '/' (normalizePath path)) := by
  simp only [Matcher.excludes, Bool.and_eq_true, decide_eq_true_eq, Bool.or_eq_true,
    List.any_cons, List.any_nil, Bool.or_false, h.matchesPattern_iff]
  refine and_iff_right_of_imp ?_
  rintro hexcluded hnil
  rw [hnil] at hexcluded
  rcases hexcluded with hbuiltin | hmem | hsingle
  · exact absurd hbuiltin (by cases isDir <;> decide)
  · cases hmem
  · exact h.filled (List.head_eq_of_cons_eq hsingle).symm

end SourceScan
