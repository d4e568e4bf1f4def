import SourceScan.Proofs.Rule.Directory

/-!
# Plain rules

A rule without wildcards that does not end with a slash is looked for segment by segment.  At the
beginning of a path all of its segments have to be there.  Further down the last one only has to
begin a segment, so that what lies in the root may be kept while it is taken below any directory.
-/

namespace SourceScan

open Glob (slashed slash_cons_eq_slashed)

variable {rule path s t first last : Text} {front segments above rest : List Text}

/-! ## The segments of a text -/

theorem splitOn_of_slashed (hne : segments ≠ []) (hfree : ∀ x ∈ segments, '/' ∉ x)
    (h : '/' :: s = slashed segments) : Text.splitOn '/' s = segments := by
  obtain ⟨x, rest, rfl, hslashed⟩ := exists_slashed hne
  obtain ⟨hx, hrest⟩ := List.forall_mem_cons.1 hfree
  rw [hslashed, List.cons.injEq] at h
  rw [h.2, splitOn_below hrest, Text.splitOn_eq, List.splitOn_eq_singleton hx]
  rfl

theorem eq_of_splitOn_cons (h : Text.splitOn '/' t = first :: rest) :
    t = first ++ slashed rest := by
  have hcut := slash_cons_eq_slashed t
  rw [h, slashed, List.flatMap_cons, List.cons_append, List.cons.injEq] at hcut
  exact hcut.2

theorem splitOn_append (hs : Text.splitOn '/' s = front ++ [last])
    (ht : Text.splitOn '/' t = first :: rest) :
    Text.splitOn '/' (s ++ t) = front ++ (last ++ first) :: rest := by
  have hfront : ∀ x ∈ front ++ [last], '/' ∉ x := fun x hx =>
    Text.not_mem_of_mem_splitOn (hs ▸ hx)
  have hrest : ∀ x ∈ first :: rest, '/' ∉ x := fun x hx =>
    Text.not_mem_of_mem_splitOn (ht ▸ hx)
  refine splitOn_of_slashed (by simp) (fun x hx => ?_) ?_
  · simp only [List.mem_append, List.mem_cons] at hx
    rcases hx with hx | rfl | hx
    · exact hfront x (List.mem_append_left _ hx)
    · have hlast := hfront last (by simp)
      have hfirst := hrest first List.mem_cons_self
      simp [hlast, hfirst]
    · exact hrest x (List.mem_cons_of_mem _ hx)
  · calc '/' :: (s ++ t) = slashed (front ++ [last]) ++ (first ++ slashed rest) := by
          rw [← List.cons_append, slash_cons_eq_slashed, hs, eq_of_splitOn_cons ht]
      _ = slashed (front ++ (last ++ first) :: rest) := by simp [slashed]

theorem splitOn_prefix_iff :
    Text.splitOn '/' s <+: Text.splitOn '/' t ↔ t = s ∨ s ++ ['/'] <+: t := by
  constructor
  · rintro ⟨below, h⟩
    have hcut : t = s ++ slashed below := by
      have hboth := slash_cons_eq_slashed t
      rw [← h, slashed, List.flatMap_append, ← slashed, ← slash_cons_eq_slashed,
        List.cons_append, List.cons.injEq] at hboth
      exact hboth.2
    cases below with
    | nil => exact .inl (hcut.trans (List.append_nil s))
    | cons x below =>
        refine .inr ⟨x ++ slashed below, ?_⟩
        rw [hcut]
        simp [slashed]
  · rintro (rfl | ⟨below, rfl⟩)
    · exact List.prefix_rfl
    · rw [List.append_assoc, List.singleton_append, splitOn_cut]
      exact List.prefix_append _ _

/-! ## What a rule takes -/

namespace PlainRule

/-- The segments stand at the beginning of the path, the last of them perhaps as the beginning of
a longer segment. -/
def Opens (front : List Text) (last : Text) (segments : List Text) : Prop :=
  ∃ more below, segments = front ++ (last ++ more) :: below

/-- What a rule takes: its segments stand at the beginning of the path, or they open what lies below
a directory. -/
inductive Takes (front : List Text) (last : Text) : List Text → Prop
  | root (below : List Text) : Takes front last (front ++ last :: below)
  | nested {above rest : List Text} (inside : above ≠ []) (opens : Opens front last rest) :
      Takes front last (above ++ rest)

def Unrelated (front : List Text) (last : Text) (above : List Text) : Prop :=
  ∀ x ∈ above, ¬front.headD last <+: x

instance (front : List Text) (last : Text) (above : List Text) :
    Decidable (Unrelated front last above) :=
  inferInstanceAs (Decidable (∀ x ∈ above, _))

theorem opens_root (front : List Text) (last : Text) (below : List Text) :
    Opens front last (front ++ last :: below) :=
  ⟨[], below, by rw [List.append_nil]⟩

theorem Takes.moved (h : Takes front last segments) (above : List Text) :
    Takes front last (above ++ segments) := by
  cases above with
  | nil => exact h
  | cons x above =>
      cases h with
      | root below => exact .nested (List.cons_ne_nil _ _) (opens_root front last below)
      | nested inside opens =>
          rw [← List.append_assoc]
          exact .nested (by simp) opens

theorem not_opens_of_unrelated (hne : above ≠ []) (h : Unrelated front last above) :
    ¬Opens front last (above ++ segments) := by
  obtain ⟨y, above, rfl⟩ := List.exists_cons_of_ne_nil hne
  rintro ⟨more, below, heq⟩
  have hy := h y List.mem_cons_self
  cases front with
  | nil =>
      obtain ⟨rfl, -⟩ := List.cons.inj heq
      exact hy (List.prefix_append _ _)
  | cons x front =>
      obtain ⟨rfl, -⟩ := List.cons.inj heq
      exact hy List.prefix_rfl

/-- Below a directory that has nothing to do with the rule, more is taken only where the rule opens
what lies there. -/
theorem takes_moved_iff (hne : above ≠ []) (h : Unrelated front last above) :
    Takes front last (above ++ segments) ↔
      Takes front last segments ∨ Opens front last segments := by
  constructor
  · intro htakes
    generalize hwhole : above ++ segments = whole at htakes
    cases htakes with
    | root below =>
        exact absurd (hwhole ▸ opens_root front last below) (not_opens_of_unrelated hne h)
    | nested inside opens =>
        rcases List.append_eq_append_iff.1 hwhole with ⟨further, rfl, rfl⟩ | ⟨met, rfl, rfl⟩
        · by_cases hfurther : further = []
          · subst hfurther
            exact .inr opens
          · exact .inl (.nested hfurther opens)
        · by_cases hmet : met = []
          · subst hmet
            exact .inr opens
          · exact absurd opens (not_opens_of_unrelated hmet
              fun x hx => h x (List.mem_append_right _ hx))
  · rintro (htakes | hopens)
    · exact htakes.moved above
    · exact .nested hne hopens

end PlainRule

/-- A rule without wildcards that names no directory, with its segments. -/
structure IsPlainRule (rule : Text) (front : List Text) (last : Text) : Prop where
  segments : Text.splitOn '/' rule = front ++ [last]
  filled : last ≠ []
  stripped : Text.strip rule = rule
  literal : hasWildcard rule = false

namespace IsPlainRule

open PlainRule

theorem slash_not_mem (h : IsPlainRule rule front last) : '/' ∉ last := by
  refine Text.not_mem_of_mem_splitOn (s := rule) ?_
  rw [h.segments]
  simp

theorem eq_append (h : IsPlainRule rule front last) : ∃ lead, rule = lead ++ last := by
  cases front with
  | nil => exact ⟨[], (splitOn_eq_singleton_iff h.slash_not_mem).1 h.segments⟩
  | cons x front =>
      refine ⟨x ++ slashed front ++ ['/'], ?_⟩
      rw [eq_of_splitOn_cons h.segments]
      simp [slashed]

theorem ne_nil (h : IsPlainRule rule front last) : rule ≠ [] := by
  obtain ⟨lead, rfl⟩ := h.eq_append
  simp [h.filled]

theorem getLast?_ne_slash (h : IsPlainRule rule front last) : rule.getLast? ≠ some '/' := by
  have hlast := h.slash_not_mem
  obtain ⟨lead, rfl⟩ := h.eq_append
  rw [List.getLast?_append_of_ne_nil _ h.filled]
  exact fun hslash => hlast (List.mem_of_getLast? hslash)

theorem opens_iff (h : IsPlainRule rule front last) :
    Opens front last (Text.splitOn '/' path) ↔ rule <+: path := by
  constructor
  · rintro ⟨more, below, hpath⟩
    have hcut : '/' :: path = '/' :: rule ++ (more ++ slashed below) := by
      rw [slash_cons_eq_slashed path, hpath, slash_cons_eq_slashed rule, h.segments]
      simp [slashed]
    exact ⟨more ++ slashed below, (List.cons.inj hcut).2.symm⟩
  · rintro ⟨after, rfl⟩
    obtain ⟨more, below, hafter⟩ := List.exists_cons_of_ne_nil (splitOn_ne_nil after)
    exact ⟨more, below, splitOn_append h.segments hafter⟩

theorem nested_iff (h : IsPlainRule rule front last) : '/' :: rule <:+: path ↔
    ∃ above rest, above ≠ [] ∧ Opens front last rest ∧ Text.splitOn '/' path = above ++ rest := by
  constructor
  · rintro ⟨before, after, rfl⟩
    refine ⟨Text.splitOn '/' before, Text.splitOn '/' (rule ++ after), splitOn_ne_nil before,
      h.opens_iff.2 (List.prefix_append _ _), ?_⟩
    rw [List.append_assoc, List.cons_append, splitOn_cut]
  · rintro ⟨above, rest, hne, ⟨more, below, rfl⟩, hpath⟩
    obtain ⟨x, between, rfl, -⟩ := exists_slashed hne
    refine ⟨x ++ slashed between, more ++ slashed below, ?_⟩
    rw [eq_of_splitOn_cons hpath, slash_cons_eq_slashed rule, h.segments]
    simp [slashed]

theorem matchesPlain_iff (h : IsPlainRule rule front last) :
    matchesPlain path rule = true ↔ Takes front last (Text.splitOn '/' path) := by
  have hroot : path = rule ∨ rule ++ ['/'] <+: path ↔
      front ++ [last] <+: Text.splitOn '/' path := by rw [← h.segments, splitOn_prefix_iff]
  simp only [matchesPlain, Bool.or_eq_true, decide_eq_true_eq, List.isPrefixOf_iff_prefix,
    Text.occursIn_iff]
  rw [or_right_comm, hroot, h.nested_iff]
  constructor
  · rintro (⟨below, hpath⟩ | ⟨above, rest, hne, hopens, hpath⟩)
    · rw [← hpath, List.append_assoc]
      exact .root below
    · rw [hpath]
      exact .nested hne hopens
  · intro htakes
    generalize Text.splitOn '/' path = whole at htakes ⊢
    cases htakes with
    | root below => exact .inl ⟨below, by simp⟩
    | nested inside opens => exact .inr ⟨_, _, inside, opens, rfl⟩

theorem matchesPattern_iff (h : IsPlainRule rule front last) (m : Matcher) (path : Text)
    (isDir : Bool) : m.matchesPattern path rule isDir = true ↔
      Takes front last (Text.splitOn '/' path) := by
  rw [Path.matchesPattern_of_literal m h.ne_nil h.stripped h.literal h.getLast?_ne_slash,
    h.matchesPlain_iff]

end IsPlainRule

open PlainRule in
/-- A plain rule takes the paths at whose beginning its segments stand, and those of which it opens
what lies below a directory.  What it takes it takes below every directory as well.  Below a
directory that has nothing to do with it, it takes besides only what begins with its text. -/
theorem plain_rule (h : IsPlainRule rule front last) (m : Matcher) (path : Text) (isDir : Bool) :
    (m.matchesPattern path rule isDir = true ↔ Takes front last (Text.splitOn '/' path)) ∧
    ∀ dir,
      (m.matchesPattern path rule isDir = true →
        m.matchesPattern (dir ++ '/' :: path) rule isDir = true) ∧
      (Unrelated front last (Text.splitOn '/' dir) →
        (m.matchesPattern (dir ++ '/' :: path) rule isDir = true ↔
          m.matchesPattern path rule isDir = true ∨ rule <+: path)) := by
  have htakes := fun path => h.matchesPattern_iff m path isDir
  refine ⟨htakes path, fun dir => ⟨fun htaken => ?_, fun hunrelated => ?_⟩⟩
  · rw [htakes, splitOn_cut]
    exact ((htakes path).1 htaken).moved _
  · rw [htakes, htakes, splitOn_cut, takes_moved_iff (splitOn_ne_nil dir) hunrelated, h.opens_iff]

theorem isPlainRule_secrets : IsPlainRule ("a/secrets" : Text) [['a']] ("secrets" : Text) where
  segments := by decide
  filled := by decide
  stripped := by decide
  literal := by decide

theorem plain_rule_secrets :
    Matcher.standard.matchesPattern ("a/secrets/b" : Text) ("a/secrets" : Text) false = true ∧
    (Matcher.standard.matchesPattern ("b/a/secrets.txt" : Text) ("a/secrets" : Text) false = true ↔
      Matcher.standard.matchesPattern ("a/secrets.txt" : Text) ("a/secrets" : Text) false = true ∨
        ("a/secrets" : Text) <+: ("a/secrets.txt" : Text)) :=
  ⟨(plain_rule isPlainRule_secrets .standard _ false).1.2 (.root [['b']]),
    ((plain_rule isPlainRule_secrets .standard ("a/secrets.txt" : Text) false).2 ['b']).2
      (by decide)⟩

/-- A rule of one segment that is no segment of the path takes it nevertheless, below a directory
and not in the root. -/
theorem matchesPattern_without_segment :
    IsPlainRule ("secrets" : Text) [] ("secrets" : Text) ∧
    normalizePath ("config/secrets_old" : Text) = ("config/secrets_old" : Text) ∧
    Matcher.standard.matchesPattern ("config/secrets_old" : Text) ("secrets" : Text) false = true ∧
    ¬[("secrets" : Text)] <:+: Text.splitOn '/' ("config/secrets_old" : Text) ∧
    Matcher.standard.matchesPattern ("secrets_old" : Text) ("secrets" : Text) false = false :=
  ⟨⟨by decide, by decide, by decide, by decide⟩, by decide, by decide, by decide, by decide⟩

end SourceScan
