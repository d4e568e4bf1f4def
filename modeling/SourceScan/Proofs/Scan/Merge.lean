import SourceScan.Proofs.Rule.Normal
import SourceScan.Proofs.Walk.DirectoryRule
import SourceScan.Proofs.Watch.Coverage

/-!
# Merged rules

Patterns are trimmed where they are merged and once more where they are matched, and what is said
twice is dropped in three places.  Merging keeps the first rule of each pattern, and none of this
changes a verdict: it only matters which patterns there are, apart from the blanks at their ends.
-/

namespace SourceScan

/-! ## Verdicts of patterns -/

def spellings (patterns : List Text) : List Text := (patterns.map Text.strip).filter (· ≠ [])

def Agree (patterns patterns' : List Text) : Prop :=
  ∀ (m : Matcher) (path : Text) (isDir : Bool),
    m.excludes path patterns isDir = m.excludes path patterns' isDir

theorem mem_spellings {patterns : List Text} {p : Text} :
    p ∈ spellings patterns ↔ p ≠ [] ∧ ∃ pattern ∈ patterns, Text.strip pattern = p := by
  simp only [spellings, List.mem_filter, List.mem_map, decide_eq_true_eq]
  exact and_comm

theorem spellings_append (patterns more : List Text) :
    spellings (patterns ++ more) = spellings patterns ++ spellings more := by
  simp [spellings]

theorem spellings_spellings (patterns : List Text) :
    spellings (spellings patterns) = spellings patterns := by
  have hstrip : (spellings patterns).map Text.strip = spellings patterns := by
    refine (List.map_congr_left fun p hp => ?_).trans (List.map_id _)
    obtain ⟨-, pattern, -, rfl⟩ := mem_spellings.1 hp
    exact Text.trim_trim _ _
  rw [spellings, hstrip, List.filter_eq_self]
  exact fun p hp => decide_eq_true (mem_spellings.1 hp).1

theorem Matcher.matchesPattern_strip (m : Matcher) (path pattern : Text) (isDir : Bool) :
    m.matchesPattern path (Text.strip pattern) isDir = m.matchesPattern path pattern isDir := by
  have hstrip : Text.strip (Text.strip pattern) = Text.strip pattern := Text.trim_trim _ _
  rw [Matcher.matchesPattern, hstrip]
  rfl

theorem Matcher.excludes_spellings (m : Matcher) (path : Text) (patterns : List Text)
    (isDir : Bool) :
    m.excludes path (spellings patterns) isDir = m.excludes path patterns isDir := by
  have hany : ∀ path, (spellings patterns).any (m.matchesPattern path · isDir) =
      patterns.any (m.matchesPattern path · isDir) := by
    intro path
    rw [Bool.eq_iff_iff, List.any_eq_true, List.any_eq_true]
    constructor
    · rintro ⟨p, hp, hmatch⟩
      obtain ⟨-, pattern, hpattern, rfl⟩ := mem_spellings.1 hp
      exact ⟨pattern, hpattern, by rwa [m.matchesPattern_strip] at hmatch⟩
    · rintro ⟨pattern, hpattern, hmatch⟩
      refine ⟨Text.strip pattern, mem_spellings.2 ⟨fun hblank => ?_, pattern, hpattern, rfl⟩, ?_⟩
      · simp [Matcher.matchesPattern, hblank] at hmatch
      · rwa [m.matchesPattern_strip]
  simp only [Matcher.excludes, hany]

theorem agree_of_spellings {patterns patterns' : List Text}
    (h : ∀ p, p ∈ spellings patterns ↔ p ∈ spellings patterns') : Agree patterns patterns' := by
  intro m path isDir
  rw [← m.excludes_spellings, ← m.excludes_spellings path patterns']
  exact m.excludes_congr h path isDir

/-- More patterns never exclude less. -/
theorem Matcher.excludes_mono (m : Matcher) {patterns more : List Text} (h : patterns ⊆ more)
    {path : Text} {isDir : Bool} (hexcluded : m.excludes path patterns isDir = true) :
    m.excludes path more isDir = true := by
  simp only [Matcher.excludes, Bool.and_eq_true, Bool.or_eq_true, List.any_eq_true] at hexcluded ⊢
  refine hexcluded.imp_right fun hrules => hrules.imp_right ?_
  rintro ⟨p, hp, hmatch⟩
  exact ⟨p, h hp, hmatch⟩

/-! ## The first rule of each pattern -/

namespace Rule

/-- A list holds the first rule of each pattern of another one, in their order. -/
structure FirstOfEach (offered kept : List Rule) : Prop where
  first : ∀ rule, rule ∈ kept ↔ offered.find? (·.pattern = rule.pattern) = some rule
  order : kept.Pairwise fun rule later =>
    offered.findIdx (·.pattern = rule.pattern) < offered.findIdx (·.pattern = later.pattern)

variable {offered kept : List Rule} {rule : Rule}

namespace FirstOfEach

theorem exists_kept (h : FirstOfEach offered kept) (hrule : rule ∈ offered) :
    ∃ other ∈ kept, other.pattern = rule.pattern := by
  obtain ⟨other, hother⟩ : ∃ other, offered.find? (·.pattern = rule.pattern) = some other :=
    Option.isSome_iff_exists.1 (List.find?_isSome.2 ⟨rule, hrule, by simp⟩)
  have hsame : other.pattern = rule.pattern := by simpa using List.find?_some hother
  exact ⟨other, (h.first other).2 (by rwa [hsame]), hsame⟩

theorem mem_offered (h : FirstOfEach offered kept) (hrule : rule ∈ kept) : rule ∈ offered :=
  List.mem_of_find?_eq_some ((h.first rule).1 hrule)

theorem nodup (h : FirstOfEach offered kept) : (kept.map (·.pattern)).Nodup := by
  rw [List.Nodup, List.pairwise_map]
  exact h.order.imp fun hlt heq => absurd hlt (by rw [heq]; exact Nat.lt_irrefl _)

theorem findIdx_concat (h : FirstOfEach offered kept) (hrule : rule ∈ kept) (last : Rule) :
    (offered ++ [last]).findIdx (·.pattern = rule.pattern) =
      offered.findIdx (·.pattern = rule.pattern) := by
  rw [List.findIdx_append, if_pos]
  exact List.findIdx_lt_length_of_exists ⟨rule, h.mem_offered hrule, by simp⟩

theorem not_offered (h : FirstOfEach offered kept)
    (hnew : ¬(kept.any (·.pattern = rule.pattern)) = true) {other : Rule}
    (hother : other ∈ offered) : other.pattern ≠ rule.pattern := by
  intro hsame
  obtain ⟨old, hold, heq⟩ := h.exists_kept hother
  exact hnew (List.any_eq_true.2 ⟨old, hold, decide_eq_true (heq.trans hsame)⟩)

theorem order_concat (h : FirstOfEach offered kept) (last : Rule) :
    kept.Pairwise fun rule later => (offered ++ [last]).findIdx (·.pattern = rule.pattern) <
      (offered ++ [last]).findIdx (·.pattern = later.pattern) := by
  refine h.order.imp_of_mem fun hrule hlater hlt => ?_
  rw [h.findIdx_concat hrule, h.findIdx_concat hlater]
  exact hlt

theorem insert_old (h : FirstOfEach offered kept)
    (hthere : (kept.any (·.pattern = rule.pattern)) = true) :
    FirstOfEach (offered ++ [rule]) kept := by
  obtain ⟨old, hold, hsame⟩ := List.any_eq_true.1 hthere
  refine ⟨fun other => ?_, h.order_concat rule⟩
  rw [h.first, List.find?_append]
  cases hfind : offered.find? (·.pattern = other.pattern) with
  | some x => simp
  | none =>
      have hmissed := List.find?_eq_none.1 hfind old (h.mem_offered hold)
      rw [of_decide_eq_true hsame] at hmissed
      simp [hmissed]

theorem insert_new (h : FirstOfEach offered kept)
    (hnew : ¬(kept.any (·.pattern = rule.pattern)) = true) :
    FirstOfEach (offered ++ [rule]) (kept ++ [rule]) := by
  constructor
  · intro other
    rw [List.mem_append, List.mem_singleton, h.first, List.find?_append]
    cases hfind : offered.find? (·.pattern = other.pattern) with
    | some x =>
        have hx := List.find?_some hfind
        refine or_iff_left ?_
        rintro rfl
        exact h.not_offered hnew (List.mem_of_find?_eq_some hfind) (of_decide_eq_true hx)
    | none =>
        constructor
        · rintro (hnone | rfl)
          · cases hnone
          · simp
        · intro hlast
          rw [Option.none_or] at hlast
          exact .inr (List.mem_singleton.1 (List.mem_of_find?_eq_some hlast))
  · refine List.pairwise_append.2 ⟨h.order_concat rule, List.pairwise_singleton _ _, ?_⟩
    intro other hother last hlast
    obtain rfl := List.mem_singleton.1 hlast
    have hmissed : ¬∃ x ∈ offered, decide (x.pattern = last.pattern) = true := by
      rintro ⟨x, hx, hsame⟩
      exact h.not_offered hnew hx (of_decide_eq_true hsame)
    rw [h.findIdx_concat hother, List.findIdx_append, if_neg (mt List.findIdx_lt_length.1 hmissed)]
    calc offered.findIdx (·.pattern = other.pattern) < offered.length :=
          List.findIdx_lt_length_of_exists ⟨other, h.mem_offered hother, by simp⟩
      _ ≤ _ := Nat.le_add_left _ _

theorem insert (h : FirstOfEach offered kept) (rule : Rule) :
    FirstOfEach (offered ++ [rule]) (Rule.insert kept rule) := by
  unfold Rule.insert
  split
  · next hthere => exact h.insert_old hthere
  · next hnew => exact h.insert_new hnew

end FirstOfEach

/-- Extending an empty list keeps the first rule of each pattern. -/
theorem firstOfEach_extend (offered : List Rule) : FirstOfEach offered (extend [] offered) := by
  induction offered using List.reverseRecOn with
  | nil => exact ⟨by simp [extend], .nil⟩
  | append_singleton offered rule ih =>
      rw [extend_append]
      exact ih.insert rule

/-! ## What is merged -/

def offers (sources : List (RuleSource × List Text)) : List Rule :=
  sources.flatMap fun s => (spellings s.2).map (⟨·, s.1⟩)

def rawPatterns (sources : List (RuleSource × List Text)) : List Text := sources.flatMap (·.2)

theorem patterns_offers (sources : List (RuleSource × List Text)) :
    (offers sources).map (·.pattern) = spellings (rawPatterns sources) := by
  induction sources with
  | nil => rfl
  | cons s sources ih =>
      have hcons : rawPatterns (s :: sources) = s.2 ++ rawPatterns sources := rfl
      rw [hcons, spellings_append, ← ih, offers, List.flatMap_cons, List.map_append, List.map_map]
      exact congrArg (· ++ _) (List.map_id _)

theorem insertPatterns_eq (rules : List Rule) (source : RuleSource) (patterns : List Text) :
    insertPatterns rules source patterns =
      extend rules ((spellings patterns).map (⟨·, source⟩)) := by
  induction patterns generalizing rules with
  | nil => rfl
  | cons pattern patterns ih =>
      have hstep : insertPatterns rules source (pattern :: patterns) =
          insertPatterns (if Text.strip pattern = [] then rules
            else Rule.insert rules ⟨Text.strip pattern, source⟩) source patterns := rfl
      rw [hstep, ih, ← List.singleton_append (x := pattern), spellings_append, List.map_append,
        extend_append]
      by_cases hblank : Text.strip pattern = []
      · simp [spellings, hblank, extend]
      · simp [spellings, hblank, extend]

theorem merge_eq (sources : List (RuleSource × List Text)) :
    merge sources = extend [] (offers sources) := by
  have hgo : ∀ rules, sources.foldl (fun rules s => insertPatterns rules s.1 s.2) rules =
      extend rules (offers sources) := by
    induction sources with
    | nil => exact fun rules => rfl
    | cons s sources ih =>
        intro rules
        rw [List.foldl_cons, ih, insertPatterns_eq, ← extend_append]
        rfl
  exact hgo []

theorem mem_patterns_merge {sources : List (RuleSource × List Text)} {p : Text} :
    p ∈ (merge sources).map (·.pattern) ↔ p ∈ spellings (rawPatterns sources) := by
  rw [merge_eq, mem_patterns_extend, patterns_offers]
  simp

theorem agree_of_merged {sources : List (RuleSource × List Text)} {rules : List Rule}
    (hrules : rules.Perm (merge sources)) {own patterns : List Text}
    (h : ∀ p, p ∈ patterns ↔ p ∈ own ∨ p ∈ rules.map (·.pattern)) :
    Agree patterns (own ++ rawPatterns sources) := by
  refine agree_of_spellings fun p => ?_
  have hsame : ∀ q, q ∈ patterns ↔ q ∈ own ++ spellings (rawPatterns sources) := by
    intro q
    rw [h, List.mem_append, ← mem_patterns_merge, (hrules.map _).mem_iff]
  calc p ∈ spellings patterns
      ↔ p ∈ spellings (own ++ spellings (rawPatterns sources)) := by
        simp only [mem_spellings, hsame]
    _ ↔ p ∈ spellings (own ++ rawPatterns sources) := by
        rw [spellings_append, spellings_spellings, ← spellings_append]

end Rule

/-! ## Plans -/

namespace Plan

variable {d : Disk} {root : Path} {settings : ScannerSettings} {host : Option Value} {plan : Plan}

theorem merge_snoc (sources : List (RuleSource × List Text)) (source : RuleSource)
    (patterns : List Text) : Rule.merge (sources ++ [(source, patterns)]) =
      Rule.insertPatterns (Rule.merge sources) source patterns := by
  rw [Rule.merge, List.foldl_append]
  rfl

theorem merge_of_addPatterns {sources : List (RuleSource × List Text)} {source : RuleSource}
    {values : List Value} {rules : List Rule}
    (h : addPatterns (Rule.merge sources) source values = .ok rules) :
    ∃ patterns, rules = Rule.merge (sources ++ [(source, patterns)]) := by
  unfold addPatterns at h
  obtain ⟨patterns, -, h⟩ := ok_of_bind h
  cases h
  exact ⟨patterns, (merge_snoc sources source patterns).symm⟩

theorem rules_of_make (h : make d root settings host = .ok plan) :
    ∃ legacy explicit hosts ignored, plan.rules = Rule.merge
      [(.legacy, legacy), (.explicit, explicit), (.host, hosts), (.gitignore, ignored)] := by
  rw [make_eq] at h
  obtain ⟨real, -, h⟩ := ok_of_bind h
  obtain ⟨hostValues, -, h⟩ := ok_of_bind h
  obtain ⟨ignored, -, h⟩ := ok_of_bind h
  unfold complete at h
  obtain ⟨rules, hrules, h⟩ := ok_of_bind h
  obtain ⟨output, -, h⟩ := ok_of_bind h
  cases h
  have hmerged := ok_of_mapError hrules
  obtain ⟨legacyValues, -, hmerged⟩ := ok_of_bind hmerged
  obtain ⟨first, hfirst, hmerged⟩ := ok_of_bind hmerged
  obtain ⟨explicitValues, -, hmerged⟩ := ok_of_bind hmerged
  obtain ⟨second, hsecond, hmerged⟩ := ok_of_bind hmerged
  obtain ⟨third, hthird, hmerged⟩ := ok_of_bind hmerged
  obtain ⟨legacy, rfl⟩ := @merge_of_addPatterns [] _ _ _ hfirst
  obtain ⟨explicit, rfl⟩ := merge_of_addPatterns hsecond
  obtain ⟨hosts, rfl⟩ := merge_of_addPatterns hthird
  cases hmerged
  exact ⟨legacy, explicit, hosts, ignored, (merge_snoc _ _ _).symm⟩

end Plan

namespace Rule

open Plan in
/-- Merging keeps the first rule of each trimmed pattern that is not blank, and no verdict depends
on it.  In any order the merged rules agree with the patterns as they were given, by themselves,
behind the rules that a walk puts in front of them and behind those that a watcher has.  More
patterns never exclude less. -/
theorem merge_agree {τ : Type} (sources : List (RuleSource × List Text)) :
    FirstOfEach (offers sources) (merge sources) ∧
    ((merge sources).map (·.pattern)).Nodup ∧
    (∀ p, p ∈ (merge sources).map (·.pattern) ↔ p ∈ spellings (rawPatterns sources)) ∧
    (∀ rules : List Rule, rules.Perm (merge sources) →
      Agree (rules.map (·.pattern)) (rawPatterns sources)) ∧
    (∀ plan : Plan, plan.rules.Perm (merge sources) →
      (∀ walker d clock w, Walk.ofPlan walker d plan clock = .ok w →
        ∃ own project, Walk.outputRule d w.root plan.outputTarget = .ok own ∧
          ProjectKind.rulesAt d w.root = .ok project ∧
          Agree (w.rules.map (·.pattern))
            ((own.toList ++ project).map (·.pattern) ++ rawPatterns sources)) ∧
      ∀ (s : Scanner τ) d rules, s.plan d = .ok plan → s.watchRules d = .ok rules →
        ∃ project, ProjectKind.rulesAt d plan.root = .ok project ∧
          Agree (rules.map (·.pattern))
            (plan.outputNames.map Path.spelled ++ project.map (·.pattern) ++
              rawPatterns sources)) ∧
    (∀ d root settings host plan, make d root settings host = .ok plan →
      ∃ legacy explicit hosts ignored, plan.rules = merge
        [(.legacy, legacy), (.explicit, explicit), (.host, hosts), (.gitignore, ignored)]) ∧
    ∀ (m : Matcher) path patterns more isDir, patterns ⊆ more →
      m.excludes path patterns isDir = true → m.excludes path more isDir = true := by
  have hfirst : FirstOfEach (offers sources) (merge sources) := by
    rw [merge_eq]
    exact firstOfEach_extend _
  refine ⟨hfirst, hfirst.nodup, fun p => mem_patterns_merge, fun rules hrules => ?_,
    fun plan hplan => ⟨fun walker d clock w hw => ?_, ?_⟩,
    fun d root settings host plan => rules_of_make, ?_⟩
  · exact @agree_of_merged sources rules hrules [] _ (by simp)
  · obtain ⟨project, own, hproject, hown, hrules⟩ := (Walk.prepared_of_ofPlan hw).rules
    refine ⟨own, project, hown, hproject, agree_of_merged hplan fun p => ?_⟩
    rw [hrules, List.map_append, List.mem_append, mem_patterns_extend, List.map_append,
      List.mem_append, or_assoc]
  · intro s d rules hmake hwatch
    obtain ⟨project, hproject, rfl⟩ := Scanner.watched_of_watchRules hmake hwatch
    refine ⟨project, hproject, agree_of_merged hplan fun p => ?_⟩
    rw [watched, List.map_append, List.mem_append, mem_patterns_foreign, List.map_map,
      List.mem_append, or_assoc]
    rfl
  · exact fun m path patterns more isDir hmore => m.excludes_mono hmore

/-! ## Rules of a project that are merged with others -/

def goDisk : Disk := ⟨.dir [(RawText.ofText "go.mod", .file [])], [], [], []⟩

def vendorScanner : Scanner Nat :=
  { Scanner.bareScanner "o" with
    settings :=
      { (Scanner.bareScanner "o").settings with
        scanner :=
          { (Scanner.bareScanner "o").settings.scanner with
            excludePatterns := .list [.str " a", .str "vendor/ ", .str "a"] } } }

def vendorSources : List (RuleSource × List Text) :=
  [(.explicit, [" a", "vendor/ ", "a"])]

def vendorPlan : Plan :=
  { Scanner.barePlan [Scanner.outputName] with
    rules := [⟨"a", .explicit⟩, ⟨"vendor/", .explicit⟩] }

def vendorWalk : Walk :=
  ⟨vendorScanner.walker, goDisk, vendorPlan, ⟨1, []⟩,
    [⟨"o", .builtin⟩, ⟨"vendor/", .project⟩, ⟨"a", .explicit⟩], none, Scanner.bareMoment.clock,
    none⟩

theorem merge_agree_vendor :
    Walk.ofPlan vendorScanner.walker goDisk vendorPlan Scanner.bareMoment.clock = .ok vendorWalk ∧
    Agree ["o", "vendor/", "a"] ["o", "vendor/", " a", "vendor/ ", "a"] ∧
    ∃ rules, vendorScanner.watchRules goDisk = .ok rules ∧
      Agree (rules.map (·.pattern)) ["o", ".o.tmp", "vendor/", " a", "vendor/ ", "a"] := by
  have hmerge : vendorPlan.rules.Perm (merge vendorSources) := by
    have heq : vendorPlan.rules = merge vendorSources := by cbv
    rw [heq]
  have hplan : vendorScanner.plan goDisk = .ok vendorPlan := by cbv
  have hofPlan : Walk.ofPlan vendorScanner.walker goDisk vendorPlan Scanner.bareMoment.clock =
      .ok vendorWalk := by cbv
  have hproject : ProjectKind.rulesAt goDisk vendorPlan.root =
      .ok [⟨"vendor/", .project⟩] := by cbv
  have hown : Walk.outputRule goDisk vendorWalk.root vendorPlan.outputTarget =
      .ok (some ⟨"o", .builtin⟩) := by cbv
  obtain ⟨-, -, -, -, hplans, -⟩ := @merge_agree Nat vendorSources
  obtain ⟨hwalk, hwatch⟩ := hplans vendorPlan hmerge
  refine ⟨hofPlan, ?_, ?_⟩
  · obtain ⟨own, project, hown', hproject', hagree⟩ := hwalk _ _ _ _ hofPlan
    obtain rfl := Except.ok.inj (hown.symm.trans hown')
    obtain rfl := Except.ok.inj (hproject.symm.trans hproject')
    exact hagree
  · have hrules : vendorScanner.watchRules goDisk =
        .ok (vendorPlan.watched [⟨"vendor/", .project⟩]) := by
      rw [Scanner.watchRules_eq hplan, hproject]
      exact if_neg (by decide)
    obtain ⟨project, hproject', hagree⟩ := hwatch _ _ _ hplan hrules
    obtain rfl := Except.ok.inj (hproject.symm.trans hproject')
    exact ⟨_, hrules, hagree⟩

end Rule

end SourceScan
