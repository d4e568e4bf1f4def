import SourceScan.Proofs.Rule.Directory
import SourceScan.Proofs.Scan.Disclosure
import SourceScan.Proofs.Walk.OwnOutput
import SourceScan.Proofs.Walk.Twins

/-!
# Walks with a rule for directories

What a rule for directories takes is neither listed nor read.  If the disk refuses nothing, all
else is listed and read as if there were no such rule: the directories of the name below the root
among it.
-/

namespace SourceScan

open DirectoryRule

/-! ## The same patterns in another order -/

theorem Matcher.excludes_congr (m : Matcher) {patterns patterns' : List Text}
    (h : ∀ p, p ∈ patterns ↔ p ∈ patterns') (path : Text) (isDir : Bool) :
    m.excludes path patterns isDir = m.excludes path patterns' isDir := by
  have hany : patterns.any (m.matchesPattern (normalizePath path) · isDir) =
      patterns'.any (m.matchesPattern (normalizePath path) · isDir) := by
    rw [Bool.eq_iff_iff, List.any_eq_true, List.any_eq_true]
    simp only [h]
  simp only [Matcher.excludes, hany]

namespace Path

open FileTree

variable {names : List FileName}

theorem splitOn_spelled (hnames : ∀ name ∈ names, slash ∉ name) (hne : names ≠ []) :
    Text.splitOn '/' (spelled names) = names.map RawText.shown := by
  have h := splitOn_flatMap_shown hnames
  rw [← cons_spelled hne, ← Text.splitOn_eq, Glob.splitOn_slash, List.cons.injEq] at h
  exact h.2

def Clean (names : List FileName) : Prop := ∀ x ∈ names, '\\' ∉ x.shown

instance (names : List FileName) : Decidable (Clean names) :=
  inferInstanceAs (Decidable (∀ x ∈ names, _))

theorem Clean.above {above : List FileName} (h : Clean names) (habove : above <+: names) :
    Clean above :=
  fun x hx => h x (habove.subset hx)

theorem Clean.spelled (h : Clean names) (hne : names ≠ []) : '\\' ∉ spelled names := by
  intro hmem
  have hcons := List.mem_cons_of_mem '/' hmem
  rw [cons_spelled hne] at hcons
  obtain ⟨entry, hentry, hchar⟩ := List.mem_flatMap.1 hcons
  rcases List.mem_cons.1 hchar with heq | hchar
  · cases heq
  · exact h entry hentry hchar

end Path

namespace Walk

open FileTree Disk

variable {walker : Walker} {d : Disk} {plan : Plan} {clock : Clock} {v w : Walk} {name : Text}
  {rules : List Rule}

theorem hits_directory_iff (h : IsDirectoryName name) {m : Matcher} {names : List FileName}
    {isDir : Bool} (hne : names ≠ []) (hnames : ∀ x ∈ names, isEntryName x = true)
    (hclean : Path.Clean names) : m.hits (Path.spelled names) (name ++ ['/']) isDir = true ↔
      Takes name (names.map RawText.shown) := by
  unfold Matcher.hits
  rw [Path.normalizePath_spelled hnames (hclean.spelled hne), Bool.and_eq_true, decide_eq_true_eq,
    h.matchesPattern_iff, Path.splitOn_spelled (fun x hx => Path.slash_not_mem (hnames x hx)) hne]
  exact and_iff_right (Path.spelled_ne_nil hnames hne)

/-! ## The same rules in another order -/

section Order

variable (hrules : ∀ p, p ∈ v.rules.map (·.pattern) ↔ p ∈ rules.map (·.pattern))
include hrules

theorem excludes_congr (path : Text) (isDir : Bool) :
    v.excludes path isDir = ({ v with rules } : Walk).excludes path isDir := by
  rw [excludes, v.walker.matcher.excludes_congr hrules path isDir]
  rfl

theorem accepts_congr {names : List FileName} {place : Place} {t : FileTree} :
    v.Accepts names place t ↔ ({ v with rules } : Walk).Accepts names place t := by
  have hsame := fun path => excludes_congr hrules path t.isDirectory
  constructor
  · rintro ⟨hreach, hinside, text, htext, hkept⟩
    exact ⟨hreach, hinside, text, htext, (hsame text).symm.trans hkept⟩
  · rintro ⟨hreach, hinside, text, htext, hkept⟩
    exact ⟨hreach, hinside, text, htext, (hsame text).trans hkept⟩

theorem opens_congr {dir : List FileName} :
    v.Opens dir ↔ ({ v with rules } : Walk).Opens dir := by
  unfold Opens
  simp only [accepts_congr hrules]
  rfl

theorem enters_congr {dir : List FileName} :
    v.Enters dir ↔ ({ v with rules } : Walk).Enters dir := by
  constructor
  · intro h
    exact ⟨h.named, fun above habove => (opens_congr hrules).1 (h.opens above habove), h.apart⟩
  · intro h
    exact ⟨h.named, fun above habove => (opens_congr hrules).2 (h.opens above habove), h.apart⟩

end Order

/-! ## What a walk has access to on a disk without refusals -/

theorem pathOf_injective {names names' : List FileName} (h : w.pathOf names = w.pathOf names') :
    names = names' := by
  simpa [pathOf] using h

theorem list_mem_accesses_iff {dir : List FileName} :
    (.list, w.pathOf dir) ∈ w.accesses ↔ .listing dir ∈ w.sights := by
  refine ⟨fun h => ?_, list_mem_accesses⟩
  rcases mem_accesses h with ⟨dir', hlisting, -, heq⟩ | ⟨-, -, -, haccess, -⟩
  · rwa [pathOf_injective heq]
  · cases haccess

theorem read_mem_accesses_iff {names : List FileName} :
    (.read, w.pathOf names) ∈ w.accesses ↔ ∃ size, .file names size ∈ w.sights := by
  constructor
  · intro h
    rcases mem_accesses h with ⟨-, -, haccess, -⟩ | ⟨names', size, hfile, -, heq⟩
    · cases haccess
    · exact ⟨size, by rwa [pathOf_injective heq]⟩
  · rintro ⟨size, hfile⟩
    exact List.mem_filterMap.2 ⟨_, hfile, rfl⟩

section Free

variable (hd : w.disk.tree.wellFormed = true) (hroot : w.Opens []) (hfree : w.disk.refusals = [])
include hd hroot hfree

theorem listing_mem_of_free {dir : List FileName} : .listing dir ∈ w.sights ↔ w.Enters dir := by
  rw [listing_mem_iff hd hroot]
  refine and_iff_left_of_imp fun henters => ⟨fun above habove _ => ?_, fun hshadowed => ?_⟩
  · exact not_lost_of_free hfree hd hroot (henters.opens above habove)
  · exact not_lost_of_free hfree hd hroot (henters.opens dir (List.prefix_refl _)) (.inr hshadowed)

theorem file_mem_of_free {dir : List FileName} {name : FileName} {size : Nat} :
    .file (dir ++ [name]) size ∈ w.sights ↔ w.Enters dir ∧ isEntryName name = true ∧
      ∃ place content, w.Accepts (dir ++ [name]) place (.file content) ∧
        content.length = size := by
  rw [file_mem_iff hd hroot]
  refine and_congr_left fun _ => and_iff_left_of_imp fun henters above habove => ?_
  exact not_lost_of_free hfree hd hroot (henters.opens above habove)

end Free

/-! ## One rule for a directory more -/

def under (v : Walk) (plan : Plan) (rules : List Rule) : Walk := { v with plan, rules }

theorem besides_under (v : Walk) (plan : Plan) (rules : List Rule) (pattern : Text) :
    (v.under plan rules).besides v.plan (some (RawText.ofText pattern)) =
      { v with rules := ⟨pattern, .builtin⟩ :: rules } := by
  simp [besides, under, ruleFor, Option.filter]

section More

variable {source : RuleSource} (h : IsDirectoryName name)
  (hlinks : plan.followSymlinks = v.plan.followSymlinks)
  (hpatterns : ∀ p, p ∈ v.rules.map (·.pattern) ↔
    p ∈ ((⟨name ++ ['/'], source⟩ : Rule) :: rules).map (·.pattern))
include h hlinks hpatterns

theorem accepts_under {names : List FileName} (hne : names ≠ [])
    (hnames : ∀ x ∈ names, isEntryName x = true) (hclean : Path.Clean names) {place : Place}
    {t : FileTree} : v.Accepts names place t ↔
      (v.under plan rules).Accepts names place t ∧ ¬Takes name (names.map RawText.shown) := by
  have hmore : ((v.under plan rules).besides v.plan (some (RawText.ofText (name ++ ['/'])))).Accepts
      names place t ↔ _ := accepts_besides (.inr (by simp)) hlinks.symm hne
  rw [besides_under] at hmore
  have hrules : ∀ p, p ∈ v.rules.map (·.pattern) ↔
    p ∈ ((⟨name ++ ['/'], .builtin⟩ : Rule) :: rules).map (·.pattern) := hpatterns
  refine (accepts_congr hrules).trans (hmore.trans (and_congr_right fun _ => ?_))
  simp only [Option.mem_def, Option.some.injEq, forall_eq', Bool.eq_false_iff, ne_eq,
    Matcher.hitsRaw_of_text? (RawText.text?_ofText _), hits_directory_iff h hne hnames hclean]

theorem enters_under {dir : List FileName} (hclean : Path.Clean dir) : v.Enters dir ↔
    (v.under plan rules).Enters dir ∧ ¬Takes name (dir.map RawText.shown) := by
  have hmore : ((v.under plan rules).besides v.plan (some (RawText.ofText (name ++ ['/'])))).Enters
      dir ↔ _ := enters_besides (.inr (by simp)) hlinks.symm
  rw [besides_under] at hmore
  have hrules : ∀ p, p ∈ v.rules.map (·.pattern) ↔
    p ∈ ((⟨name ++ ['/'], .builtin⟩ : Rule) :: rules).map (·.pattern) := hpatterns
  refine (enters_congr hrules).trans (hmore.trans (and_congr_right fun henters => ?_))
  simp only [Option.mem_def, Option.some.injEq, forall_eq',
    Matcher.hitsRaw_of_text? (RawText.text?_ofText _)]
  have hhits : ∀ above, above <+: dir → above ≠ [] →
      (v.walker.matcher.hits (Path.spelled above) (name ++ ['/']) true = false ↔
        ¬Takes name (above.map RawText.shown)) := by
    intro above habove hne
    rw [Bool.eq_false_iff, ne_eq, hits_directory_iff h hne
      (fun x hx => henters.named x (habove.subset hx)) (hclean.above habove)]
  constructor
  · intro hfree htakes
    have hne : dir ≠ [] := by
      rintro rfl
      rcases htakes with ⟨⟨⟩⟩ | ⟨⟨⟩⟩
    exact (hhits dir (List.prefix_refl _) hne).1
      (hfree dir (List.prefix_refl _) hne) htakes
  · rintro htakes above habove hne
    refine (hhits above habove hne).2 fun habovetakes => htakes ?_
    obtain ⟨rest, rfl⟩ := habove
    rw [List.map_append]
    exact habovetakes.below _

theorem not_takes_of_accessed (hd : v.disk.tree.wellFormed = true) (hroot : v.Opens [])
    {access : Access} {names : List FileName} (hclean : Path.Clean names)
    (haccess : (access, v.pathOf names) ∈ v.accesses) :
    ¬Takes name (names.map RawText.shown) := by
  cases access with
  | list =>
      have hlisting := list_mem_accesses_iff.1 haccess
      exact ((enters_under h hlinks hpatterns hclean).1
        ((listing_mem_iff hd hroot).1 hlisting).1).2
  | read =>
      obtain ⟨size, hfile⟩ := read_mem_accesses_iff.1 haccess
      obtain ⟨hne, hnames⟩ := named_of_entry hd hroot hfile rfl
      obtain ⟨dir, last, rfl⟩ := (List.eq_nil_or_concat' names).resolve_left hne
      obtain ⟨-, -, place, content, haccepts, -⟩ := (file_mem_iff hd hroot).1 hfile
      exact ((accepts_under h hlinks hpatterns hne hnames hclean).1 haccepts).2

/-- If nothing is refused, all that the rule does not take is listed or read as without it. -/
theorem accessed_iff_of_not_takes (hd : v.disk.tree.wellFormed = true)
    (hfree : v.disk.refusals = []) (hroot : v.Opens []) (hroot' : (v.under plan rules).Opens [])
    {access : Access} {names : List FileName} (hclean : Path.Clean names)
    (htakes : ¬Takes name (names.map RawText.shown)) :
    (access, v.pathOf names) ∈ v.accesses ↔
      (access, (v.under plan rules).pathOf names) ∈ (v.under plan rules).accesses := by
  cases access with
  | list =>
      rw [list_mem_accesses_iff, list_mem_accesses_iff, listing_mem_of_free hd hroot hfree,
        listing_mem_of_free (w := v.under plan rules) hd hroot' hfree,
        enters_under h hlinks hpatterns hclean]
      exact and_iff_left htakes
  | read =>
      rw [read_mem_accesses_iff, read_mem_accesses_iff]
      rcases List.eq_nil_or_concat' names with rfl | ⟨dir, last, rfl⟩
      · refine iff_of_false ?_ ?_
        · rintro ⟨size, hfile⟩
          exact (named_of_entry hd hroot hfile rfl).1 rfl
        · rintro ⟨size, hfile⟩
          exact (named_of_entry (w := v.under plan rules) hd hroot' hfile rfl).1 rfl
      · have habove : ¬Takes name (dir.map RawText.shown) := by
          intro hdir
          rw [List.map_append] at htakes
          exact htakes (hdir.below _)
        refine exists_congr fun size => ?_
        rw [file_mem_of_free hd hroot hfree,
          file_mem_of_free (w := v.under plan rules) hd hroot' hfree,
          enters_under h hlinks hpatterns (hclean.above (List.prefix_append _ _)),
          and_iff_left habove]
        refine and_congr_right fun henters => and_congr_right fun hlast => ?_
        have hnames : ∀ x ∈ dir ++ [last], isEntryName x = true := by
          intro x hx
          rcases List.mem_append.1 hx with hx | hx
          · exact henters.named x hx
          · rw [List.mem_singleton.1 hx]
            exact hlast
        simp only [accepts_under h hlinks hpatterns (by simp) hnames hclean, htakes,
          not_false_eq_true, and_true]

end More

theorem ofPlan_under (h : ofPlan walker d plan clock = .ok v) :
    ∃ project output, v.rules = output ++ Rule.extend project plan.rules ∧
      ∀ rules, ofPlan walker d (plan.withRules rules) clock =
        .ok (v.under (plan.withRules rules) (output ++ Rule.extend project rules)) := by
  obtain ⟨root, project, output, deadline, hroot, hproject, houtput, hdeadline, rfl⟩ :=
    ofPlan_eq_ok_iff.1 h
  exact ⟨project, output.toList, rfl, fun rules => ofPlan_eq_ok_iff.2
    ⟨root, project, output, deadline, hroot, hproject, houtput, hdeadline, rfl⟩⟩

end Walk

open Walk

/-- A rule for a directory takes all below a directory of the name, at any depth, and whatever
has the name in the root.  So it misses the directories of the name elsewhere, which a walk lists
like any other, and a file of the name in the root is taken by mistake.  On a disk that refuses
nothing the rule makes no other difference to what a walk lists and reads. -/
theorem directory_rule {name : Text} (h : IsDirectoryName name) :
    (∀ (m : Matcher) (path : Text) (isDir : Bool),
      let segments := Text.splitOn '/' (normalizePath path)
      (m.excludes path [name ++ ['/']] isDir = true ↔
        isBuiltinExcluded (normalizePath path) isDir = true ∨ Takes name segments) ∧
      ((Takes name segments ↔ Means name isDir segments) ↔ ¬Misjudged name isDir segments)) ∧
    ∀ {walker : Walker} {d : Disk} {plan : Plan} {clock : Clock} {v : Walk}
      {before after : List Rule} {source : RuleSource}, d.tree.wellFormed = true →
      plan.rules = before ++ ⟨name ++ ['/'], source⟩ :: after →
      ofPlan walker d plan clock = .ok v →
      (∀ access names, Path.Clean names → (access, v.pathOf names) ∈ v.accesses →
        ¬Takes name (names.map RawText.shown)) ∧
      ∃ w, ofPlan walker d (plan.withRules (before ++ after)) clock = .ok w ∧
        (d.refusals = [] → ∀ access names, Path.Clean names →
          ¬Takes name (names.map RawText.shown) →
          ((access, v.pathOf names) ∈ v.accesses ↔ (access, w.pathOf names) ∈ w.accesses)) := by
  refine ⟨fun m path isDir => ⟨h.excludes_iff m path isDir, takes_iff_means_iff⟩, ?_⟩
  intro walker d plan clock v before after source hd hrules hv
  obtain ⟨project, output, hv', hplans⟩ := ofPlan_under hv
  have hw := hplans (before ++ after)
  have hpatterns : ∀ p, p ∈ v.rules.map (·.pattern) ↔
      p ∈ ((⟨name ++ ['/'], source⟩ : Rule) ::
        (output ++ Rule.extend project (before ++ after))).map (·.pattern) := by
    intro p
    rw [hv', hrules]
    simp only [List.map_append, List.map_cons, List.mem_append, List.mem_cons,
      Rule.mem_patterns_extend]
    tauto
  have hprepared := prepared_of_ofPlan hv
  have hlinks : (plan.withRules (before ++ after)).followSymlinks = v.plan.followSymlinks := by
    rw [hprepared.samePlan]
    rfl
  obtain rfl := hprepared.sameDisk
  have hroot := hprepared.opens_root
  refine ⟨fun access names hclean => ?_, _, hw, fun hfree access names hclean htakes => ?_⟩
  · exact not_takes_of_accessed h hlinks hpatterns hd hroot hclean
  · exact accessed_iff_of_not_takes h hlinks hpatterns hd hfree hroot
      (prepared_of_ofPlan hw).opens_root hclean htakes

/-! ## A directory below the root and a file in it -/

open FileTree Disk

theorem Walk.Unlinked.enters {w : Walk} {dir : List FileName} (h : w.Unlinked)
    (hnames : ∀ name ∈ dir, isEntryName name = true)
    (hopens : ∀ above, above <+: dir → w.Opens above) : w.Enters dir := by
  refine ⟨hnames, hopens, fun above below habove hbelow hne heq => hne ?_⟩
  rw [h.real_eq fun name hname => hnames name ((habove.trans hbelow).subset hname),
    h.real_eq fun name hname => hnames name (hbelow.subset hname)] at heq
  exact List.append_cancel_left (congrArg Path.names (Except.ok.inj heq))

def nameA : FileName := [.char 'a']

def nameB : FileName := [.char 'b']

def nestedDisk : Disk := ⟨.dir [(nameA, .dir [(nameB, .dir [])]), (nameB, .file [])], [], [], []⟩

def nestedWalk (rules : List Rule) : Walk :=
  { mixedWalk with disk := nestedDisk, plan := mixedPlan.withRules rules, rules }

theorem unlinked_nested (rules : List Rule) : (nestedWalk rules).Unlinked where
  wellFormed := show nestedDisk.tree.wellFormed = true by decide
  linkFree := linkFree_of_linkCount rfl
  slashes := rfl
  directory := ⟨_, rfl⟩

theorem enters_nested : (nestedWalk []).Enters [nameA, nameB] := by
  have h := unlinked_nested []
  have hopens : ∀ {dir children text}, (∀ name ∈ dir, isEntryName name = true) →
      nestedDisk.tree.at? dir = some (.dir children) → (Path.joined dir).text? = some text →
      (nestedWalk []).excludes text true = false → (nestedWalk []).Opens dir := by
    intro dir children text hnames hat htext hkept
    exact ⟨dir, children, (h.reaches_iff hnames).2 ⟨rfl, hat⟩, fun _ =>
      (h.accepts_iff hnames).2 ⟨⟨rfl, hat⟩, text, htext, hkept⟩⟩
  refine h.enters (by decide) fun above habove => ?_
  rw [← List.mem_inits] at habove
  fin_cases habove
  · exact h.opens_root
  · exact hopens (by decide) rfl (show _ = some ("a" : Text) by decide) (by decide)
  · exact hopens (by decide) rfl (show _ = some ("a/b" : Text) by decide) (by decide)

/-- The rule for `b` spares the directory and takes the file. -/
theorem directory_rule_nested :
    Matcher.standard.excludes "a/b" [("b" : Text) ++ ['/']] true = false ∧
    Matcher.standard.excludes "b" [("b" : Text) ++ ['/']] false = true ∧
    ∃ v w, ofPlan mixedWalker nestedDisk (mixedPlan.withRules [⟨("b" : Text) ++ ['/'], .explicit⟩])
        stillClock = .ok v ∧
      ofPlan mixedWalker nestedDisk (mixedPlan.withRules []) stillClock = .ok w ∧
      (.list, v.pathOf [nameA, nameB]) ∈ v.accesses ∧
      (.read, v.pathOf [nameB]) ∉ v.accesses ∧ (.read, w.pathOf [nameB]) ∈ w.accesses := by
  have hname : IsDirectoryName ("b" : Text) := ⟨by decide, by decide, by decide, by decide⟩
  obtain ⟨hexcludes, hwalk⟩ := directory_rule hname
  have hv : ofPlan mixedWalker nestedDisk
      (mixedPlan.withRules [⟨("b" : Text) ++ ['/'], .explicit⟩]) stillClock =
      .ok (nestedWalk [⟨("b" : Text) ++ ['/'], .explicit⟩]) := by
    cbv
  have hd : nestedDisk.tree.wellFormed = true := by decide
  have hrules : (mixedPlan.withRules [⟨("b" : Text) ++ ['/'], .explicit⟩]).rules =
      [] ++ ⟨("b" : Text) ++ ['/'], .explicit⟩ :: [] := rfl
  obtain ⟨htaken, w, hw, hkept⟩ := hwalk hd hrules hv
  have hw' : ofPlan mixedWalker nestedDisk (mixedPlan.withRules []) stillClock =
      .ok (nestedWalk []) := by
    cbv
  obtain rfl := Except.ok.inj (hw.symm.trans hw')
  have h := unlinked_nested []
  have hroot := h.opens_root
  refine ⟨?_, ?_, _, _, hv, hw', ?_, fun hread => ?_, ?_⟩
  · rw [Bool.eq_false_iff, ne_eq, (hexcludes _ _ _).1]
    decide
  · rw [(hexcludes _ _ _).1]
    decide
  · refine (hkept rfl .list _ (by decide) (by decide)).2 (list_mem_accesses_iff.2 ?_)
    exact (listing_mem_of_free hd hroot rfl).2 enters_nested
  · exact htaken .read _ (by decide) hread (by decide)
  · have haccepts : (nestedWalk []).Accepts ([] ++ [nameB]) [nameB] (.file []) :=
      (h.accepts_iff (by decide)).2 ⟨⟨rfl, rfl⟩, ("b" : Text), by decide, by decide⟩
    exact read_mem_accesses_iff.2 ⟨0, (file_mem_of_free hd hroot rfl).2
      ⟨enters_nil hroot, by decide, _, _, haccepts, rfl⟩⟩

end SourceScan
