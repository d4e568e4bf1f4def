import SourceScan.Proofs.Scan.Scanner
import SourceScan.Proofs.Walk.Inside

/-!
# What a scan discloses of the files outside

A scan reads files inside its root only, with one exception: the ignore file is read
wherever it lies, so a link in its place makes rules of the lines of a file outside.  The
rules in effect are all that such a file can change.  They are named in the report, which
gives them away, and as long as they stay the same nothing else is to be seen of the files
outside.
-/

namespace SourceScan

open FileTree Disk

/-! ## Rules that are added -/

namespace Rule

theorem exists_extend (rules more : List Rule) :
    ∃ new, extend rules more = rules ++ new ∧ new ⊆ more := by
  induction more generalizing rules with
  | nil => exact ⟨[], (List.append_nil rules).symm, List.nil_subset _⟩
  | cons rule more ih =>
      obtain ⟨new, hnew, hsub⟩ := ih (insert rules rule)
      have hstep : extend rules (rule :: more) = insert rules rule ++ new := hnew
      by_cases hthere : (rules.any (·.pattern = rule.pattern)) = true
      · refine ⟨new, ?_, fun r hr => List.mem_cons_of_mem _ (hsub hr)⟩
        rw [hstep, insert, if_pos hthere]
      · refine ⟨rule :: new, ?_, List.cons_subset_cons rule hsub⟩
        rw [hstep, insert, if_neg hthere, List.append_assoc, List.singleton_append]

theorem extend_append (rules more most : List Rule) :
    extend rules (more ++ most) = extend (extend rules more) most :=
  List.foldl_append

theorem mem_patterns_extend {rules more : List Rule} {pattern : Text} :
    pattern ∈ (extend rules more).map (·.pattern) ↔
      pattern ∈ rules.map (·.pattern) ∨ pattern ∈ more.map (·.pattern) := by
  unfold extend
  induction more generalizing rules with
  | nil => simp
  | cons rule more ih =>
      rw [List.foldl_cons, ih, List.map_cons, List.mem_cons, ← or_assoc]
      refine or_congr_left ?_
      unfold insert
      split
      · next hthere =>
          obtain ⟨other, hother, heq⟩ := List.any_eq_true.1 hthere
          have hmem : rule.pattern ∈ rules.map (·.pattern) :=
            List.mem_map.2 ⟨other, hother, of_decide_eq_true heq⟩
          exact ⟨.inl, fun h => h.elim id fun heq => heq ▸ hmem⟩
      · simp

theorem exists_insertPatterns (rules : List Rule) (source : RuleSource)
    (patterns : List Text) : ∃ new, insertPatterns rules source patterns = rules ++ new ∧
      ∀ rule ∈ new, rule.source = source := by
  induction patterns generalizing rules with
  | nil => exact ⟨[], (List.append_nil rules).symm, by simp⟩
  | cons pattern patterns ih =>
      have hstep : insertPatterns rules source (pattern :: patterns) =
          insertPatterns (if Text.strip pattern = [] then rules
            else insert rules ⟨Text.strip pattern, source⟩) source patterns := rfl
      rw [hstep]
      by_cases hskip : Text.strip pattern = [] ∨
          (rules.any (·.pattern = Text.strip pattern)) = true
      · have hsame : (if Text.strip pattern = [] then rules
            else insert rules ⟨Text.strip pattern, source⟩) = rules := by
          rcases hskip with hblank | hthere
          · exact if_pos hblank
          · rw [insert, if_pos hthere, ite_self]
        rw [hsame]
        exact ih rules
      · rw [not_or] at hskip
        obtain ⟨new, hnew, hsource⟩ := ih (rules ++ [⟨Text.strip pattern, source⟩])
        refine ⟨⟨Text.strip pattern, source⟩ :: new, ?_, List.forall_mem_cons.2 ⟨rfl, hsource⟩⟩
        rw [if_neg hskip.1, insert, if_neg hskip.2, hnew, List.append_assoc,
          List.singleton_append]

def listed (rules : List Rule) : List Text :=
  (rules.filter (·.source ≠ .builtin)).map (·.pattern)

/-- If the patterns of one source are all that rules can differ in, the list in a report tells
them apart. -/
theorem eq_of_listed {project base : List Rule} {source : RuleSource}
    {patterns patterns' : List Text} (hsource : source ≠ .builtin)
    (h : listed (extend project (insertPatterns base source patterns')) =
      listed (extend project (insertPatterns base source patterns))) :
    extend project (insertPatterns base source patterns') =
      extend project (insertPatterns base source patterns) := by
  have hsplit : ∀ patterns, ∃ new, extend project (insertPatterns base source patterns) =
      extend project base ++ new ∧ ∀ rule ∈ new, rule.source = source := by
    intro patterns
    obtain ⟨added, hadded, hall⟩ := exists_insertPatterns base source patterns
    obtain ⟨new, hnew, hsub⟩ := exists_extend (extend project base) added
    exact ⟨new, by rw [hadded, extend_append, hnew], fun rule hrule => hall rule (hsub hrule)⟩
  have hlisted : ∀ {new : List Rule}, (∀ rule ∈ new, rule.source = source) →
      new.filter (·.source ≠ .builtin) = new := by
    intro new hnew
    rw [List.filter_eq_self]
    intro rule hrule
    simp [hnew rule hrule, hsource]
  obtain ⟨new, hnew, hall⟩ := hsplit patterns
  obtain ⟨new', hnew', hall'⟩ := hsplit patterns'
  rw [hnew, hnew'] at h ⊢
  simp only [listed, List.filter_append, List.map_append, hlisted hall, hlisted hall',
    List.append_cancel_left_eq] at h
  -- Rules of one source are told apart by their patterns.
  have hback : ∀ {new : List Rule}, (∀ rule ∈ new, rule.source = source) →
      (new.map (·.pattern)).map (⟨·, source⟩) = new := by
    intro new hnew
    rw [List.map_map]
    refine (List.map_congr_left fun rule hrule => ?_).trans (List.map_id new)
    cases rule
    cases hnew _ hrule
    rfl
  rw [← hback hall, ← hback hall', h]

end Rule

/-! ## Plans on disks that are the same inside -/

namespace Plan

variable {d d' : Disk} {p root : Path} {settings : ScannerSettings} {host : Option Value}
  {top : Place}

def ignoreFile (root : Path) : Path := root.child (RawText.ofText IgnoreFile.defaultName)

def hostPatterns (settings : ScannerSettings) (host : Option Value) :
    Except ScanError (List Value) :=
  if settings.useHostExcludes.isTruthy then
    (enabled (host.getD settings.hostExcludes)).mapError ScanError.misuse
  else pure []

def ignored (d : Disk) (settings : ScannerSettings) (root : Path) :
    Except ScanError (List Text) :=
  if settings.useGitignore.isTruthy then
    (IgnoreFile.load d (ignoreFile root)).mapError ScanError.disk
  else pure []

def complete (root : Path) (settings : ScannerSettings) (host : List Value)
    (ignored : List Text) : Except ScanError Plan := do
  let mergeAll : Except Misuse (List Rule) := do
    let rules ← addPatterns [] .legacy (← settings.ignorePatterns.elements)
    let rules ← addPatterns rules .explicit (← settings.excludePatterns.elements)
    let rules ← addPatterns rules .host host
    return Rule.insertPatterns rules .gitignore ignored
  let rules ← mergeAll.mapError ScanError.misuse
  let output ← settings.outputFile.path.mapError ScanError.misuse
  return {
    root
    maxFileSize := settings.maxFileSize
    maxFiles := settings.maxFiles
    rules
    outputTarget := some (root.join output)
    followSymlinks := settings.followSymlinks
    scanTimeout := settings.scanTimeout }

theorem make_eq (d : Disk) (p : Path) (settings : ScannerSettings) (host : Option Value) :
    make d p settings host = (do
      let root ← rootOf d p
      let hosts ← hostPatterns settings host
      let found ← ignored d settings root
      complete root settings hosts found) := by
  unfold make hostPatterns ignored complete
  cases rootOf d p with
  | error e => rfl
  | ok root =>
      by_cases hhost : settings.useHostExcludes.isTruthy = true <;>
        by_cases hignore : settings.useGitignore.isTruthy = true <;>
        simp only [hhost, hignore, if_true, if_false, Bool.false_eq_true] <;> rfl

theorem complete_cases (root : Path) (settings : ScannerSettings) (host : List Value) :
    (∃ e, ∀ ignored, complete root settings host ignored = .error e) ∨
      ∃ (plan : Plan) (base : List Rule), ∀ ignored, complete root settings host ignored =
        .ok (plan.withRules (Rule.insertPatterns base .gitignore ignored)) := by
  unfold complete
  cases settings.ignorePatterns.elements with
  | error e => exact .inl ⟨_, fun _ => rfl⟩
  | ok legacy =>
  simp only [bind, Except.bind]
  cases addPatterns [] .legacy legacy with
  | error e => exact .inl ⟨_, fun _ => rfl⟩
  | ok rules =>
  simp only
  cases settings.excludePatterns.elements with
  | error e => exact .inl ⟨_, fun _ => rfl⟩
  | ok explicit =>
  simp only
  cases addPatterns rules .explicit explicit with
  | error e => exact .inl ⟨_, fun _ => rfl⟩
  | ok rules =>
  simp only
  cases addPatterns rules .host host with
  | error e => exact .inl ⟨_, fun _ => rfl⟩
  | ok rules =>
  simp only
  cases settings.outputFile.path with
  | error e => exact .inl ⟨_, fun _ => rfl⟩
  | ok output =>
      exact .inr ⟨⟨root, settings.maxFileSize, settings.maxFiles, [], some (root.join output),
        settings.followSymlinks, settings.scanTimeout⟩, rules, fun _ => rfl⟩

def patternsOf : Except DiskError Bytes → List Text
  | .error _ => []
  | .ok bytes =>
      match Utf8.decode bytes with
      | .error _ => []
      | .ok s => IgnoreFile.patterns (Text.universalNewlines s)

theorem load_eq (d : Disk) (p : Path) : IgnoreFile.load d p =
    (d.isFile p).map fun isFile => if isFile then patternsOf (d.readFile p) else [] := by
  unfold IgnoreFile.load patternsOf
  rcases d.isFile p with e | _ | _
  · rfl
  · rfl
  · cases d.readFile p with
    | error e => rfl
    | ok bytes => cases hdecode : Utf8.decode bytes <;> simp [hdecode] <;> rfl

section SameWithin

variable (h : d.SameWithin top d')
include h

theorem load_cases (p : Path) :
    (∃ e, IgnoreFile.load d p = .error e ∧ IgnoreFile.load d' p = .error e) ∨
      ∃ found found', IgnoreFile.load d p = .ok found ∧ IgnoreFile.load d' p = .ok found' := by
  rw [load_eq, load_eq, h.isFile]
  cases d.isFile p with
  | error e => exact .inl ⟨e, rfl, rfl⟩
  | ok isFile => exact .inr ⟨_, _, rfl, rfl⟩

theorem ignored_cases (settings : ScannerSettings) (root : Path) :
    (∃ e, ignored d settings root = .error e ∧ ignored d' settings root = .error e) ∨
      ∃ found found', ignored d settings root = .ok found ∧
        ignored d' settings root = .ok found' := by
  unfold ignored
  split
  · rcases load_cases h (ignoreFile root) with ⟨e, he, he'⟩ | ⟨found, found', hf, hf'⟩
    · rw [he, he']
      exact .inl ⟨_, rfl, rfl⟩
    · rw [hf, hf']
      exact .inr ⟨_, _, rfl, rfl⟩
  · exact .inr ⟨_, _, rfl, rfl⟩

theorem make_cases (p : Path) (settings : ScannerSettings) (host : Option Value) :
    (∃ e, make d p settings host = .error e ∧ make d' p settings host = .error e) ∨
      ∃ (plan : Plan) (base : List Rule) (found found' : List Text),
        make d p settings host =
          .ok (plan.withRules (Rule.insertPatterns base .gitignore found)) ∧
        make d' p settings host =
          .ok (plan.withRules (Rule.insertPatterns base .gitignore found')) := by
  rw [make_eq, make_eq, h.rootOf]
  cases rootOf d p with
  | error e => exact .inl ⟨e, rfl, rfl⟩
  | ok root =>
  simp only [bind, Except.bind]
  cases hostPatterns settings host with
  | error e => exact .inl ⟨e, rfl, rfl⟩
  | ok hosts =>
  simp only
  rcases ignored_cases h settings root with ⟨e, he, he'⟩ | ⟨found, found', hf, hf'⟩
  · rw [he, he']
    exact .inl ⟨e, rfl, rfl⟩
  · rw [hf, hf']
    rcases complete_cases root settings hosts with ⟨e, he⟩ | ⟨plan, base, hplan⟩
    · exact .inl ⟨e, he found, he found'⟩
    · exact .inr ⟨plan, base, found, found', hplan found, hplan found'⟩

theorem make_sameWithin (hignore : settings.useGitignore.isTruthy = true →
      ∀ root place content, d.resolve p = .ok root →
        d.Reaches (ignoreFile root) place (.file content) → top <+: place) :
    make d' p settings host = make d p settings host := by
  rw [make_eq, make_eq, h.rootOf]
  cases hroot : rootOf d p with
  | error e => rfl
  | ok root =>
  simp only [bind, Except.bind]
  have hsame : ignored d' settings root = ignored d settings root := by
    unfold ignored
    split
    · next huse =>
        have hread := h.readFile fun place content hreach =>
          hignore huse root place content (Walk.resolve_of_rootOf hroot) hreach
        rw [load_eq, load_eq, h.isFile, hread]
    · rfl
  rw [hsame]

end SameWithin

end Plan

/-! ## Runs on disks that are the same inside -/

theorem Disk.RootedAt.of_rootOf {d : Disk} {top : Place} {p root : Path}
    (hd : d.tree.wellFormed = true) (htop : d.RootedAt top p)
    (h : Plan.rootOf d p = .ok root) : d.RootedAt top root := by
  obtain ⟨place, children, hreach⟩ := Walk.reaches_of_rootOf h
  obtain rfl := htop root place children (Walk.resolve_of_rootOf h) hreach
  intro real last entries hreal hlast
  rw [hreach.resolve hd] at hreal
  cases hreal
  exact (hlast.unique (reaches_absolute hd (hreach.leads hd).1 rfl)).1

namespace Scanner

variable {τ : Type} {s : Scanner τ} {m : Moment} {d d' : Disk} {top : Place}
  {plan : Plan} {rules : List Rule}

/-- The rules that a scan goes by: those of the project, and those of the plan that are not
among them. -/
def rulesInEffect (s : Scanner τ) (d : Disk) : Except ScanError (List Rule) := do
  let plan ← s.plan d
  let root ← Plan.rootOf d plan.root
  let project ← (ProjectKind.rulesAt d root).mapError ScanError.disk
  return Rule.extend project plan.rules

/-- The ignore file of a scan lies inside the place, unless it is not read. -/
def IgnoresInside (s : Scanner τ) (d : Disk) (top : Place) : Prop :=
  s.settings.scanner.useGitignore.isTruthy = true →
    ∀ root place content, d.resolve s.root = .ok root →
      d.Reaches (Plan.ignoreFile root) place (.file content) → top <+: place

theorem rulesInEffect_of_plan (hplan : s.plan d = .ok plan) {root : Path}
    {project : List Rule} (hroot : Plan.rootOf d plan.root = .ok root)
    (hproject : ProjectKind.rulesAt d root = .ok project) :
    s.rulesInEffect d = .ok (Rule.extend project plan.rules) := by
  simp only [rulesInEffect, hplan, hroot, hproject, bind, Except.bind, Except.mapError]
  rfl

theorem listed_of_walk {clock : Clock} {now : Calendar.DateTime} {report : Report}
    (h : s.walker.walk d plan clock now = .ok report) :
    ∃ root project, Plan.rootOf d plan.root = .ok root ∧
      ProjectKind.rulesAt d root = .ok project ∧
      report.excludedPatterns = Rule.listed (Rule.extend project plan.rules) := by
  unfold Walker.walk at h
  obtain ⟨root, hroot, h⟩ := ok_of_bind h
  obtain ⟨project, hproject, h⟩ := ok_of_bind h
  obtain ⟨output, -, h⟩ := ok_of_bind h
  obtain ⟨deadline, -, h⟩ := ok_of_bind h
  obtain ⟨t, -, h⟩ := ok_of_bind h
  cases h
  exact ⟨root, project, hroot, ok_of_mapError hproject, rfl⟩

section SameWithin

variable (h : d.SameWithin top d')
include h

theorem rules_of_runs {report : Report} (hrun : (s.run m d).2.2 = .ok report)
    (hrun' : (s.run m d').2.2 = .ok report) : s.rulesInEffect d' = s.rulesInEffect d := by
  obtain ⟨plan₁, target, hplan₁, -, hwalk, -⟩ :=
    scanOnce_eq_ok_iff.1 (scanOnce_of_run (Prod.ext rfl (Prod.ext rfl hrun)))
  obtain ⟨plan₂, target', hplan₂, -, hwalk', -⟩ :=
    scanOnce_eq_ok_iff.1 (scanOnce_of_run (Prod.ext rfl (Prod.ext rfl hrun')))
  obtain ⟨root, project, hroot, hproject, hlisted⟩ := listed_of_walk hwalk
  obtain ⟨root', project', hroot', hproject', hlisted'⟩ := listed_of_walk hwalk'
  rw [rulesInEffect_of_plan hplan₁ hroot hproject, rulesInEffect_of_plan hplan₂ hroot' hproject']
  rcases Plan.make_cases h s.root s.settings.scanner s.hostExcludes with
    ⟨e, he, -⟩ | ⟨plan, base, found, found', hplan, hplan'⟩
  · cases hplan₁.symm.trans he
  · obtain rfl := Except.ok.inj (hplan₁.symm.trans hplan)
    obtain rfl := Except.ok.inj (hplan₂.symm.trans hplan')
    obtain rfl : root' = root := Except.ok.inj
      (hroot'.symm.trans ((h.rootOf _).trans hroot))
    obtain rfl : project' = project := Except.ok.inj
      (hproject'.symm.trans ((Walk.rulesAt_sameWithin h _).trans hproject))
    exact congrArg Except.ok
      (Rule.eq_of_listed (by decide) (hlisted'.symm.trans hlisted))

theorem rules_of_ignoresInside (hignores : s.IgnoresInside d top) :
    s.rulesInEffect d' = s.rulesInEffect d := by
  have hplan : s.plan d' = s.plan d := Plan.make_sameWithin h hignores
  unfold rulesInEffect
  simp only [hplan, h.rootOf, Walk.rulesAt_sameWithin h]

variable (hd : d.tree.wellFormed = true) (htop : d.RootedAt top s.root)
include hd htop

theorem walk_sameWithin {rules' : List Rule} {clock : Clock} {now : Calendar.DateTime}
    (hplan : s.plan d = .ok (plan.withRules rules))
    (hplan' : s.plan d' = .ok (plan.withRules rules'))
    (hrules : s.rulesInEffect d' = s.rulesInEffect d) :
    s.walker.walk d' (plan.withRules rules') clock now =
      s.walker.walk d (plan.withRules rules) clock now := by
  have hrooted : d.RootedAt top (plan.withRules rules').root :=
    htop.of_rootOf hd (Plan.of_make hplan).1
  rw [Walk.walk_sameWithin hd h hrooted]
  change s.walker.walk d ((plan.withRules rules).withRules rules') clock now = _
  refine Walk.walk_withRules fun root project hroot hproject => ?_
  have hroot' : Plan.rootOf d' plan.root = .ok root := (h.rootOf _).trans hroot
  have hproject' := (Walk.rulesAt_sameWithin h root).trans hproject
  rw [rulesInEffect_of_plan hplan hroot hproject,
    rulesInEffect_of_plan hplan' hroot' hproject'] at hrules
  exact Except.ok.inj hrules

theorem scanOnce_sameWithin (hrules : s.rulesInEffect d' = s.rulesInEffect d) :
    (s.scanOnce m d').2 = (s.scanOnce m d).2 ∧
      (s.scanOnce m d).1.SameWithin top (s.scanOnce m d').1 := by
  unfold scanOnce
  rcases Plan.make_cases h s.root s.settings.scanner s.hostExcludes with
    ⟨e, he, he'⟩ | ⟨plan, base, found, found', hplan, hplan'⟩
  · rw [show s.plan d = _ from he, show s.plan d' = _ from he']
    exact ⟨rfl, h⟩
  · rw [show s.plan d = _ from hplan, show s.plan d' = _ from hplan']
    simp only [bind, Except.bind, walk_sameWithin h hd htop hplan hplan' hrules]
    cases s.walker.walk d (plan.withRules (Rule.insertPatterns base .gitignore found)) m.clock
        m.now with
    | error e => exact ⟨rfl, h⟩
    | ok report =>
        simp only [pure, Except.pure, Plan.withRules]
        cases plan.outputTarget with
        | none => exact ⟨rfl, h⟩
        | some target =>
            obtain ⟨hwritten, hdisks⟩ := h.write report target
            exact ⟨congrArg (Except.map fun _ => report) hwritten, hdisks⟩

theorem run_sameWithin (hrules : s.rulesInEffect d' = s.rulesInEffect d) :
    (s.run m d').1 = (s.run m d).1 ∧ (s.run m d').2.2 = (s.run m d).2.2 ∧
      (s.run m d).2.1.SameWithin top (s.run m d').2.1 := by
  obtain ⟨houtcome, hdisks⟩ := scanOnce_sameWithin h hd htop hrules
  cases hscanning : s.session.scanning with
  | true =>
      rw [run_of_scanning hscanning, run_of_scanning hscanning]
      exact ⟨rfl, rfl, h⟩
  | false =>
      rw [run_of_idle hscanning, run_of_idle hscanning, houtcome]
      exact ⟨rfl, rfl, hdisks⟩

/-- On disks that differ in the bytes of files outside of the root and in nothing else, a run
has the same outcome as long as the rules in effect are the same, and leaves disks that are
the same inside the root.  If the rules are not the same, no report can be.  They can differ
only if the ignore file is read and lies outside. -/
theorem run_disclosure :
    (s.rulesInEffect d' = s.rulesInEffect d →
      (s.run m d').1 = (s.run m d).1 ∧ (s.run m d').2.2 = (s.run m d).2.2 ∧
        (s.run m d).2.1.SameWithin top (s.run m d').2.1) ∧
    (∀ report, (s.run m d).2.2 = .ok report → (s.run m d').2.2 = .ok report →
      s.rulesInEffect d' = s.rulesInEffect d) ∧
    (s.IgnoresInside d top → s.rulesInEffect d' = s.rulesInEffect d) :=
  ⟨run_sameWithin h hd htop, fun _ => rules_of_runs h, rules_of_ignoresInside h⟩

end SameWithin

/-! ## An ignore file that leads outside -/

def outwardIgnore (content : Bytes) : Disk :=
  ⟨.dir [([.char 'r'], .dir [(RawText.ofText IgnoreFile.defaultName, .link (RawText.ofText "/s"))]),
    ([.char 's'], .file content)], [], [], []⟩

def outwardScanner (useGitignore : Bool) : Scanner Nat :=
  { bareScanner "o" with
    root := ⟨1, [[.char 'r']]⟩
    settings :=
      { (bareScanner "o").settings with
        scanner :=
          { (bareScanner "o").settings.scanner with useGitignore := .bool useGitignore } } }

theorem rootedAt_outward (content : Bytes) :
    (outwardIgnore content).RootedAt [[.char 'r']] ⟨1, [[.char 'r']]⟩ := by
  intro root place children hroot hreach
  have hreal : (outwardIgnore content).resolve ⟨1, [[.char 'r']]⟩ = .ok ⟨1, [[.char 'r']]⟩ := by
    cbv
  cases hreal.symm.trans hroot
  have hdir : (outwardIgnore content).Reaches ⟨1, [[.char 'r']]⟩ [[.char 'r']]
      (.dir [(RawText.ofText IgnoreFile.defaultName, .link (RawText.ofText "/s"))]) := by
    unfold Disk.Reaches
    cbv
  exact (hreach.unique hdir).1

/-- The pattern `*` outside is of no account to a scan without the ignore file, while one with
the ignore file goes by it. -/
theorem run_disclosure_outward :
    ((outwardScanner false).run bareMoment (outwardIgnore [42])).2.2 =
        ((outwardScanner false).run bareMoment (outwardIgnore [])).2.2 ∧
      (outwardScanner true).rulesInEffect (outwardIgnore [42]) ≠
        (outwardScanner true).rulesInEffect (outwardIgnore []) := by
  have hsame : (outwardIgnore []).SameWithin [[.char 'r']] (outwardIgnore [42]) := by
    unfold Disk.SameWithin
    cbv
  obtain ⟨hrun, -, hrules⟩ := run_disclosure (s := outwardScanner false) (m := bareMoment) hsame
    (by decide) (rootedAt_outward [])
  refine ⟨(hrun (hrules fun huse => ?_)).2.1, ?_⟩
  · cases huse
  · cbv
    simp

end Scanner

end SourceScan
