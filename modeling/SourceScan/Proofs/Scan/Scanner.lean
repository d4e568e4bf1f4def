import SourceScan.Proofs.Report.Delivery
import SourceScan.Proofs.Rule.Spelling
import SourceScan.Proofs.Walk.Report
import SourceScan.Scan.Scanner

/-!
# Plans and runs of a scanner

A plan names a root, which is an absolute path, and a target that is seen from it.  The
rules for a watcher put those that spell out the report and the file beside it before
the others, and there are none exactly if the report is to take the place of the root.
-/

namespace SourceScan

open FileTree Disk

theorem Path.relativeTo?_self (p : Path) : p.relativeTo? p = some [] := by
  rw [Path.relativeTo?_eq_some, List.append_nil]

/-! ## Plans -/

namespace Plan

variable {d : Disk} {p root : Path} {settings : ScannerSettings} {host : Option Value}
  {plan : Plan}

theorem of_make (h : make d p settings host = .ok plan) :
    rootOf d p = .ok plan.root ∧ ∃ output, settings.outputFile.path = .ok output ∧
      plan.outputTarget = some (plan.root.join output) := by
  unfold make at h
  obtain ⟨root, hroot, h⟩ := ok_of_bind h
  dsimp only at h
  -- the rules of the host and of the ignore file may each be switched off
  split at h <;> obtain ⟨host, -, h⟩ := ok_of_bind h <;> split at h
  all_goals
    obtain ⟨ignored, -, h⟩ := ok_of_bind h
    obtain ⟨rules, -, h⟩ := ok_of_bind h
    obtain ⟨output, houtput, h⟩ := ok_of_bind h
    cases h
    exact ⟨hroot, output, ok_of_mapError houtput, rfl⟩

theorem ofText_of_path {v : Value} {output : Path} (h : v.path = .ok output) :
    ∃ s, output = Path.ofText s := by
  cases v with
  | str s =>
      cases h
      exact ⟨s, rfl⟩
  | _ => cases h

theorem subset_of_make {target : Path} {names : List FileName}
    (h : make d p settings host = .ok plan) (htarget : plan.outputTarget = some target)
    (hnames : target.relativeTo? plan.root = some names) :
    ∃ s, names ⊆ (Path.ofText s).names := by
  obtain ⟨-, output, hpath, houtput⟩ := of_make h
  obtain ⟨s, rfl⟩ := ofText_of_path hpath
  rw [htarget, Option.some.injEq] at houtput
  subst houtput
  refine ⟨s, ?_⟩
  have heq := Path.relativeTo?_eq_some.1 hnames
  unfold Path.join at heq
  split at heq
  · rw [heq]
    simp
  · have hrest : (Path.ofText s).names = names := by
      simpa using congrArg Path.names heq
    rw [hrest]
    exact List.Subset.refl _

theorem names_of_make {target : Path} {names : List FileName}
    (h : make d p settings host = .ok plan) (htarget : plan.outputTarget = some target)
    (hnames : target.relativeTo? plan.root = some names) :
    ∀ name ∈ names, name ≠ [] ∧ name ≠ [Path.dot] ∧ Path.slash ∉ name := by
  obtain ⟨s, hsub⟩ := subset_of_make h htarget hnames
  exact fun name hname => Path.names_of_parse (hsub hname)

theorem slash_not_mem_of_make (hd : d.tree.wellFormed = true) {target : Path}
    (h : make d p settings host = .ok plan) (htarget : plan.outputTarget = some target) :
    ∀ name ∈ target.names, Path.slash ∉ name := by
  obtain ⟨hroot, output, hpath, houtput⟩ := of_make h
  obtain ⟨s, rfl⟩ := ofText_of_path hpath
  rw [htarget, Option.some.injEq] at houtput
  subst houtput
  have houtput : ∀ name ∈ (Path.ofText s).names, Path.slash ∉ name := fun name hname =>
    (Path.names_of_parse hname).2.2
  unfold Path.join
  split
  · exact houtput
  · obtain ⟨place, children, hreach⟩ := Walk.reaches_of_rootOf hroot
    obtain ⟨-, used, -, hleads⟩ := hreach.leads hd
    intro name hname
    rcases List.mem_append.1 hname with hname | hname
    · exact (hleads.clean name hname).1
    · exact houtput name hname

theorem make_congr {d' : Disk} (hroot : rootOf d' p = rootOf d p)
    (hload : ∀ root, rootOf d p = .ok root →
      IgnoreFile.load d' (root.child (RawText.ofText IgnoreFile.defaultName)) =
        IgnoreFile.load d (root.child (RawText.ofText IgnoreFile.defaultName))) :
    make d' p settings host = make d p settings host := by
  unfold make
  rw [hroot]
  cases hreal : rootOf d p with
  | error e => rfl
  | ok root =>
      simp only [bind, Except.bind]
      rw [hload root hreal]

/-! ## The rules for a watcher -/

def outputNames (plan : Plan) : List (List FileName) :=
  match plan.outputTarget.bind (·.relativeTo? plan.root) with
  | none => []
  | some names => [names, names.dropLast ++ [Path.stagingName (names.getLast?.getD [])]]

def foreign (plan : Plan) (project : List Rule) : List Rule :=
  project ++ plan.rules.filter fun r => !project.any (·.pattern = r.pattern)

/-- The rules for a watcher: two that spell out the report and the file beside it, then
those of the project and of the plan. -/
def watched (plan : Plan) (project : List Rule) : List Rule :=
  plan.outputNames.map (fun names => ⟨Path.spelled names, .builtin⟩) ++
    plan.foreign project

end Plan

namespace Scanner

variable {τ : Type} {s : Scanner τ} {d : Disk} {plan : Plan}

/-- A watcher gets its rules unless those of the project cannot be found or the report
is to take the place of the root. -/
theorem watchRules_eq (h : s.plan d = .ok plan) :
    s.watchRules d = match ProjectKind.rulesAt d plan.root with
      | .error e => .error (.disk e)
      | .ok project =>
          if plan.outputTarget = some plan.root then .error (.nameless ⟨0, []⟩)
          else .ok (plan.watched project) := by
  unfold watchRules
  rw [h]
  simp only [bind, Except.bind]
  cases ProjectKind.rulesAt d plan.root with
  | error e => rfl
  | ok project =>
  cases houtput : plan.outputTarget.bind (·.relativeTo? plan.root) with
  | none =>
      have hne : plan.outputTarget ≠ some plan.root := by
        intro heq
        rw [heq, Option.bind_some] at houtput
        simp [Path.relativeTo?_self] at houtput
      simp [Except.mapError, Plan.watched, Plan.foreign, Plan.outputNames, houtput, hne, pure,
        Except.pure]
  | some names =>
      obtain ⟨target, htarget, hnames⟩ := Option.bind_eq_some_iff.1 houtput
      have hroot : target = plan.root ↔ names = [] := by
        constructor
        · rintro rfl
          rw [Path.relativeTo?_self] at hnames
          cases hnames
          rfl
        · rintro rfl
          rw [Path.relativeTo?_eq_some.1 hnames, List.append_nil]
      rcases List.eq_nil_or_concat' names with rfl | ⟨sub, name, rfl⟩
      · simp [Except.mapError, htarget, hroot, Path.staging?, Path.withName?, Path.name,
          throw, throwThe, MonadExceptOf.throw]
      · obtain ⟨hname, -⟩ := Plan.names_of_make h htarget hnames name (by simp)
        simp [Except.mapError, htarget, hnames, hroot, Plan.watched, Plan.foreign, Plan.outputNames,
          Path.staging?, Path.withName?, Path.name, hname, Path.stagingName,
          Path.spelled, pure, Except.pure]

theorem watched_of_watchRules {rules : List Rule} (h : s.plan d = .ok plan)
    (hrules : s.watchRules d = .ok rules) :
    ∃ project, ProjectKind.rulesAt d plan.root = .ok project ∧
      rules = plan.watched project := by
  rw [watchRules_eq h] at hrules
  cases hproject : ProjectKind.rulesAt d plan.root with
  | error e =>
      rw [hproject] at hrules
      cases hrules
  | ok project =>
      simp only [hproject] at hrules
      split at hrules
      · cases hrules
      · cases hrules
        exact ⟨project, rfl, rfl⟩

/-! ## Runs -/

variable {m : Moment} {s' : Scanner τ} {done : Disk} {report : Report}

def ended (s : Scanner τ) (outcome : Except ScanError Report) : Scanner τ :=
  { s with session := s.session.finish, lastReport := outcome.toOption.or s.lastReport }

theorem run_of_scanning (h : s.session.scanning = true) :
    s.run m d = (s, d, .error .inProgress) := by
  rw [run, Session.guarded, if_pos h]

theorem run_of_idle (h : s.session.scanning = false) :
    s.run m d = (s.ended (s.scanOnce m d).2, s.scanOnce m d) := by
  rw [run, Session.guarded, if_neg (by simp [h])]
  rcases s.scanOnce m d with ⟨done, e | report⟩ <;> rfl

theorem idle_of_run (h : s.run m d = (s', done, .ok report)) :
    s.session.scanning = false := by
  cases hscanning : s.session.scanning with
  | false => rfl
  | true =>
      rw [run_of_scanning hscanning] at h
      cases h

theorem scanOnce_of_run (h : s.run m d = (s', done, .ok report)) :
    s.scanOnce m d = (done, .ok report) := by
  rw [run_of_idle (idle_of_run h)] at h
  exact congrArg Prod.snd h

theorem run_of_scanOnce (hidle : s.session.scanning = false)
    (h : s.scanOnce m d = (done, .ok report)) :
    ∃ s', s.run m d = (s', done, .ok report) :=
  ⟨_, (run_of_idle hidle).trans (by rw [h])⟩

theorem scanOnce_eq_ok_iff : s.scanOnce m d = (done, .ok report) ↔
    ∃ plan target, s.plan d = .ok plan ∧ plan.outputTarget = some target ∧
      s.walker.walk d plan m.clock m.now = .ok report ∧
      report.write target d = (done, .ok ()) := by
  unfold scanOnce
  cases hplan : s.plan d with
  | error e => simp [bind, Except.bind]
  | ok plan =>
  obtain ⟨-, output, -, htarget⟩ := Plan.of_make hplan
  cases hwalk : s.walker.walk d plan m.clock m.now with
  | error e => simp [hwalk, bind, Except.bind]
  | ok found =>
  simp only [hwalk, bind, Except.bind, pure, Except.pure, htarget, Except.ok.injEq,
    Prod.mk.injEq]
  constructor
  · rintro ⟨rfl, hwritten⟩
    refine ⟨plan, _, rfl, htarget, ?_⟩
    cases hwrite : (found.write (plan.root.join output) d).2 with
    | error e =>
        rw [hwrite] at hwritten
        cases hwritten
    | ok u =>
        rw [hwrite] at hwritten
        cases hwritten
        exact ⟨hwalk, Prod.ext rfl hwrite⟩
  · rintro ⟨plan', target, rfl, htarget', hwalk', hwrite⟩
    rw [htarget] at htarget'
    rw [hwalk] at hwalk'
    cases htarget'
    cases hwalk'
    rw [hwrite]
    exact ⟨rfl, rfl⟩

/-- A run comes to its end if the walk does, the report can be spelled out and its file can be
written and moved. -/
theorem exists_run {target : Path} (hidle : s.session.scanning = false)
    (hplan : s.plan d = .ok plan) (htarget : plan.outputTarget = some target)
    (hwalk : s.walker.walk d plan m.clock m.now = .ok report)
    (hpayload : (report.payload target).toOption.isSome = true)
    (hmove : ∀ bytes, ∃ staging written done, target.staging? = some staging ∧
      d.writeFile staging bytes = .ok written ∧ written.rename staging target = .ok done) :
    ∃ s' done, s.run m d = (s', done, .ok report) := by
  cases hbytes : report.payload target with
  | error e => simp [hbytes, Except.toOption] at hpayload
  | ok bytes =>
      obtain ⟨staging, written, done, hstaging, hwrite, hrename⟩ := hmove bytes
      have hwritten : report.write target d = (done, .ok ()) := by
        unfold Report.write
        simp only [hbytes, hstaging, hwrite, hrename]
      obtain ⟨s', hrun⟩ := run_of_scanOnce hidle
        (scanOnce_eq_ok_iff.2 ⟨plan, target, hplan, htarget, hwalk, hwritten⟩)
      exact ⟨s', done, hrun⟩

theorem of_run (h : s.run m d = (s', done, .ok report)) :
    ∃ plan target, s.plan d = .ok plan ∧ plan.outputTarget = some target ∧
      (∃ w, Walk.ofPlan s.walker d plan m.clock = .ok w) ∧
      report.write target d = (done, .ok ()) := by
  obtain ⟨plan, target, hplan, htarget, hwalk, hwrite⟩ :=
    scanOnce_eq_ok_iff.1 (scanOnce_of_run h)
  rw [Walk.walk_eq_meetAll] at hwalk
  obtain ⟨w, hw, -⟩ := ok_of_bind hwalk
  exact ⟨plan, target, hplan, htarget, ⟨w, hw⟩, hwrite⟩

/-- A run leaves the scanner as it was, ready for the next one. -/
theorem state_of_run (h : s.run m d = (s', done, .ok report)) :
    s' = { s with session := s.session.finish, lastReport := some report } := by
  have honce := scanOnce_of_run h
  rw [run_of_idle (idle_of_run h), honce, Prod.mk.injEq] at h
  exact h.1.symm

theorem watchRules_of_run (hd : d.tree.wellFormed = true)
    (h : s.run m d = (s', done, .ok report)) (hplan : s.plan d = .ok plan)
    (hreal : Plan.rootOf d plan.root = .ok plan.root) :
    ∃ rules, s.watchRules d = .ok rules := by
  obtain ⟨plan', target, hplan', htarget, ⟨w, hw⟩, hwrite⟩ := of_run h
  rw [hplan] at hplan'
  cases hplan'
  have hprepared := Walk.prepared_of_ofPlan hw
  obtain ⟨project, -, hproject, -⟩ := hprepared.rules
  have hroot : w.root = plan.root :=
    Except.ok.inj (hprepared.root.symm.trans hreal)
  rw [hroot] at hproject
  obtain ⟨place, children, hreach⟩ := Walk.reaches_of_rootOf hreal
  have habsolute : plan.root = absolute place :=
    Except.ok.inj ((Walk.resolve_of_rootOf hreal).symm.trans (hreach.resolve hd))
  have hne : plan.outputTarget ≠ some plan.root := by
    intro heq
    rw [htarget, Option.some.injEq, habsolute] at heq
    subst heq
    obtain ⟨out⟩ := Delivery.of_write hwrite
    exact out.not_directory hd (hreach.leads hd).1
  rw [watchRules_eq hplan, hproject]
  simp only [hne, if_false]
  exact ⟨_, rfl⟩

/-! ## Runs on an empty disk -/

def bareDisk : Disk := ⟨.dir [], [], [], []⟩

def bareTime : Calendar.DateTime := ⟨⟨2024, 1, 2⟩, 3, 4, 5, 0, some 0⟩

def bareReport : Report := ⟨[], 0, bareTime, [], [], false, false⟩

def bareMoment : Moment := ⟨fun _ => default, bareTime⟩

def bareScanner (output : Text) : Scanner Nat where
  root := ⟨1, []⟩
  settings :=
    { scanner := ⟨.int 100, .int 1, .str output, .list [], .list [], .bool false,
        .bool false, .null, .bool false, .null⟩
      watch := ⟨.int 0, .bool false⟩
      logging := ⟨.null, .null⟩ }
  session := .idle
  walker := ⟨.standard, .empty, 10⟩
  hostExcludes := none
  lastReport := none

def barePlan (names : List FileName) : Plan :=
  ⟨⟨1, []⟩, .int 100, .int 1, [], some (absolute names), .bool false, .null⟩

def outputName : FileName := [.char 'o']

/-- The target as it lies on the disk, and the same one spelled through the directory above. -/
inductive BareSpelling : Text → List FileName → Prop where
  | straight : BareSpelling "o" [outputName]
  | winding : BareSpelling "../o" [Path.dotDot, outputName]

variable {output : Text} {names : List FileName}

theorem plan_bare (h : BareSpelling output names) :
    (bareScanner output).plan bareDisk = .ok (barePlan names) := by
  cases h <;> cbv

theorem run_bare (h : BareSpelling output names) : ∃ s' done,
    (bareScanner output).run bareMoment bareDisk = (s', done, .ok bareReport) := by
  have hpayload : (bareReport.payload (absolute names)).toOption.isSome = true := by
    cases h <;> decide +kernel
  have hwalk : (bareScanner output).walker.walk bareDisk (barePlan names) bareMoment.clock
      bareMoment.now = .ok bareReport := by
    cases h <;> cbv
  refine exists_run rfl (plan_bare h) rfl hwalk hpayload fun bytes => ?_
  refine ⟨⟨1, names.dropLast ++ [Path.stagingName outputName]⟩,
    ⟨.dir ([(Path.stagingName outputName, .file bytes)]), [], [], []⟩,
    ⟨.dir ([(outputName, .file bytes)]), [], [], []⟩, ?_, ?_, ?_⟩
  all_goals cases h <;> cbv

/-! ## A run that replaces a report -/

def selfScanner : Scanner Nat :=
  { bareScanner "a/b" with
    walker := Walk.mixedWalker
    settings :=
      { (bareScanner "a/b").settings with
        scanner :=
          { (bareScanner "a/b").settings.scanner with
            maxFiles := .int 4
            excludePatterns := .list [.str "s/"]
            followSymlinks := .bool true } } }

theorem plan_self : selfScanner.plan Walk.plainDisk = .ok Walk.selfPlan := by
  cbv

theorem run_self : ∃ s' done,
    selfScanner.run bareMoment Walk.plainDisk = (s', done, .ok (Walk.selfReport bareTime)) := by
  have hpayload : ((Walk.selfReport bareTime).payload
      ⟨1, [Walk.subName, Walk.innerName]⟩).toOption.isSome = true := by
    decide +kernel
  refine exists_run rfl plan_self rfl Walk.walk_self hpayload fun bytes => ?_
  refine ⟨⟨1, [Walk.subName, Path.stagingName Walk.innerName]⟩,
    Walk.plainDiskWith [(Walk.innerName, .file [0x69, 0x0A]),
      (Path.stagingName Walk.innerName, .file bytes)],
    Walk.plainDiskWith [(Walk.innerName, .file bytes)], ?_, ?_, ?_⟩
  all_goals cbv

end Scanner

end SourceScan
