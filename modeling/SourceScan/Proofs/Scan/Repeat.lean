import SourceScan.Proofs.Report.Redelivery
import SourceScan.Proofs.Scan.Scanner
import SourceScan.Proofs.Walk.Artifact
import SourceScan.Proofs.Walk.Numbers

/-!
# Scanning again

A scan that succeeds leaves two traces: the report, and that nothing stands beside it any
more.  The report is nothing that another scan takes notice of.  A file that stood beside it
before may have been taken down, though, and then the next scan reports what it would have
reported without that file.
-/

namespace SourceScan

open FileTree Disk

/-- The report of a plan without a timeout belongs below the root, under a name that nothing
else is read from. -/
structure Plan.Repeats (plan : Plan) (d : Disk) (dir : List FileName) (name : FileName)
    (limit budget : Int) : Prop where
  target : ∃ target, plan.outputTarget = some target ∧
    d.resolve target = .ok (absolute (plan.root.names ++ (dir ++ [name])))
  text : ∃ text, (Path.joined (dir ++ [name])).text? = some text ∧ '\\' ∉ text ∧
    Text.strip text = text
  unmarked : ∀ kind ∈ ProjectKind.all, ∀ marker ∈ kind.markers,
    dir ++ [name] ≠ [RawText.ofText marker]
  unignored : dir ++ [name] ≠ [RawText.ofText IgnoreFile.defaultName]
  /-- The file beside the report has no other name. -/
  unshared : d.aliases (plan.root.names ++ (dir ++ [Path.stagingName name])) = []
  maxFileSize : plan.maxFileSize = .int limit
  maxFiles : plan.maxFiles = .int budget
  untimed : plan.scanTimeout = .null

namespace Plan

def Delivered (plan : Plan) (d : Disk) (names : List FileName) (report : Report) : Prop :=
  ∃ target content, plan.outputTarget = some target ∧ report.payload target = .ok content ∧
    d.tree.at? (plan.root.names ++ names) = some (.file content)

variable {d : Disk} {p : Path} {settings : ScannerSettings} {host : Option Value} {plan : Plan}
  {target : Path}

theorem isAbsolute_of_make (h : make d p settings host = .ok plan)
    (htarget : plan.outputTarget = some target) : target.isAbsolute = true := by
  obtain ⟨hroot, output, -, houtput⟩ := of_make h
  have habsolute := isAbsolute_of_resolve (Walk.resolve_of_rootOf hroot)
  rw [htarget, Option.some.injEq] at houtput
  subst houtput
  unfold Path.join
  split
  · assumption
  · exact habsolute

theorem staysHere_of_make (h : make d p settings host = .ok plan)
    (htarget : plan.outputTarget = some target)
    (hbelow : plan.root.names.length < (descend [] target.names).length) :
    staysHere target.name = false := by
  obtain ⟨-, output, hpath, houtput⟩ := of_make h
  obtain ⟨s, rfl⟩ := ofText_of_path hpath
  rw [htarget, Option.some.injEq] at houtput
  subst houtput
  have hlength := length_descend_le [] (plan.root.join (Path.ofText s)).names
  rcases List.eq_nil_or_concat' (Path.ofText s).names with hnil | ⟨above, last, hlast⟩
  · exfalso
    unfold Path.join at hlength hbelow
    split at hlength <;> simp_all
    all_goals omega
  · have hname : (plan.root.join (Path.ofText s)).name = last := by
      unfold Path.join
      split <;> simp [Path.name, hlast]
    have hmem : last ∈ (Path.parse (RawText.ofText s)).names := by
      rw [show Path.parse (RawText.ofText s) = Path.ofText s from rfl, hlast]
      simp
    obtain ⟨hne, hdot, -⟩ := Path.names_of_parse hmem
    rw [hname]
    simp [staysHere, hne, hdot]

end Plan

namespace Scanner

variable {τ : Type} {s s' : Scanner τ} {m m' : Moment} {d done : Disk} {report : Report}
  {plan : Plan} {dir : List FileName} {name : FileName} {limit budget : Int}

structure Published (s : Scanner τ) (m : Moment) (d done : Disk) (report : Report) (plan : Plan)
    (dir : List FileName) (name : FileName) : Prop where
  walked : s.walker.walk d plan m.clock m.now = .ok report
  root : plan.root = absolute plan.root.names
  rootOf : Plan.rootOf d s.root = .ok plan.root
  delivered : ∃ target, plan.outputTarget = some target ∧
    ∃ out : Delivery report target d done, out.Lands (plan.root.names ++ dir) name ∧
      ∀ place ∈ out.places, ∀ entry ∈ place, isEntryName entry = true

theorem published_of_run (hd : d.tree.wellFormed = true) (hfree : d.tree.LinkFree)
    (hrun : s.run m d = (s', done, .ok report)) (hplan : s.plan d = .ok plan)
    (h : plan.Repeats d dir name limit budget) : s.Published m d done report plan dir name := by
  obtain ⟨plan', target, hplan', htarget, hwalk, hwrite⟩ :=
    scanOnce_eq_ok_iff.1 (scanOnce_of_run hrun)
  obtain rfl : plan = plan' := Except.ok.inj (hplan.symm.trans hplan')
  obtain ⟨out⟩ := Delivery.of_write hwrite
  obtain ⟨target', htarget', hreal⟩ := h.target
  obtain rfl : target = target' := Option.some.inj (htarget.symm.trans htarget')
  obtain ⟨hroot, -⟩ := Plan.of_make hplan
  have habsolute := Plan.isAbsolute_of_make hplan htarget
  have hslash := Plan.slash_not_mem_of_make hd hplan htarget
  have hstart : d.startOf target = [] := by
    unfold startOf
    rw [if_pos habsolute]
  have hclean := hasNull_of_fault? (rename_eq_ok_iff.1 out.rename).1.2
  rw [resolve_of_linkFree hd hfree, hclean, if_neg Bool.false_ne_true, hstart] at hreal
  have hplace : descend [] target.names = plan.root.names ++ dir ++ [name] := by
    rw [List.append_assoc]
    exact congrArg Path.names (Except.ok.inj hreal)
  have hstays := Plan.staysHere_of_make hplan htarget (by rw [hplace]; simp)
  refine ⟨hwalk, ?_, hroot, target, htarget, out, ?_, ?_⟩
  · have hreal := Walk.resolve_of_rootOf hroot
    rw [resolve_of_linkFree hd hfree] at hreal
    split at hreal
    · cases hreal
    · rw [← Except.ok.inj hreal]
      rfl
  · exact out.lands hd hfree habsolute hslash hstays (hstart.symm ▸ hplace)
      (List.append_assoc .. ▸ h.unshared)
  · exact out.isEntryName_of_mem_places hd habsolute hslash

/-- Nothing is at a path below the root, or nothing comes of it in the walk of a run. -/
def Unnoticed (s : Scanner τ) (m : Moment) (d : Disk) (plan : Plan) (names : List FileName) :
    Prop :=
  d.tree.at? (plan.root.names ++ names) = none ∨
    ∀ w, Walk.ofPlan s.walker d plan m.clock = .ok w → w.Ignores names

theorem Unnoticed.ignores {w : Walk} {names : List FileName}
    (h : s.Unnoticed m d plan names) (hw : Walk.ofPlan s.walker d plan m.clock = .ok w)
    (hroot : w.root = absolute plan.root.names) (hunlinked : w.Unlinked) : w.Ignores names := by
  rcases h with hnone | hignores
  · refine hunlinked.ignores fun t hat => ?_
    rw [hroot, (Walk.prepared_of_ofPlan hw).sameDisk] at hat
    cases hnone.symm.trans hat
  · exact hignores w hw

theorem ne_stagingName {text : Text} (h : ¬RawText.ofText (".tmp" : Text) <:+ RawText.ofText text) :
    dir ++ [Path.stagingName name] ≠ [RawText.ofText text] := by
  intro heq
  have hlast : Path.stagingName name = RawText.ofText text := by
    have hsome := congrArg List.getLast? heq
    simpa using hsome
  refine h ⟨Path.dot :: name, ?_⟩
  rw [← hlast]
  rfl

namespace Published

section Disk

variable (hp : s.Published m d done report plan dir name)
include hp

theorem directory : ∃ children entries, d.tree.at? plan.root.names = some (.dir children) ∧
    d.tree.at? (plan.root.names ++ dir) = some (.dir entries) := by
  obtain ⟨target, -, out, hlands, -⟩ := hp.delivered
  obtain ⟨entries, hdir⟩ := hlands.directory
  obtain ⟨children, hroot⟩ := directory_of_at?_append hdir
  exact ⟨children, entries, hroot, hdir⟩

theorem resolve_root : d.resolve s.root = .ok (absolute plan.root.names) :=
  (Walk.resolve_of_rootOf hp.rootOf).trans (congrArg Except.ok hp.root)

theorem delivered_first (hd : d.tree.wellFormed = true) (hfree : d.tree.LinkFree)
    (hpipe : d.tree.at? (plan.root.names ++ (dir ++ [Path.stagingName name])) ≠ some .pipe) :
    plan.Delivered done (dir ++ [name]) report := by
  obtain ⟨target, htarget, out, hlands, hnames⟩ := hp.delivered
  rw [← List.append_assoc] at hpipe
  have hcontent := hlands.artifact hnames hd hfree hpipe
  rw [List.append_assoc] at hcontent
  exact ⟨target, out.content, htarget, out.payload, hcontent⟩

theorem cleared : (d.without (plan.root.names ++ (dir ++ [Path.stagingName name]))).tree.at?
    (plan.root.names ++ (dir ++ [Path.stagingName name])) = none := by
  obtain ⟨children, entries, -, hdir⟩ := hp.directory
  rw [← List.append_assoc]
  exact at?_erase d.tree hdir

variable (hd : d.tree.wellFormed = true)
include hd

theorem publishes (h : plan.Repeats d dir name limit budget) :
    plan.Publishes d plan.root.names (dir ++ [name]) := by
  obtain ⟨children, entries, hroot, hdir⟩ := hp.directory
  refine ⟨?_, h.target, ⟨dir, name, entries, rfl, hdir⟩, h.text, h.unmarked⟩
  have hreal := (reaches_absolute hd hroot rfl).resolve hd
  rw [← hp.root] at hreal
  exact hreal.trans (congrArg Except.ok hp.root)

theorem root_eq {w : Walk} {clock : Clock} (hw : Walk.ofPlan s.walker d plan clock = .ok w) :
    w.root = absolute plan.root.names := by
  obtain ⟨children, entries, hroot, -⟩ := hp.directory
  have hreach := reaches_absolute hd hroot rfl
  rw [← hp.root] at hreach
  exact Walk.eq_absolute_of_rootOf hd (Walk.prepared_of_ofPlan hw).root hreach

theorem exists_list : ∃ names, d.list (absolute plan.root.names) = .ok names := by
  obtain ⟨w, -, hw, -⟩ := Walk.progress_of_walk hp.walked
  have hpath : w.pathOf [] = absolute plan.root.names := (w.pathOf_nil).trans (hp.root_eq hd hw)
  cases hlist : d.list (absolute plan.root.names) with
  | ok names => exact ⟨names, rfl⟩
  | error cause =>
      have hwalked := hp.walked
      have hdisk := (Walk.prepared_of_ofPlan hw).sameDisk
      rw [Walk.walk_of_refused_root hd hw (by rw [hdisk, hpath, hlist])] at hwalked
      cases hwalked

variable (hfree : d.tree.LinkFree)
include hfree

theorem twins_without :
    (d.without (plan.root.names ++ (dir ++ [Path.stagingName name]))).Twins
      (· = plan.root.names ++ (dir ++ [name])) done := by
  obtain ⟨target, -, out, hlands, hnames⟩ := hp.delivered
  rw [← List.append_assoc, ← List.append_assoc]
  exact hlands.twins_without hnames hd hfree

theorem twins : d.Twins (fun place => place = plan.root.names ++ (dir ++ [Path.stagingName name]) ∨
    place = plan.root.names ++ (dir ++ [name])) done := by
  obtain ⟨target, -, out, hlands, hnames⟩ := hp.delivered
  rw [← List.append_assoc, ← List.append_assoc]
  exact hlands.twins hnames hd hfree

theorem gone : done.tree.at? (plan.root.names ++ (dir ++ [Path.stagingName name])) = none := by
  obtain ⟨target, -, out, hlands, hnames⟩ := hp.delivered
  rw [← List.append_assoc]
  exact hlands.gone hnames hd hfree

theorem twins_cleared : d.Twins (· = plan.root.names ++ (dir ++ [Path.stagingName name]))
    (d.without (plan.root.names ++ (dir ++ [Path.stagingName name]))) := by
  obtain ⟨children, entries, -, hdir⟩ := hp.directory
  have htwins := hp.twins hd hfree
  rw [← List.append_assoc] at htwins ⊢
  exact Disk.twins_without hd hfree hdir fun t => htwins.alike.left _ t (.inl rfl)

end Disk

section Walk

variable (hp : s.Published m d done report plan dir name) (hd : d.tree.wellFormed = true)
  (h : plan.Repeats d dir name limit budget)
include hp hd h

/-- On twins but for the target and the file beside it, the walks of a plan are prepared
alike. -/
theorem ofPlan_twins {hidden : Place → Prop} {d' : Disk} (htwins : d.Twins hidden d')
    (hhidden : ∀ place, hidden place →
      place = plan.root.names ++ (dir ++ [Path.stagingName name]) ∨
        place = plan.root.names ++ (dir ++ [name])) (clock : Clock) :
    Walk.ofPlan s.walker d' plan clock =
      (Walk.ofPlan s.walker d plan clock).map (·.onDisk d') := by
  obtain ⟨children, entries, hroot, -⟩ := hp.directory
  refine Walk.ofPlan_twins htwins (hp.publishes hd h).root hroot ?_
  intro kind hkind marker hmarker hplace
  rcases hhidden _ hplace with heq | heq
  · have hmarkers : ∀ kind ∈ ProjectKind.all, ∀ marker ∈ kind.markers,
        ¬RawText.ofText (".tmp" : Text) <:+ RawText.ofText marker := by decide
    exact ne_stagingName (hmarkers kind hkind marker hmarker) (List.append_cancel_left heq).symm
  · exact h.unmarked kind hkind marker hmarker (List.append_cancel_left heq).symm

variable (hfree : d.tree.LinkFree)
include hfree

/-- The next scan has the same plan. -/
theorem plan_eq (hplan : s.plan d = .ok plan) : s.plan done = .ok plan := by
  obtain ⟨children, entries, hroot, -⟩ := hp.directory
  have htwins := hp.twins hd hfree
  rw [← hplan]
  refine Plan.make_congr (htwins.rootOf hp.resolve_root hroot) fun root hsame => ?_
  obtain rfl : plan.root = root := Except.ok.inj (hp.rootOf.symm.trans hsame)
  have hchild : plan.root.child (RawText.ofText IgnoreFile.defaultName) =
      absolute (plan.root.names ++ [RawText.ofText IgnoreFile.defaultName]) := by
    rw [hp.root]
    rfl
  rw [hchild]
  refine htwins.load_entry hroot (by decide) ?_
  rintro (heq | heq)
  · exact ne_stagingName (by decide) (List.append_cancel_left heq).symm
  · exact h.unignored (List.append_cancel_left heq).symm

theorem walk_done (clock : Clock) (now : Calendar.DateTime) :
    s.walker.walk done plan clock now =
      s.walker.walk (d.without (plan.root.names ++ (dir ++ [Path.stagingName name]))) plan
        clock now :=
  Walk.walk_eq_of_publishes (hp.twins_without hd hfree)
    ((hp.publishes hd h).of_twins (hp.twins_cleared hd hfree)) (.inl h.untimed)

section Unseen

variable {w : Walk} {names : List FileName} (hw : Walk.ofPlan s.walker d plan m.clock = .ok w)
include hw

theorem ignores_before (hunseen : s.Unnoticed m d plan (dir ++ [Path.stagingName name]))
    (hunlinked : w.Unlinked)
    (hnames : names = dir ++ [Path.stagingName name] ∨ names = dir ++ [name]) :
    w.Ignores names := by
  have hdisk : w.onDisk d = w := by rw [← (Walk.prepared_of_ofPlan hw).sameDisk, Walk.onDisk]
  rcases hnames with rfl | rfl
  · exact hunseen.ignores hw (hp.root_eq hd hw) hunlinked
  · rw [← hdisk] at hunlinked ⊢
    exact Walk.ignores_target (hp.publishes hd h) hw (hp.root_eq hd hw) hunlinked
      fun t => (hp.twins hd hfree).alike.left _ t (.inr rfl)

theorem ignores_after (hunlinked : (w.onDisk done).Unlinked)
    (hnames : names = dir ++ [Path.stagingName name] ∨ names = dir ++ [name]) :
    (w.onDisk done).Ignores names := by
  have hroot := hp.root_eq hd hw
  rcases hnames with rfl | rfl
  · refine hunlinked.ignores fun t hat => ?_
    rw [show (w.onDisk done).root = w.root from rfl, hroot] at hat
    cases (hp.gone hd hfree).symm.trans hat
  · exact Walk.ignores_target (hp.publishes hd h) hw hroot hunlinked
      fun t => (hp.twins hd hfree).alike.right _ t (.inr rfl)

end Unseen

theorem walk_same (hunseen : s.Unnoticed m d plan (dir ++ [Path.stagingName name])) :
    s.walker.walk done plan m.clock m.now = .ok report := by
  have htwins := hp.twins hd hfree
  obtain ⟨children, entries, hroot, -⟩ := hp.directory
  obtain ⟨w, -, hw, -⟩ := Walk.progress_of_walk hp.walked
  have hsplit : ∀ names, (plan.root.names ++ names =
      plan.root.names ++ (dir ++ [Path.stagingName name]) ∨
      plan.root.names ++ names = plan.root.names ++ (dir ++ [name])) →
      names = dir ++ [Path.stagingName name] ∨ names = dir ++ [name] := fun names =>
    Or.imp List.append_cancel_left List.append_cancel_left
  have hwtwins := Walk.twins_of_ofPlan htwins (hp.publishes hd h).root hroot hw
    (fun hunlinked names hnames =>
      hp.ignores_before hd h hfree hw hunseen hunlinked (hsplit names hnames))
    (fun hunlinked names hnames =>
      hp.ignores_after hd h hfree hw hunlinked (hsplit names hnames))
  have hplans := hp.ofPlan_twins hd h htwins (fun _ => id) m.clock
  rw [hw] at hplans
  exact (hwtwins.walk_eq hw hplans (.inl h.untimed)).trans hp.walked

/-- The next walk does not fail. -/
theorem exists_again (clock : Clock) (now : Calendar.DateTime) : ∃ w again before,
    Walk.ofPlan s.walker (d.without (plan.root.names ++ (dir ++ [Path.stagingName name]))) plan
      clock = .ok w ∧ w.Unlinked ∧ w.root = absolute plan.root.names ∧
    s.walker.walk (d.without (plan.root.names ++ (dir ++ [Path.stagingName name]))) plan clock
      now = .ok again ∧
    before <+: w.sights ∧ again.records = w.records limit before ∧
    again.fileCount = again.records.length := by
  have hcleared := hp.twins_cleared hd hfree
  obtain ⟨children, entries, hroot, -⟩ := hp.directory
  obtain ⟨children', hroot'⟩ := hcleared.alike.directory hroot
  obtain ⟨w, -, hw, -⟩ := Walk.progress_of_walk hp.walked
  have hreal := hp.root_eq hd hw
  obtain ⟨names, hlist⟩ := hp.exists_list hd
  obtain ⟨names', hlist'⟩ := hcleared.list_ok hroot hlist
  have hpath : w.pathOf [] = absolute plan.root.names := (w.pathOf_nil).trans hreal
  have hclock := @Walk.ofPlan_withClock s.walker d plan m.clock clock
    (by rw [h.untimed]; rfl)
  have hplan := hp.ofPlan_twins hd h hcleared (fun _ => .inl) clock
  rw [hclock, hw] at hplan
  have hcounts := (Walk.prepared_of_ofPlan hplan).counts h.maxFileSize h.maxFiles h.untimed
  obtain ⟨again, before, hwalk, hbefore, hrecords, hcount⟩ :=
    Walk.exists_report now hcleared.wellFormed' hplan hcounts (hpath ▸ hlist')
  refine ⟨_, again, before, hplan, ?_, hreal, hwalk, hbefore, hrecords, hcount⟩
  exact ⟨hcleared.wellFormed', hcleared.linkFree', congrArg Path.slashes hreal, children',
    hreal.symm ▸ hroot'⟩

theorem again_eq (hunseen : s.Unnoticed m d plan (dir ++ [Path.stagingName name])) {again : Report}
    (hagain : s.walker.walk done plan m'.clock m'.now = .ok again) :
    again = { report with scannedAt := m'.now } := by
  have hlater := @Walk.walk_of_untimed s.walker done plan m.clock m'.clock h.untimed m.now m'.now
  rw [hp.walk_same hd h hfree hunseen, hagain] at hlater
  exact Except.ok.inj hlater

end Walk

section Cleared

variable (hp : s.Published m d done report plan dir name) (hd : d.tree.wellFormed = true)
  {w : Walk} {again : Report} {clock : Clock} {now : Calendar.DateTime}
  (hw : Walk.ofPlan s.walker
    (d.without (plan.root.names ++ (dir ++ [Path.stagingName name]))) plan clock = .ok w)
  (hunlinked : w.Unlinked)
  (hagain : s.walker.walk (d.without (plan.root.names ++ (dir ++ [Path.stagingName name]))) plan
    clock now = .ok again)
include hp hd hw hunlinked hagain

theorem path_ne_staging (hroot : w.root = absolute plan.root.names) {record : FileRecord}
    (hrecord : record ∈ again.records) :
    record.path ≠ Path.joined (dir ++ [Path.stagingName name]) := by
  obtain ⟨target, -, out, hlands, hentries⟩ := hp.delivered
  obtain ⟨children, entries, -, hdir⟩ := hp.directory
  obtain ⟨names, content, hne, hnames, hat, hpath, -⟩ :=
    hunlinked.file_of_record hw hagain hrecord
  rw [hroot, (Walk.prepared_of_ofPlan hw).sameDisk] at hat
  rw [hpath]
  intro hsame
  have hbeside : ∀ entry ∈ dir ++ [Path.stagingName name], isEntryName entry = true := by
    intro entry hentry
    rcases List.mem_append.1 hentry with hentry | hentry
    · exact isEntryName_of_mem hd hdir entry (List.mem_append_right _ hentry)
    · rw [List.mem_singleton.1 hentry]
      exact (hlands.entries hentries).1
  obtain rfl := Path.joined_injective hnames hbeside hne (by simp) hsame
  cases hp.cleared.symm.trans hat

theorem short_of_cleared (hfree : d.tree.LinkFree) {before : List Sight}
    (hbefore : before <+: w.sights) (hrecords : again.records = w.records limit before)
    (hcount : again.fileCount = again.records.length) (hshort : d.tree.Short) :
    again.Short := by
  have hcleared := (hp.twins_cleared hd hfree).symm.alike
  have hthere : ∀ place, (w.disk.tree.at? place).isSome = true →
      place ≠ plan.root.names ++ (dir ++ [Path.stagingName name]) := by
    rintro place hsome rfl
    rw [(Walk.prepared_of_ofPlan hw).sameDisk, hp.cleared] at hsome
    cases hsome
  refine hunlinked.short hw hagain hbefore hrecords hcount (fun place content hat => ?_)
    (fun place hsome => ?_) hshort
  · have hplace := hthere place (by rw [hat]; rfl)
    rw [(Walk.prepared_of_ofPlan hw).sameDisk] at hat
    exact hcleared.file hplace hat
  · have hplace := hthere place hsome
    rw [(Walk.prepared_of_ofPlan hw).sameDisk] at hsome
    rwa [← hcleared.isSome hplace]

end Cleared

end Published

/-- A run after one that succeeded reports what would have been reported without the file
beside the target.  That is the first report again if nothing came of that file. -/
theorem run_again (hd : d.tree.wellFormed = true) (hfree : d.tree.LinkFree)
    (hrun : s.run m d = (s', done, .ok report)) (hplan : s.plan d = .ok plan)
    (h : plan.Repeats d dir name limit budget) (hnow : m'.now.stamp?.isSome = true) :
    ∃ again,
      s.walker.walk (d.without (plan.root.names ++ (dir ++ [Path.stagingName name]))) plan
        m'.clock m'.now = .ok again ∧
      (∀ record ∈ again.records, record.path ≠ Path.joined (dir ++ [Path.stagingName name])) ∧
      (s.Unnoticed m d plan (dir ++ [Path.stagingName name]) →
        again = { report with scannedAt := m'.now }) ∧
      (d.tree.at? (plan.root.names ++ (dir ++ [Path.stagingName name])) ≠ some .pipe →
        plan.Delivered done (dir ++ [name]) report) ∧
      (s.Unnoticed m d plan (dir ++ [Path.stagingName name]) ∨ d.tree.Short →
        ∃ s'' last, s'.run m' done = (s'', last, .ok again) ∧
          plan.Delivered last (dir ++ [name]) again) := by
  have hp := published_of_run hd hfree hrun hplan h
  obtain ⟨w, again, before, hw, hunlinked, hroot, hwalk, hbefore, hrecords, hcount⟩ :=
    hp.exists_again hd h hfree m'.clock m'.now
  have hdone := (hp.walk_done hd h hfree m'.clock m'.now).trans hwalk
  have hsame := fun hunseen => hp.again_eq hd h hfree hunseen hdone
  refine ⟨again, hwalk, fun record => hp.path_ne_staging hd hw hunlinked hwalk hroot, hsame,
    hp.delivered_first hd hfree, fun hcase => ?_⟩
  obtain ⟨target, htarget, out, hlands, hnames⟩ := hp.delivered
  -- The numbers have been written before, or the tree has no long ones.
  have hshort : again.Short := by
    rcases hcase with hunseen | hshort
    · obtain ⟨hnumber, hsizes⟩ := Report.short_of_payload out.payload
      rw [hsame hunseen]
      exact ⟨hnumber, hsizes⟩
    · exact hp.short_of_cleared hd hw hunlinked hwalk hfree hbefore hrecords hcount hshort
  have hwhole := Walk.whole_of_walk (hp.twins_cleared hd hfree).wellFormed' hw hwalk
  have hstamp : again.scannedAt.stamp?.isSome = true := by
    rw [Walk.scannedAt_of_walk hwalk]
    exact hnow
  obtain ⟨content, hpayload⟩ := Report.exists_payload target hstamp hshort hwhole
  obtain ⟨last, hwrite, hlast⟩ := hlands.again hnames hd hfree hpayload
  have hstate := state_of_run hrun
  have honce : s'.scanOnce m' done = (last, .ok again) := by
    refine scanOnce_eq_ok_iff.2 ⟨plan, target, ?_, htarget, ?_, hwrite⟩
    · rw [hstate]
      exact hp.plan_eq hd h hfree hplan
    · rw [hstate]
      exact hdone
  obtain ⟨s'', hagain⟩ := run_of_scanOnce (by rw [hstate]; rfl) honce
  rw [List.append_assoc] at hlast
  exact ⟨s'', last, hagain, target, content, htarget, hpayload, hlast⟩

theorem repeats_self :
    Walk.selfPlan.Repeats Walk.plainDisk [Walk.subName] Walk.innerName 100 4 := by
  refine ⟨⟨_, rfl, by cbv⟩, ⟨['a', '/', 'b'], by decide, by decide, by decide⟩, by decide,
    by decide, rfl, rfl, rfl, rfl⟩

def laterMoment : Moment := ⟨fun _ => default, ⟨⟨2024, 1, 3⟩, 3, 4, 5, 0, some 0⟩⟩

theorem run_again_self : ∃ s' done s'' last,
    selfScanner.run bareMoment Walk.plainDisk = (s', done, .ok (Walk.selfReport bareTime)) ∧
      s'.run laterMoment done =
        (s'', last, .ok { Walk.selfReport bareTime with scannedAt := laterMoment.now }) ∧
      Walk.selfPlan.Delivered last [Walk.subName, Walk.innerName]
        { Walk.selfReport bareTime with scannedAt := laterMoment.now } := by
  obtain ⟨s', done, hrun⟩ := run_self
  have hstamp : laterMoment.now.stamp?.isSome = true := by decide
  obtain ⟨again, -, -, hsame, -, hagain⟩ := run_again (by decide)
    (linkFree_of_linkCount rfl) hrun plan_self repeats_self hstamp
  have hunseen : selfScanner.Unnoticed bareMoment Walk.plainDisk Walk.selfPlan
      ([Walk.subName] ++ [Path.stagingName Walk.innerName]) := .inl rfl
  obtain ⟨s'', last, hlast, hdelivered⟩ := hagain (.inl hunseen)
  rw [hsame hunseen] at hlast hdelivered
  exact ⟨s', done, s'', last, hrun, hlast, hdelivered⟩

end Scanner

end SourceScan
