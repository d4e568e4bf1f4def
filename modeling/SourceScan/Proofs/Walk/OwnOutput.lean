import SourceScan.Proofs.Rule.Spelling
import SourceScan.Proofs.Walk.Faults

/-!
# A walk past its own report

If the report of a scan is written into the tree, the walk has one rule more, which
spells out the real path of the report, with the stray bytes that are in it.  The rule takes
the report away under that path, unless backslashes or blanks make it read as another one.
Any other path of the report is judged by its spelling alone: it is left out if the rule
happens to match it or a directory above it.
-/

namespace SourceScan

def Plan.withoutTarget (plan : Plan) : Plan := { plan with outputTarget := none }

theorem RawText.shown_of_text? {s : RawText} {t : Text} (h : s.text? = some t) :
    s.shown = t := by
  rw [RawText.ofText_of_text? h, RawText.ofText, RawText.shown, List.map_map]
  exact List.map_id t

theorem Path.spelled_of_text? {names : List FileName} {text : Text} (hne : names ≠ [])
    (h : (Path.joined names).text? = some text) : Path.spelled names = text := by
  rw [Path.spelled_eq hne, RawText.shown_of_text? h]

def Matcher.hits (m : Matcher) (path pattern : Text) (isDir : Bool) : Bool :=
  normalizePath path ≠ [] && m.matchesPattern (normalizePath path) pattern isDir

/-- Whether a rule with this spelling matches a path; there may be stray bytes in the spelling. -/
def Matcher.hitsRaw (m : Matcher) (path : Text) (spelling : RawText) (isDir : Bool) : Bool :=
  match spelling.text? with
  | some pattern => m.hits path pattern isDir
  | none => normalizePath path ≠ [] && m.matchesStray (normalizePath path) spelling isDir

theorem Matcher.hitsRaw_of_text? {m : Matcher} {spelling : RawText} {pattern : Text}
    (h : spelling.text? = some pattern) (path : Text) (isDir : Bool) :
    m.hitsRaw path spelling isDir = m.hits path pattern isDir := by
  rw [hitsRaw, h]

theorem Matcher.excludes_append (m : Matcher) (path : Text) (patterns more : List Text)
    (isDir : Bool) : m.excludes path (patterns ++ more) isDir = false ↔
      (∀ pattern ∈ patterns, m.hits path pattern isDir = false) ∧
        m.excludes path more isDir = false := by
  unfold Matcher.excludes Matcher.hits
  by_cases hpath : normalizePath path = []
  · simp [hpath]
  · simp only [hpath, ne_eq, not_false_eq_true, decide_true, Bool.true_and, List.any_append,
      Bool.or_eq_false_iff, List.any_eq_false, Bool.not_eq_true]
    tauto

namespace Walk

open FileTree Disk

variable {walker : Walker} {d : Disk} {plan : Plan} {clock : Clock}
  {now : Calendar.DateTime} {w : Walk} {limit budget : Int} {spelling : RawText}

/-! ## One rule more -/

/-- A rule with this spelling matches the path or a directory above it. -/
def Pruned (w : Walk) (spelling : RawText) (names : List FileName) : Prop :=
  ∃ above, above <+: names ∧ above ≠ [] ∧
    w.walker.matcher.hitsRaw (Path.spelled above) spelling (above ≠ names) = true

theorem not_pruned_snoc {dir : List FileName} {name : FileName} :
    ¬w.Pruned spelling (dir ++ [name]) ↔
      (∀ above, above <+: dir → above ≠ [] →
        w.walker.matcher.hitsRaw (Path.spelled above) spelling true = false) ∧
      w.walker.matcher.hitsRaw (Path.spelled (dir ++ [name])) spelling false = false := by
  constructor
  · intro h
    constructor
    · intro above habove hne
      rw [Bool.eq_false_iff]
      intro hhits
      refine h ⟨above, habove.trans (List.prefix_append _ _), hne, ?_⟩
      rwa [decide_eq_true]
      rintro rfl
      exact not_prefix_self habove
    · rw [Bool.eq_false_iff]
      intro hhits
      exact h ⟨dir ++ [name], List.prefix_refl _, by simp, by simpa using hhits⟩
  · rintro ⟨habove, hself⟩ ⟨above, hunder, hne, hhits⟩
    rcases prefix_snoc_iff.1 hunder with hunder | rfl
    · have hsame : above ≠ dir ++ [name] := by
        rintro rfl
        exact not_prefix_self hunder
      rw [decide_eq_true hsame, habove above hunder hne] at hhits
      cases hhits
    · rw [decide_eq_false (by simp), hself] at hhits
      cases hhits

def ruleFor (spelling : RawText) : Option Rule := spelling.text?.map (⟨·, .builtin⟩)

def besides (w : Walk) (plan : Plan) (own : Option RawText) : Walk :=
  { w with
    plan
    rules := (own.bind ruleFor).toList ++ w.rules
    stray := w.stray.or (own.filter (·.text?.isNone)) }

section Besides

variable {own : Option RawText}
  (hone : w.stray = none ∨ ∀ spelling ∈ own, spelling.text?.isSome = true)
include hone

theorem excludes_besides (path : Text) (isDir : Bool) :
    (w.besides plan own).excludes path isDir = false ↔
      (∀ spelling ∈ own, w.walker.matcher.hitsRaw path spelling isDir = false) ∧
        w.excludes path isDir = false := by
  cases own with
  | none => simp [excludes, besides]
  | some spelling =>
      cases htext : spelling.text? with
      | none =>
          have hbare : w.stray = none := hone.resolve_right fun h => by
            simpa [htext] using h spelling rfl
          simp [excludes, besides, ruleFor, htext, Matcher.hitsRaw, hbare, and_comm]
      | some pattern =>
          have hmore := w.walker.matcher.excludes_append path [pattern] (w.rules.map (·.pattern))
            isDir
          simp only [List.singleton_append, List.forall_mem_singleton] at hmore
          simp only [excludes, besides, ruleFor, htext, Matcher.hitsRaw, Option.bind_some,
            Option.map_some, Option.toList_some, List.singleton_append, List.map_cons,
            Option.filter_some, Option.isNone_some, Bool.false_eq_true, if_false, Option.or_none,
            Bool.or_eq_false_iff, hmore, Option.mem_def, Option.some.injEq, forall_eq', and_assoc]

variable (hlinks : plan.followSymlinks = w.plan.followSymlinks)
include hlinks

theorem accepts_besides {names : List FileName} (hne : names ≠ []) {place : Place}
    {t : FileTree} : (w.besides plan own).Accepts names place t ↔
      w.Accepts names place t ∧ ∀ spelling ∈ own,
        w.walker.matcher.hitsRaw (Path.spelled names) spelling t.isDirectory = false := by
  have hstays : (w.besides plan own).Stays place t ↔ w.Stays place t := by
    unfold Stays
    rw [show (w.besides plan own).plan.followSymlinks = plan.followSymlinks from rfl, hlinks]
    rfl
  have hkept : ∀ text, (Path.joined names).text? = some text →
      ((w.besides plan own).excludes text t.isDirectory = false ↔
      (∀ spelling ∈ own, w.walker.matcher.hitsRaw (Path.spelled names) spelling t.isDirectory =
        false) ∧ w.excludes text t.isDirectory = false) := by
    intro text htext
    rw [excludes_besides hone, Path.spelled_of_text? hne htext]
  constructor
  · rintro ⟨hreach, hinside, text, htext, hfree⟩
    obtain ⟨hrule, hfree⟩ := (hkept text htext).1 hfree
    exact ⟨⟨hreach, fun h => hstays.1 (hinside h), text, htext, hfree⟩, hrule⟩
  · rintro ⟨⟨hreach, hinside, text, htext, hfree⟩, hrule⟩
    exact ⟨hreach, fun h => hstays.2 (hinside h), text, htext,
      (hkept text htext).2 ⟨hrule, hfree⟩⟩

theorem opens_besides {dir : List FileName} : (w.besides plan own).Opens dir ↔
    w.Opens dir ∧ (dir ≠ [] → ∀ spelling ∈ own,
      w.walker.matcher.hitsRaw (Path.spelled dir) spelling true = false) := by
  constructor
  · rintro ⟨place, children, hreach, haccepts⟩
    have hboth := fun hne => (accepts_besides hone hlinks hne).1 (haccepts hne)
    exact ⟨⟨place, children, hreach, fun hne => (hboth hne).1⟩, fun hne => (hboth hne).2⟩
  · rintro ⟨⟨place, children, hreach, haccepts⟩, hrule⟩
    exact ⟨place, children, hreach,
      fun hne => (accepts_besides hone hlinks hne).2 ⟨haccepts hne, hrule hne⟩⟩

theorem enters_besides {dir : List FileName} : (w.besides plan own).Enters dir ↔
    w.Enters dir ∧ ∀ above, above <+: dir → above ≠ [] → ∀ spelling ∈ own,
      w.walker.matcher.hitsRaw (Path.spelled above) spelling true = false := by
  constructor
  · intro h
    have hboth := fun above habove => (opens_besides hone hlinks).1 (h.opens above habove)
    exact ⟨⟨h.named, fun above habove => (hboth above habove).1, h.apart⟩,
      fun above habove => (hboth above habove).2⟩
  · rintro ⟨h, hrule⟩
    exact ⟨h.named,
      fun above habove => (opens_besides hone hlinks).2 ⟨h.opens above habove, hrule above habove⟩,
      h.apart⟩

theorem recordable_besides {dir : List FileName} {name : FileName} {content : Bytes}
    {text : Text} : (w.besides plan own).Recordable limit dir name content text ↔
      w.Recordable limit dir name content text ∧
        ∀ spelling ∈ own, ¬w.Pruned spelling (dir ++ [name]) := by
  simp only [not_pruned_snoc]
  constructor
  · rintro ⟨henters, hname, ⟨place, haccepts⟩, hsmall, hdecoded⟩
    obtain ⟨henters, habove⟩ := (enters_besides hone hlinks).1 henters
    obtain ⟨haccepts, hrule⟩ := (accepts_besides hone hlinks (by simp)).1 haccepts
    exact ⟨⟨henters, hname, ⟨place, haccepts⟩, hsmall, hdecoded⟩, fun r hr =>
      ⟨fun above hunder hne => habove above hunder hne r hr, hrule r hr⟩⟩
  · rintro ⟨⟨henters, hname, ⟨place, haccepts⟩, hsmall, hdecoded⟩, hrule⟩
    refine ⟨(enters_besides hone hlinks).2 ⟨henters, fun above hunder hne r hr => ?_⟩, hname,
      ⟨place, (accepts_besides hone hlinks (by simp)).2 ⟨haccepts, fun r hr => ?_⟩⟩, hsmall,
      hdecoded⟩
    · exact (hrule r hr).1 above hunder hne
    · exact (hrule r hr).2

omit hone hlinks in
theorem fileRecord_besides {dir : List FileName} {name : FileName} {content : Bytes}
    {text : Text} : (w.besides plan own).fileRecord dir name content text =
      w.fileRecord dir name content text := rfl

theorem recordable_besides_subset :
    (w.besides plan own).recordable limit ⊆ w.recordable limit := by
  rintro names ⟨dir, name, content, text, h, rfl⟩
  exact ⟨dir, name, content, text, ((recordable_besides hone hlinks).1 h).1, rfl⟩

end Besides

/-! ## The rule for the report -/

/-- How the rule for a report is spelled; there is none for a report outside the root. -/
def spelling? (root real : Path) : Option RawText :=
  (real.relativeTo? root).map fun sub => (Path.mk 0 sub).toRaw

theorem forall_spelling? {real : Path} {p : RawText → Prop} :
    (∀ spelling ∈ spelling? w.root real, p spelling) ↔
      ∀ sub, w.pathOf sub = real → p (Path.mk 0 sub).toRaw := by
  simp only [spelling?, Option.mem_def, Option.map_eq_some_iff, Path.relativeTo?_eq_some]
  constructor
  · intro h sub hsub
    exact h _ ⟨sub, hsub.symm, rfl⟩
  · rintro h spelling ⟨sub, hsub, rfl⟩
    exact h sub hsub.symm

section Target

variable {target real : Path} (htarget : plan.outputTarget = some target)
include htarget

theorem outputRule_of_resolve {root : Path} (hreal : d.resolve target = .ok real) :
    outputRule d root plan.outputTarget = .ok ((spelling? root real).bind ruleFor) := by
  rw [htarget, outputRule]
  simp only [hreal, spelling?, Option.bind_map]
  rfl

theorem strayOutput_of_resolve {root : Path} (hreal : d.resolve target = .ok real) :
    strayOutput d root plan.outputTarget = (spelling? root real).filter (·.text?.isNone) := by
  rw [htarget, strayOutput, spelling?]
  cases hsub : real.relativeTo? root with
  | none => simp [hreal, hsub, Except.toOption]
  | some sub => simp [hreal, hsub, Except.toOption, Option.filter]

theorem ofPlan_target (hreal : d.resolve target = .ok real)
    (h : ofPlan walker d plan.withoutTarget clock = .ok w) :
    ofPlan walker d plan clock = .ok (w.besides plan (spelling? w.root real)) := by
  obtain ⟨root, project, output, deadline, hroot, hproject, houtput, hdeadline, rfl⟩ :=
    ofPlan_eq_ok_iff.1 h
  cases houtput
  refine ofPlan_eq_ok_iff.2 ⟨root, project, _, deadline, hroot, hproject,
    outputRule_of_resolve htarget hreal, hdeadline, ?_⟩
  rw [strayOutput_of_resolve htarget hreal]
  rfl

theorem spelled_mem_rules {names : List FileName} {text : Text}
    (h : ofPlan walker d plan clock = .ok w) (hreal : d.resolve target = .ok (w.pathOf names))
    (hne : names ≠ []) (htext : (Path.joined names).text? = some text) :
    Path.spelled names ∈ w.rules.map (·.pattern) := by
  obtain ⟨project, output, -, houtput, hrules⟩ := (prepared_of_ofPlan h).rules
  have hspelling : spelling? w.root (w.pathOf names) = some (Path.joined names) := by
    rw [spelling?, show (w.pathOf names).relativeTo? w.root = some names from
      Path.relativeTo?_eq_some.2 rfl]
    simp [Path.toRaw, hne]
  rw [outputRule_of_resolve htarget hreal, hspelling, Option.bind_some, ruleFor, htext] at houtput
  obtain rfl := Except.ok.inj houtput
  rw [hrules, Path.spelled_of_text? hne htext]
  exact List.mem_cons_self

theorem not_accepts_target {names : List FileName}
    (h : ofPlan walker d plan clock = .ok w) (hreal : d.resolve target = .ok (w.pathOf names))
    (hne : names ≠ []) (hnames : ∀ name ∈ names, isEntryName name = true)
    (hplain : Path.Plain names) {place : Place} {content : Bytes} :
    ¬w.Accepts names place (.file content) := by
  rintro ⟨-, -, text, htext, hkept⟩
  have hexcludes := Path.excludes_of_spelled w.walker.matcher
    (spelled_mem_rules htarget h hreal hne htext) hne hnames hplain
  rw [Path.spelled_of_text? hne htext] at hexcludes
  rw [show (FileTree.file content).isDirectory = false from rfl, excludes, hexcludes] at hkept
  cases hkept

end Target

/-! ## What is recorded of the report -/

theorem exists_report_of_free (now : Calendar.DateTime) (hd : d.tree.wellFormed = true)
    (hfree : d.refusals = []) (h : ofPlan walker d plan clock = .ok w)
    (hcounts : w.Counts limit budget)
    (hbudget : (w.recordable limit).encard < budget.toNat) :
    ∃ report, walker.walk d plan clock now = .ok report ∧
      ∀ r, r ∈ report.records ↔ ∃ dir name content text,
        w.Recordable limit dir name content text ∧ r = w.fileRecord dir name content text := by
  have hprepared := prepared_of_ofPlan h
  have hroot := hprepared.opens_root
  obtain rfl := hprepared.sameDisk
  rw [encard_recordable hd hfree hroot] at hbudget
  obtain ⟨place, children, hreach, -⟩ := id hroot
  have hlist := hreach.list (refused?_of_free hfree .list _)
  have hlength : (w.records limit w.sights).length < budget.toNat := by exact_mod_cast hbudget
  refine ⟨_, walk_of_room hd h hcounts hlist (room_of_lt (by omega)), fun r => ?_⟩
  rw [report_add_records]
  exact mem_records_of_free hfree hd hroot

theorem namesIn_fileRecord {dir : List FileName} {name : FileName} {content : Bytes}
    {text : Text} (h : w.Recordable limit dir name content text) :
    namesIn (w.fileRecord dir name content text).path = dir ++ [name] := by
  obtain ⟨hne, hnames⟩ := recordable_names ⟨dir, name, content, text, h, rfl⟩
  exact namesIn_joined hne hnames

/-- No record has the real path of the report, if that path is plain.  Of a disk without
refusals everything else is recorded that would be recorded without a report, except what
the rule for it prunes. -/
theorem walk_output (hd : d.tree.wellFormed = true) {target real : Path}
    (htarget : plan.outputTarget = some target) (hreal : d.resolve target = .ok real) :
    (∀ w report, ofPlan walker d plan clock = .ok w →
      walker.walk d plan clock now = .ok report → ∀ r ∈ report.records,
        ∃ names, r.path = Path.joined names ∧ (w.pathOf names = real → ¬Path.Plain names)) ∧
    ∀ w limit budget, d.refusals = [] → plan.maxFileSize = .int limit →
      plan.maxFiles = .int budget → plan.scanTimeout = .null →
      ofPlan walker d plan.withoutTarget clock = .ok w →
      (w.recordable limit).encard < budget.toNat →
      ∃ free report, walker.walk d plan.withoutTarget clock now = .ok free ∧
        walker.walk d plan clock now = .ok report ∧
        ∀ r, r ∈ report.records ↔ r ∈ free.records ∧ ∀ sub, w.pathOf sub = real →
          ¬w.Pruned (Path.mk 0 sub).toRaw (namesIn r.path) := by
  constructor
  · intro w report hplan hwalk r hr
    have hprepared := prepared_of_ofPlan hplan
    have hroot := hprepared.opens_root
    obtain ⟨names, size, hfile, hreading⟩ := record_of_walk hplan hwalk hr
    obtain rfl := hprepared.sameDisk
    refine ⟨names, reading_path hreading, fun heq hplain => ?_⟩
    obtain ⟨hne, hnames⟩ := named_of_entry hd hroot hfile rfl
    obtain ⟨dir, name, rfl⟩ := (List.eq_nil_or_concat' names).resolve_left hne
    obtain ⟨-, -, place, content, haccepts, -⟩ := (file_mem_iff hd hroot).1 hfile
    exact not_accepts_target htarget hplan (heq ▸ hreal) hne hnames hplain haccepts
  · intro w limit budget hfree hsize hfiles huntimed hbare hbudget
    have hlinks : plan.followSymlinks = w.plan.followSymlinks := by
      rw [(prepared_of_ofPlan hbare).samePlan]
      rfl
    have hnone : w.stray = none := (prepared_of_ofPlan hbare).stray
    have hplan := ofPlan_target htarget hreal hbare
    -- With one rule more there are no more files to record.
    have hbudget' : ((w.besides plan (spelling? w.root real)).recordable limit).encard <
        budget.toNat :=
      (Set.encard_le_encard (recordable_besides_subset (.inl hnone) hlinks)).trans_lt hbudget
    obtain ⟨free, hwalk, hrecords⟩ := exists_report_of_free now hd hfree hbare
      ((prepared_of_ofPlan hbare).counts hsize hfiles huntimed) hbudget
    obtain ⟨report, hwalk', hrecords'⟩ := exists_report_of_free now hd hfree hplan
      ((prepared_of_ofPlan hplan).counts hsize hfiles huntimed) hbudget'
    refine ⟨free, report, hwalk, hwalk', fun r => ?_⟩
    rw [hrecords', hrecords, ← forall_spelling? (p := fun spelling =>
      ¬w.Pruned spelling (namesIn r.path))]
    constructor
    · rintro ⟨dir, name, content, text, h, rfl⟩
      obtain ⟨hrecordable, hpruned⟩ := (recordable_besides (.inl hnone) hlinks).1 h
      refine ⟨⟨dir, name, content, text, hrecordable, rfl⟩, ?_⟩
      rwa [fileRecord_besides, namesIn_fileRecord hrecordable]
    · rintro ⟨⟨dir, name, content, text, hrecordable, rfl⟩, hpruned⟩
      rw [namesIn_fileRecord hrecordable] at hpruned
      exact ⟨dir, name, content, text,
        (recordable_besides (.inl hnone) hlinks).2 ⟨hrecordable, hpruned⟩, rfl⟩

theorem pruned_mixed :
    mixedWalk.Pruned (Path.joined [subName, innerName]) [subName, innerName] ∧
      ¬mixedWalk.Pruned (Path.joined [subName, innerName]) [topName] ∧
      ¬mixedWalk.Pruned (Path.joined [subName, innerName]) [linkName, innerName] := by
  simp only [Pruned, ← List.mem_inits]
  decide

/-- The report is left out under its own path and recorded under the other name of its directory;
the file beside is recorded as it is without a report. -/
theorem walk_output_mixed : ∃ free report,
    mixedWalker.walk mixedDisk mixedPlan stillClock default = .ok free ∧
    mixedWalker.walk mixedDisk selfPlan stillClock default = .ok report ∧
    free.records = mixedRecords ∧
    ∀ r, r ∈ report.records ↔ r = mixedWalk.recordOf [topName] 5 topText ∨
      r = mixedWalk.recordOf [linkName, innerName] 2 innerText := by
  have hreal : mixedDisk.resolve ⟨1, [subName, innerName]⟩ = .ok ⟨1, [subName, innerName]⟩ := by
    cbv
  obtain ⟨free, report, hfree, hreport, hrecords⟩ :=
    (@walk_output mixedWalker mixedDisk selfPlan stillClock default (by decide) _ _ rfl
      hreal).2 mixedWalk 100 4 rfl rfl rfl rfl ofPlan_mixed encard_recordable_mixed
  have hall : free.records = mixedRecords := by
    rw [Except.ok.inj (hfree.symm.trans walk_mixed)]
    exact records_mixedReport
  refine ⟨free, report, hfree, hreport, hall, fun r => ?_⟩
  have hsub : ∀ sub, mixedWalk.pathOf sub = ⟨1, [subName, innerName]⟩ →
      (Path.mk 0 sub).toRaw = Path.joined [subName, innerName] := by
    rintro sub hsub
    obtain rfl : sub = [subName, innerName] := congrArg Path.names hsub
    rfl
  obtain ⟨hpruned, htop, hlink⟩ := pruned_mixed
  rw [hrecords, hall]
  constructor
  · rintro ⟨hr, hkept⟩
    simp only [mixedRecords, List.mem_cons, List.not_mem_nil, or_false] at hr
    refine hr.resolve_left ?_
    rintro rfl
    exact hkept [subName, innerName] rfl (namesIn_mixed.1 ▸ hpruned)
  · rintro (rfl | rfl)
    · refine ⟨by simp [mixedRecords], fun sub hreal => ?_⟩
      rw [hsub sub hreal]
      exact namesIn_mixed.2.1 ▸ htop
    · refine ⟨by simp [mixedRecords], fun sub hreal => ?_⟩
      rw [hsub sub hreal]
      exact namesIn_mixed.2.2 ▸ hlink

end Walk

end SourceScan
