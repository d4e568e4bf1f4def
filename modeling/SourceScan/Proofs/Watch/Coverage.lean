import SourceScan.Proofs.Disk.LinkFree
import SourceScan.Proofs.Report.Payload
import SourceScan.Proofs.Scan.Disclosure
import SourceScan.Proofs.Walk.OwnOutput
import SourceScan.Proofs.Watch.Output

/-!
# Watching the files of a scan

A watcher takes its rules from the scanner, but it has two rules that a walk does not have in
this form: they spell out the report and the file beside it.  A walk has one rule that spells out
the real path of the report.  In a tree without links all other rules are the same, so that an
event of a recorded file is dropped exactly if one of these two rules matches its path.  The rule
for the report does so only if the report is spelled through a double dot.
-/

namespace SourceScan

open FileTree Disk

/-! ## The patterns of two lists of rules -/

section Patterns

variable {pattern : Text} {rules : List Rule}

theorem Plan.mem_patterns_foreign {plan : Plan} :
    pattern ∈ (plan.foreign rules).map (·.pattern) ↔
      pattern ∈ rules.map (·.pattern) ∨ pattern ∈ plan.rules.map (·.pattern) := by
  simp only [Plan.foreign, List.map_append, List.mem_append, List.mem_map, List.mem_filter]
  constructor
  · rintro (h | ⟨rule, ⟨hrule, -⟩, rfl⟩)
    · exact .inl h
    · exact .inr ⟨rule, hrule, rfl⟩
  · rintro (h | ⟨rule, hrule, rfl⟩)
    · exact .inl h
    · cases hthere : rules.any (·.pattern = rule.pattern) with
      | false => exact .inr ⟨rule, ⟨hrule, by simp [hthere]⟩, rfl⟩
      | true =>
          obtain ⟨other, hother, heq⟩ := List.any_eq_true.1 hthere
          exact .inl ⟨other, hother, of_decide_eq_true heq⟩

theorem Matcher.excludes_eq_false_iff (m : Matcher) (path : Text) (patterns : List Text)
    (isDir : Bool) : m.excludes path patterns isDir = false ↔
      (∀ pattern ∈ patterns, m.hits path pattern isDir = false) ∧
        m.excludes path [] isDir = false := by
  have h := m.excludes_append path patterns [] isDir
  rwa [List.append_nil] at h

end Patterns

/-! ## Trees without links -/

section Tree

variable {d : Disk} {plan : Plan} {tree : FileTree} {root : Path} {settings : ScannerSettings}
  {host : Option Value} {names : List FileName}

theorem FileTree.followNames_of_plain {t : FileTree} {place : Place} (fuel : Nat)
    (active : List Place)
    (hnames : ∀ name ∈ names, staysHere name = false ∧ name ≠ Path.dotDot)
    (hfree : ∀ front, front <+: names → ∀ target,
      t.at? (place ++ front) ≠ some (.link target)) :
    followNames t false fuel active place names = .real (place ++ names) := by
  induction names generalizing place with
  | nil => rw [followNames, List.append_nil]
  | cons name names ih =>
      obtain ⟨⟨hhere, hdots⟩, hrest⟩ := List.forall_mem_cons.1 hnames
      have hlast := hfree [name] (List.prefix_append [name] names)
      have hnext : followNames t false fuel active (place ++ [name]) names =
          .real (place ++ name :: names) := by
        rw [ih hrest, List.append_assoc, List.singleton_append]
        intro front hfront target
        have h := hfree (name :: front) (List.cons_prefix_cons.2 ⟨rfl, hfront⟩) target
        rwa [List.append_cons] at h
      rw [followNames, hhere, if_neg Bool.false_ne_true, if_neg hdots]
      cases hat : t.at? (place ++ [name]) with
      | none => simpa [hat] using hnext
      | some u =>
          cases u with
          | link target => exact absurd hat (hlast target)
          | file content => simpa [hat] using hnext
          | dir children => simpa [hat] using hnext
          | pipe => simpa [hat] using hnext

namespace Plan

/-- Only a circle of links can lead to a root that begins with two slashes. -/
theorem root_of_make (hd : d.tree.wellFormed = true)
    (hmake : make d root settings host = .ok plan)
    (hreal : d.tree.LinkFree ∨ plan.root.slashes = 1) :
    plan.root = absolute plan.root.names := by
  rcases hreal with hfree | hslash
  · have hresolve := Walk.resolve_of_rootOf (of_make hmake).1
    rw [resolve_of_linkFree hd hfree] at hresolve
    split at hresolve
    · cases hresolve
    · exact (Except.ok.inj hresolve) ▸ rfl
  · exact congrArg (Path.mk · plan.root.names) hslash

variable (hd : d.tree.wellFormed = true) (hmake : make d root settings host = .ok plan)
  (hroot : plan.root = absolute plan.root.names)
  (htree : d.tree.at? plan.root.names = some tree) (hfree : tree.LinkFree)
include hd hmake hroot htree hfree

theorem rootOf_root : rootOf d plan.root = .ok plan.root := by
  have hreach : d.Reaches plan.root plan.root.names tree := by
    rw [hroot]
    exact reaches_absolute hd htree (hfree.isLink (show tree.at? [] = some tree from rfl))
  have hreal := hreach.resolve hd
  rw [← hroot] at hreal
  exact Walk.rootOf_eq_ok_iff.2 ⟨hreal, (Walk.rootOf_eq_ok_iff.1 (of_make hmake).1).2⟩

theorem resolve_target (htarget : plan.outputTarget = some (plan.root.join ⟨0, names⟩))
    (hclean : (plan.root.join ⟨0, names⟩).hasNull = false) (hdots : Path.dotDot ∉ names) :
    d.resolve (plan.root.join ⟨0, names⟩) = .ok (plan.root.join ⟨0, names⟩) := by
  have hjoin : plan.root.join ⟨0, names⟩ = absolute (plan.root.names ++ names) := by
    rw [hroot]
    rfl
  have hspelled := names_of_make hmake htarget
    (Path.relativeTo?_eq_some.2 rfl)
  have hentry := isEntryName_of_mem hd htree
  have hstart : d.startOf (absolute (plan.root.names ++ names)) = [] := rfl
  rw [hjoin] at hclean ⊢
  refine resolve_of_real (fun hnull => ?_) ?_
  · rw [(stat_eq_nullByte hd).1 hnull] at hclean
    cases hclean
  rw [hstart, show (absolute (plan.root.names ++ names)).names = plan.root.names ++ names from rfl,
    followNames_of_plain]
  · rfl
  · intro name hname
    rcases List.mem_append.1 hname with hname | hname
    · obtain ⟨hhere, hdot, -⟩ := isEntryName_iff.1 (hentry name hname)
      exact ⟨hhere, hdot⟩
    · obtain ⟨hnil, hdot, -⟩ := hspelled name hname
      exact ⟨by simp [staysHere, hnil, hdot], fun heq => hdots (heq ▸ hname)⟩
  · intro front hfront target hat
    rw [List.nil_append] at hat
    rcases List.prefix_or_prefix_of_prefix hfront (List.prefix_append plan.root.names names) with
      ⟨rest, hrest⟩ | ⟨rest, rfl⟩
    · -- What lies on the way to the root is no link, as something lies below it.
      rw [← hrest, at?_append, hat, Option.bind_some] at htree
      cases rest with
      | nil => exact hfree [] target htree.symm
      | cons name rest => cases htree
    · rw [at?_append, htree, Option.bind_some] at hat
      exact hfree rest target hat

end Plan

end Tree

/-! ## Events of recorded files -/

theorem Walk.kept_of_record {walker : Walker} {d : Disk} {plan : Plan} {clock : Clock}
    {now : Calendar.DateTime} {w : Walk} {report : Report} {r : FileRecord}
    (hd : d.tree.wellFormed = true) (hw : ofPlan walker d plan clock = .ok w)
    (hwalk : walker.walk d plan clock now = .ok report) (hr : r ∈ report.records) :
    ∃ names, names ≠ [] ∧ (∀ name ∈ names, isEntryName name = true) ∧
      r.path = Path.joined names ∧
      walker.matcher.excludes r.path.shown (w.rules.map (·.pattern)) false = false := by
  have hprepared := prepared_of_ofPlan hw
  have hroot := hprepared.opens_root
  obtain ⟨names, size, hfile, hreading⟩ := record_of_walk hw hwalk hr
  obtain rfl := hprepared.sameDisk
  obtain rfl := hprepared.sameWalker
  obtain ⟨hne, hnames⟩ := named_of_entry hd hroot hfile rfl
  have hpath := reading_path hreading
  obtain ⟨dir, name, hsnoc⟩ := (List.eq_nil_or_concat' names).resolve_left hne
  rw [hsnoc] at hfile
  obtain ⟨-, -, place, content, haccepts, -⟩ := (file_mem_iff hd hroot).1 hfile
  obtain ⟨text, htext, hkept⟩ := haccepts.kept
  rw [← hsnoc, ← hpath] at htext
  rw [excludes, Bool.or_eq_false_iff, ← RawText.shown_of_text? htext] at hkept
  exact ⟨names, hne, hnames, hpath, hkept.1⟩

theorem Walk.Prepared.excludes_foreign {walker : Walker} {d : Disk} {plan : Plan} {clock : Clock}
    {w : Walk} {project : List Rule} {m : Matcher} {path : Text} {isDir : Bool}
    (h : w.Prepared walker d plan clock) (hroot : w.root = plan.root)
    (hproject : ProjectKind.rulesAt d plan.root = .ok project)
    (hkept : m.excludes path (w.rules.map (·.pattern)) isDir = false) :
    m.excludes path ((plan.foreign project).map (·.pattern)) isDir = false := by
  obtain ⟨project', output, hproject', -, hrules⟩ := h.rules
  rw [hroot] at hproject'
  obtain rfl : project = project' := Except.ok.inj (hproject.symm.trans hproject')
  obtain ⟨hmissed, hbuiltin⟩ := (Matcher.excludes_eq_false_iff ..).1 hkept
  refine (Matcher.excludes_eq_false_iff ..).2 ⟨fun pattern hpattern => hmissed pattern ?_, hbuiltin⟩
  rw [hrules, List.map_append, List.mem_append, Rule.mem_patterns_extend]
  exact .inr (Plan.mem_patterns_foreign.1 hpattern)

theorem EventFilter.emitAll_singleton {f : EventFilter} {kind : FileEventKind} {file : Path}
    (destination : Path) (hkind : kind ≠ .moved) :
    f.emitAll [⟨kind, false, file, destination⟩] =
      if f.ignores file then [] else [⟨kind, file, none⟩] := by
  cases kind with
  | moved => exact absurd rfl hkind
  | _ =>
      simp only [emitAll, List.filterMap_cons, List.filterMap_nil, emit?, Bool.false_eq_true,
        if_false]
      split <;> simp_all

/-- What the other rules keep is ignored if a rule for the report or the file beside it matches. -/
theorem EventFilter.ignores_watched {plan : Plan} {project : List Rule} {m : Matcher}
    {names : List FileName} (hne : names ≠ [])
    (hkept : m.excludes (Path.spelled names) ((plan.foreign project).map (·.pattern)) false =
      false) :
    EventFilter.ignores ⟨plan.root, plan.watched project, m⟩
        ⟨plan.root.slashes, plan.root.names ++ names⟩ =
      plan.outputNames.any fun own => m.hits (Path.spelled names) (Path.spelled own) false := by
  have hexcluded : m.excludes (Path.spelled names)
      ((plan.watched project).map (·.pattern)) false = true ↔
        plan.outputNames.any (fun own => m.hits (Path.spelled names) (Path.spelled own) false) =
          true := by
    rw [← not_iff_not, Bool.not_eq_true, Plan.watched, List.map_append, Matcher.excludes_append,
      and_iff_left hkept, Bool.not_eq_true, List.any_eq_false]
    simp
  have hignores := @ignores_place ⟨plan.root, plan.watched project, m⟩ (plan.root.names ++ names)
  rw [Bool.eq_iff_iff, hignores, ← hexcluded]
  constructor
  · intro h
    exact h names hne rfl
  · intro h other _ heq
    rw [← List.append_cancel_left heq]
    exact h

theorem Plan.outputNames_join {plan : Plan} {sub : List FileName} {name : FileName}
    (htarget : plan.outputTarget = some (plan.root.join ⟨0, sub ++ [name]⟩)) :
    plan.outputNames = [sub ++ [name], sub ++ [Path.stagingName name]] := by
  have hbelow :
      (plan.root.join ⟨0, sub ++ [name]⟩).relativeTo? plan.root = some (sub ++ [name]) :=
    Path.relativeTo?_eq_some.2 rfl
  rw [outputNames, htarget, Option.bind_some, hbelow]
  simp

theorem RawText.whole_joined {names : List FileName} (h : ∀ name ∈ names, RawText.Whole name) :
    (Path.joined names).Whole := by
  induction names with
  | nil => exact whole_nil
  | cons name names ih =>
      obtain ⟨hname, hnames⟩ := List.forall_mem_cons.1 h
      cases names with
      | nil => rwa [Path.joined_singleton]
      | cons next names =>
          rw [Path.joined_cons name (by simp), whole_append, whole_cons]
          exact ⟨hname, rfl, ih hnames⟩

/-- The settings give the path of the report as a text. -/
theorem Plan.exists_text?_of_make {d : Disk} {root target : Path} {settings : ScannerSettings}
    {host : Option Value} {plan : Plan} {names : List FileName}
    (h : make d root settings host = .ok plan) (htarget : plan.outputTarget = some target)
    (hnames : target.relativeTo? plan.root = some names) :
    ∃ text, (Path.joined names).text? = some text := by
  obtain ⟨s, hsub⟩ := subset_of_make h htarget hnames
  exact RawText.exists_text? <| RawText.whole_joined fun name hname u hu =>
    RawText.whole_ofText s u (Path.mem_of_mem_parse (hsub hname) hu)

/-- The walk too has the rule for the report as it is spelled, if that is without double dots. -/
theorem Plan.not_hits_report {d : Disk} {plan : Plan} {tree : FileTree} {root : Path}
    {settings : ScannerSettings} {host : Option Value} {names : List FileName} {text path : Text}
    {walker : Walker} {clock : Clock} {w : Walk} {m : Matcher} (hd : d.tree.wellFormed = true)
    (hmake : make d root settings host = .ok plan) (hreal : plan.root = absolute plan.root.names)
    (htree : d.tree.at? plan.root.names = some tree) (hfree : tree.LinkFree)
    (htarget : plan.outputTarget = some (plan.root.join ⟨0, names⟩))
    (hclean : (plan.root.join ⟨0, names⟩).hasNull = false) (hdots : Path.dotDot ∉ names)
    (hne : names ≠ []) (htext : (Path.joined names).text? = some text)
    (hw : Walk.ofPlan walker d plan clock = .ok w) (hroot : w.root = plan.root)
    (hkept : m.excludes path (w.rules.map (·.pattern)) false = false) :
    m.hits path (Path.spelled names) false = false := by
  refine ((Matcher.excludes_eq_false_iff ..).1 hkept).1 _
    (Walk.spelled_mem_rules htarget hw ?_ hne htext)
  rw [resolve_target hd hmake hreal htree hfree htarget hclean hdots, Walk.pathOf, hroot]
  rfl

namespace Scanner

variable {τ : Type} {s s' : Scanner τ} {m : Moment} {d done : Disk} {report : Report}
  {plan : Plan} {tree : FileTree}

/-- What becomes of an event of a file that a run has recorded, if there are no links below the
root.  It passes once, unless one of the two rules for the report and the file beside it matches
the path.  If the target is spelled without double dots only the rule for the file beside it can
do so. -/
theorem watch_records (hd : d.tree.wellFormed = true) (hrun : s.run m d = (s', done, .ok report))
    (hplan : s.plan d = .ok plan) (hreal : d.tree.LinkFree ∨ plan.root.slashes = 1)
    (htree : d.tree.at? plan.root.names = some tree) (hfree : tree.LinkFree) :
    ∃ rules, s.watchRules d = .ok rules ∧
      ∀ r ∈ report.records, ∀ kind destination, kind ≠ .moved →
        let file := plan.root.join (Path.parse r.path)
        let seen := EventFilter.emitAll ⟨plan.root, rules, s.walker.matcher⟩
          [⟨kind, false, file, destination⟩]
        (seen = if plan.outputNames.any fun own =>
            s.walker.matcher.hits r.path.shown (Path.spelled own) false then []
          else [⟨kind, file, none⟩]) ∧
        ∀ sub name, plan.outputTarget = some (plan.root.join ⟨0, sub ++ [name]⟩) →
          Path.dotDot ∉ sub ++ [name] →
          (seen = [⟨kind, file, none⟩] ↔ s.walker.matcher.hits r.path.shown
            (Path.spelled (sub ++ [Path.stagingName name])) false = false) := by
  have habsolute := Plan.root_of_make hd hplan hreal
  have hrootOf := Plan.rootOf_root hd hplan habsolute htree hfree
  obtain ⟨rules, hrules⟩ := watchRules_of_run hd hrun hplan hrootOf
  refine ⟨rules, hrules, fun r hr kind destination hkind => ?_⟩
  obtain ⟨plan', target, hplan', htarget, hwalk, hwrite⟩ :=
    scanOnce_eq_ok_iff.1 (scanOnce_of_run hrun)
  obtain rfl : plan = plan' := Except.ok.inj (hplan.symm.trans hplan')
  obtain ⟨w, -, hw, -⟩ := Walk.progress_of_walk hwalk
  have hprepared := Walk.prepared_of_ofPlan hw
  have hroot : w.root = plan.root := Except.ok.inj (hprepared.root.symm.trans hrootOf)
  obtain ⟨names, hne, hnames, hpath, hkept⟩ := Walk.kept_of_record hd hw hwalk hr
  have hspelled : Path.spelled names = r.path.shown := by rw [Path.spelled_eq hne, hpath]
  have hfile : plan.root.join (Path.parse r.path) =
      ⟨plan.root.slashes, plan.root.names ++ names⟩ := by
    rw [hpath, Path.parse_joined hnames hne]
    rfl
  obtain ⟨project, hproject, rfl⟩ := watched_of_watchRules hplan hrules
  have hforeign := hprepared.excludes_foreign hroot hproject hkept
  intro file seen
  have hseen : seen = if plan.outputNames.any fun own =>
      s.walker.matcher.hits r.path.shown (Path.spelled own) false then []
      else [⟨kind, file, none⟩] := by
    rw [← hspelled] at hforeign ⊢
    rw [← EventFilter.ignores_watched hne hforeign, ← hfile]
    exact EventFilter.emitAll_singleton destination hkind
  refine ⟨hseen, fun sub name htarget' hdots => ?_⟩
  obtain rfl := Option.some.inj (htarget.symm.trans htarget')
  obtain ⟨out⟩ := Delivery.of_write hwrite
  have hclean := hasNull_of_fault? (rename_eq_ok_iff.1 out.rename).1.2
  obtain ⟨text, htext⟩ := Plan.exists_text?_of_make hplan htarget (Path.relativeTo?_eq_some.2 rfl)
  have hnone := Plan.not_hits_report hd hplan habsolute htree hfree htarget hclean hdots
    (by simp) htext hw hroot hkept
  rw [hseen, Plan.outputNames_join htarget, List.any_cons, List.any_cons, hnone, List.any_nil,
    Bool.false_or, Bool.or_false]
  cases s.walker.matcher.hits r.path.shown (Path.spelled (sub ++ [Path.stagingName name])) false <;>
    simp

theorem watch_records_self : ∃ rules, selfScanner.watchRules Walk.plainDisk = .ok rules ∧
    ∀ kind : FileEventKind, kind ≠ .moved →
      EventFilter.emitAll ⟨⟨1, []⟩, rules, .standard⟩
        [⟨kind, false, absolute [Walk.topName], ⟨1, []⟩⟩] =
          [⟨kind, absolute [Walk.topName], none⟩] := by
  obtain ⟨s', done, hrun⟩ := run_self
  have hfree : Walk.plainDisk.tree.LinkFree := linkFree_of_linkCount rfl
  obtain ⟨rules, hrules, hrecords⟩ :=
    watch_records (by decide) hrun plan_self (.inl hfree)
      (show _ = some Walk.plainDisk.tree from rfl) hfree
  refine ⟨rules, hrules, fun kind hkind => ?_⟩
  have hmem : Walk.mixedWalk.recordOf [Walk.topName] 5 Walk.topText ∈
      (Walk.selfReport bareTime).records := by
    rw [Walk.records_selfReport]
    exact List.mem_singleton_self _
  obtain ⟨-, hpasses⟩ := hrecords _ hmem kind ⟨1, []⟩ hkind
  exact (hpasses [Walk.subName] Walk.innerName rfl (by decide)).2 (by decide)

end Scanner

end SourceScan
