import SourceScan.Proofs.Report.Redelivery
import SourceScan.Proofs.Walk.Clock
import SourceScan.Proofs.Walk.OwnOutput
import SourceScan.Proofs.Walk.Twins

/-!
# Walks past the artifact

On a disk without links the file that a scan writes its report to stands under a single
path, and the rule for the report takes it away.  So it makes no difference to a walk
whether the file is there and what is in it.  A walk with a deadline still reads the
clock when it is the turn of the file, and nothing else is to be said of it.
-/

namespace SourceScan

/-- The report of a plan belongs in a directory at or below the root.  Its path from the
root is a text with neither backslashes nor blanks at its ends, and is not one that tells
the kind of the project. -/
structure Plan.Publishes (plan : Plan) (d : Disk) (top : Place) (names : List FileName) :
    Prop where
  root : d.resolve plan.root = .ok (Disk.absolute top)
  target : ∃ target, plan.outputTarget = some target ∧
    d.resolve target = .ok (Disk.absolute (top ++ names))
  directory : ∃ dir name children, names = dir ++ [name] ∧
    d.tree.at? (top ++ dir) = some (.dir children)
  text : ∃ text, (Path.joined names).text? = some text ∧ '\\' ∉ text ∧ Text.strip text = text
  unmarked : ∀ kind ∈ ProjectKind.all, ∀ marker ∈ kind.markers,
    names ≠ [RawText.ofText marker]

theorem Plan.Publishes.of_twins {plan : Plan} {d d' : Disk} {top : Place}
    {names : List FileName} {hidden : Place → Prop} (hplan : plan.Publishes d top names)
    (h : d.Twins hidden d') : plan.Publishes d' top names := by
  obtain ⟨target, htarget, hreal⟩ := hplan.target
  obtain ⟨dir, name, children, hnames, hdir⟩ := hplan.directory
  obtain ⟨children', hdir'⟩ := h.alike.directory hdir
  exact ⟨(h.resolve plan.root).trans hplan.root, ⟨target, htarget, (h.resolve target).trans hreal⟩,
    ⟨dir, name, children', hnames, hdir'⟩, hplan.text, hplan.unmarked⟩

namespace Walk

open FileTree Disk

variable {walker : Walker} {d d' : Disk} {plan : Plan} {clock : Clock}
  {now : Calendar.DateTime} {w : Walk} {names : List FileName}

/-! ## Turns without consequence -/

section Turns

variable (hd : w.disk.tree.wellFormed = true) (hroot : w.Opens [])
include hd hroot

theorem turn_mem_of_sight {x : Sight} (hx : x ∈ w.sights) (hne : x.names ≠ []) :
    .turn x.names ∈ w.sights := by
  have hkeeps := course_sights hd hroot x.names List.nil_prefix
  have hcomes : Comes [] w.sights x.names → .turn x.names ∈ w.sights :=
    fun h => h.resolve_left hne
  cases x with
  | listing dir => exact hcomes (hkeeps.listing_iff.1 hx).1
  | turn names => exact hx
  | misnamed names => exact hcomes (hkeeps.misnamed_iff.1 hx).1
  | file names size => exact hcomes ((hkeeps.file_iff size).1 hx).1
  | failure names e => exact absurd ((hkeeps.failure_iff e).1 hx).1 hne

theorem isTurn_after (hne : names ≠ [])
    (honly : ∀ y ∈ w.sights, y.names = names → y.isTurn = true) {before after : List Sight}
    {x : Sight} (heq : w.sights = before ++ .turn names :: x :: after) : x.isTurn = true := by
  have hpairwise := sights_pairwise hd
  rw [heq] at hpairwise
  obtain ⟨-, hlater, hcross⟩ := List.pairwise_append.1 hpairwise
  obtain ⟨hturn, hlast⟩ := List.pairwise_cons.1 hlater
  have hx : x ∈ w.sights := by
    rw [heq]
    exact List.mem_append_right _ (List.mem_cons_of_mem _ List.mem_cons_self)
  by_cases hsame : x.names = names
  · exact honly x hx hsame
  -- What is not a turn comes after its own turn, and that is before the other one.
  have hafter : NamesBefore names x.names :=
    (hturn x List.mem_cons_self).resolve_right fun h => hsame h.1.symm
  have hfilled : x.names ≠ [] := by
    intro hnil
    rw [hnil] at hafter
    cases hafter
  have hown := turn_mem_of_sight hd hroot hx hfilled
  rw [heq] at hown
  rcases List.mem_append.1 hown with hown | hown
  · rcases hcross _ hown _ List.mem_cons_self with hbefore | ⟨-, hrank⟩
    · exact absurd hafter (asymm hbefore)
    · cases hrank
  · rcases List.mem_cons.1 hown with hown | hown
    · exact absurd (congrArg Sight.names hown) hsame
    · rcases List.mem_cons.1 hown with hown | hown
      · rw [← hown]
        rfl
      · rcases (List.pairwise_cons.1 hlast).1 _ hown with hself | ⟨-, hrank⟩
        · exact absurd hself (NamesBefore.irrefl _)
        · cases hrank

end Turns

/-! ## One reading of the clock less -/

def findings (s : Progress) : List Entry × List ReadFault × Bool :=
  (s.files, s.errors, s.truncated)

theorem findings_of_late {deadline : Binary64} {s : Progress} {xs : List Sight}
    (hdeadline : w.deadline = some deadline) (hs : s.stopped = false)
    (hlate : ¬(w.clock s.readings).lt deadline = true)
    (hxs : ∀ x rest, xs = x :: rest → x.isTurn = true) :
    (w.meetAll xs s).map findings = .ok (findings s) := by
  cases xs with
  | nil => rfl
  | cons x rest =>
      cases x with
      | turn names =>
          rw [meetAll_cons, meet_turn hs, checkDeadline_of_not_lt hdeadline hlate]
          exact congrArg (Except.map findings) (w.meetAll_stopped rfl rest)
      | listing dir => cases hxs _ _ rfl
      | misnamed names => cases hxs _ _ rfl
      | file names size => cases hxs _ _ rfl
      | failure names e => cases hxs _ _ rfl

theorem meetAll_skip (hruns : w.clock.Runs) (hdeadline : w.deadline.isSome = true)
    {before after : List Sight} {s : Progress}
    (hafter : ∀ x rest, after = x :: rest → x.isTurn = true) :
    ((w.withClock (w.clock.skip (s.readings + before.countP Sight.isTurn))).meetAll
      (before ++ after) s).map findings =
      (w.meetAll (before ++ .turn names :: after) s).map findings := by
  generalize hn : s.readings + before.countP Sight.isTurn = n
  have hlate : ∀ k, n ≤ k → w.clock.skip n k = w.clock (k + 1) := by
    intro k hk
    rw [Clock.skip, if_neg (Nat.not_lt.2 hk)]
  rw [meetAll_append, meetAll_append, meetAll_of_skip hn.le]
  cases hmeet : w.meetAll before s with
  | error e => rfl
  | ok t =>
      change ((w.withClock (w.clock.skip n)).meetAll after t).map findings =
        (w.meetAll (.turn names :: after) t).map findings
      cases ht : t.stopped with
      | true => rw [meetAll_stopped _ ht, meetAll_stopped _ ht]
      | false =>
          have hreadings : t.readings = n := by
            rw [readings_of_meetAll hdeadline hmeet ht, hn]
          obtain ⟨deadline, hdeadline⟩ := Option.isSome_iff_exists.1 hdeadline
          -- The turn takes the reading that is left out; if that is too late, so is the next one.
          by_cases hearly : (w.clock n).lt deadline = true
          · rw [meetAll_cons, meet_turn ht, checkDeadline_of_lt hdeadline (hreadings ▸ hearly)]
            change _ = (w.meetAll after (t.later 1)).map findings
            rw [meetAll_later fun k hk _ => hlate k (hreadings ▸ hk)]
            cases (w.withClock (w.clock.skip n)).meetAll after t with
            | error e => rfl
            | ok u => rfl
          · have hstill : ¬((w.withClock (w.clock.skip n)).clock t.readings).lt deadline =
                true := by
              rw [hreadings, show (w.withClock (w.clock.skip n)).clock n =
                w.clock (n + 1) from hlate n le_rfl]
              exact fun h => hearly (hruns n deadline h)
            have hturn : ∀ x rest, Sight.turn names :: after = x :: rest →
                x.isTurn = true := by
              rintro x rest ⟨⟩
              rfl
            rw [findings_of_late hdeadline ht (hreadings ▸ hearly) hturn]
            exact findings_of_late hdeadline ht hstill hafter

/-! ## Twins with and without the artifact -/

namespace Twins

theorem passes_iff {top : Place} {x : Sight} :
    Passes top (· = top ++ names) x ↔ x = .turn names := by
  cases x with
  | turn other => simp [Passes]
  | listing dir => simp [Passes]
  | misnamed other => simp [Passes]
  | file other size => simp [Passes]
  | failure other e => simp [Passes]

theorem filter_of_not_mem {xs : List Sight} (hturn : .turn names ∉ xs) :
    xs.filter (· ≠ .turn names) = xs := by
  rw [List.filter_eq_self]
  intro x hx
  rw [decide_eq_true_eq]
  rintro rfl
  exact hturn hx

section Single

variable (h : w.Twins (· = w.root.names ++ names) d')
include h

theorem artifact_ne_nil : names ≠ [] := by
  rintro rfl
  obtain ⟨children, hdir⟩ := h.directory
  rw [← List.append_nil w.root.names] at hdir
  cases h.disks.alike.left _ _ rfl hdir

theorem turn_not_mem (hgone : d'.tree.at? (w.root.names ++ names) = none) :
    .turn names ∉ (w.onDisk d').sights := by
  intro hturn
  obtain ⟨dir, name, rfl⟩ := (List.eq_nil_or_concat' names).resolve_left h.artifact_ne_nil
  obtain ⟨henters, hholds, -⟩ :=
    (came_iff h.disks.wellFormed' h.symm.unlinked.opens_root).1 (.inr hturn)
  have hthere := (h.symm.unlinked.holds_iff henters.named).1 hholds
  rw [show (w.onDisk d').disk.tree.at? ((w.onDisk d').root.names ++ (dir ++ [name])) = none from
    hgone] at hthere
  cases hthere

theorem sights_without (hgone : d'.tree.at? (w.root.names ++ names) = none) :
    (w.onDisk d').sights = w.sights.filter (· ≠ .turn names) := by
  classical
  have hfilter := h.sights_filter
  simp only [passes_iff] at hfilter
  rw [← hfilter, filter_of_not_mem (h.turn_not_mem hgone)]

theorem exists_skip_of_timed (hruns : w.clock.Runs) (hdeadline : w.deadline.isSome = true)
    (hgone : d'.tree.at? (w.root.names ++ names) = none) : ∃ n, 0 < n ∧
      (((w.onDisk d').withClock (w.clock.skip n)).meetAll (w.onDisk d').sights w.start).map
        findings = (w.meetAll w.sights w.start).map findings := by
  have hstart : w.start.readings = 1 := by
    rw [start, hdeadline]
    rfl
  have hdisk : ∀ n xs, xs ⊆ w.sights →
      ((w.onDisk d').withClock (w.clock.skip n)).meetAll xs w.start =
        (w.withClock (w.clock.skip n)).meetAll xs w.start := by
    intro n xs hxs
    refine meetAll_onDisk (w := w.withClock (w.clock.skip n)) (fun names size hfile => ?_) _
    exact h.reading (hxs hfile)
  rw [h.sights_without hgone]
  by_cases hturn : .turn names ∈ w.sights
  · obtain ⟨before, after, heq⟩ := List.append_of_mem hturn
    have hnodup : (before ++ .turn names :: after).Nodup :=
      heq ▸ (sights_pairwise h.disks.wellFormed).nodup
    obtain ⟨-, hrest, hcross⟩ := List.nodup_append.1 hnodup
    have hbefore : .turn names ∉ before := fun h => hcross _ h _ List.mem_cons_self rfl
    have hfilter : w.sights.filter (· ≠ .turn names) = before ++ after := by
      rw [heq, List.filter_append, List.filter_cons_of_neg (by simp), filter_of_not_mem hbefore,
        filter_of_not_mem (List.nodup_cons.1 hrest).1]
    refine ⟨w.start.readings + before.countP Sight.isTurn, by omega, ?_⟩
    rw [hdisk _ _ (List.filter_subset_self _), hfilter, heq]
    refine meetAll_skip hruns hdeadline fun x rest hafter => ?_
    subst hafter
    refine isTurn_after h.disks.wellFormed h.unlinked.opens_root h.artifact_ne_nil
      (fun y hy hnames => ?_) heq
    rw [h.ignores names rfl y hy hnames]
    rfl
  · refine ⟨w.start.readings + w.sights.countP Sight.isTurn, by omega, ?_⟩
    rw [hdisk _ _ (List.filter_subset_self _), filter_of_not_mem hturn,
      meetAll_of_skip le_rfl]

theorem exists_skip (hruns : w.clock.Runs)
    (hgone : d'.tree.at? (w.root.names ++ names) = none) : ∃ n, 0 < n ∧
      (((w.onDisk d').withClock (w.clock.skip n)).meetAll (w.onDisk d').sights w.start).map
        findings = (w.meetAll w.sights w.start).map findings := by
  cases hdeadline : w.deadline with
  | some deadline => exact h.exists_skip_of_timed hruns (by rw [hdeadline]; rfl) hgone
  | none =>
      refine ⟨w.start.readings + (w.onDisk d').sights.countP Sight.isTurn + 1,
        Nat.succ_pos _, ?_⟩
      have hskip : ((w.onDisk d').withClock (w.clock.skip
          (w.start.readings + (w.onDisk d').sights.countP Sight.isTurn + 1))).meetAll
            (w.onDisk d').sights w.start = (w.onDisk d').meetAll (w.onDisk d').sights w.start :=
        meetAll_of_skip (Nat.le_succ _)
      rw [hskip, h.meetAll_of_untimed hdeadline]

end Single

end Twins

/-! ## The walk of a plan -/

section Publishes

variable {top : Place}

theorem overlooks_target (hplan : plan.Publishes d top names)
    (h : ofPlan walker d plan clock = .ok w) (hroot : w.root = absolute top)
    (hnames : ∀ name ∈ names, isEntryName name = true) : w.Overlooks names := by
  obtain ⟨target, htarget, hreal⟩ := hplan.target
  obtain ⟨text, htext, hslash, hblank⟩ := hplan.text
  obtain ⟨dir, name, -, rfl, -⟩ := hplan.directory
  rw [← Path.spelled_of_text? (by simp) htext] at hslash hblank
  refine ⟨text, htext, ?_⟩
  rw [← Path.spelled_of_text? (by simp) htext]
  have hexcludes := Path.excludes_of_spelled w.walker.matcher
    (spelled_mem_rules htarget h (by rw [hreal, pathOf, hroot]; rfl) (by simp) htext) (by simp)
    hnames ⟨hslash, hblank⟩
  rw [excludes, hexcludes, Bool.true_or]

theorem ignores_target (hplan : plan.Publishes d top names)
    (h : ofPlan walker d plan clock = .ok w) (hroot : w.root = absolute top) {e : Disk}
    (hunlinked : (w.onDisk e).Unlinked)
    (hplain : ∀ t, e.tree.at? (top ++ names) = some t → t.isDirectory = false) :
    (w.onDisk e).Ignores names := by
  obtain rfl : w.root.names = top := by rw [hroot, absolute]
  refine hunlinked.ignores fun t hat => ⟨hplain t hat, ?_⟩
  have hnames := isEntryName_of_mem hunlinked.wellFormed hat
  have hoverlooks : w.Overlooks names := overlooks_target hplan h hroot
    fun name hname => hnames name (List.mem_append_right _ hname)
  exact hoverlooks

theorem exists_twins (h : d.Twins (· = top ++ names) d') (hplan : plan.Publishes d top names)
    (hw : ofPlan walker d plan clock = .ok w) :
    w.Twins (· = w.root.names ++ names) d' ∧ w.root = absolute top := by
  obtain ⟨dir, name, children, -, hdir⟩ := hplan.directory
  obtain ⟨entries, htop⟩ := directory_of_at?_append hdir
  have hroot : w.root = absolute top := Except.ok.inj
    ((resolve_of_rootOf (prepared_of_ofPlan hw).root).symm.trans hplan.root)
  have hdisk : w.onDisk d = w := by rw [← (prepared_of_ofPlan hw).sameDisk, onDisk]
  refine ⟨?_, hroot⟩
  rw [show w.root.names = top by rw [hroot, absolute]]
  refine twins_of_ofPlan h hplan.root htop hw ?_ ?_
  · intro hunlinked other hother
    rw [← hdisk] at hunlinked
    obtain rfl : other = names := List.append_cancel_left hother
    rw [← hdisk]
    exact ignores_target hplan hw hroot hunlinked fun t => h.alike.left _ t rfl
  · intro hunlinked other hother
    obtain rfl : other = names := List.append_cancel_left hother
    exact ignores_target hplan hw hroot hunlinked fun t => h.alike.right _ t rfl

theorem ofPlan_publishes (walker : Walker) (clock : Clock)
    (h : d.Twins (· = top ++ names) d') (hplan : plan.Publishes d top names) :
    ofPlan walker d' plan clock = (ofPlan walker d plan clock).map (·.onDisk d') := by
  obtain ⟨dir, name, children, -, hdir⟩ := hplan.directory
  obtain ⟨entries, htop⟩ := directory_of_at?_append hdir
  refine ofPlan_twins h hplan.root htop fun kind hkind marker hmarker heq => ?_
  exact hplan.unmarked kind hkind marker hmarker (List.append_cancel_left heq).symm

theorem walk_eq_of_publishes (h : d.Twins (· = top ++ names) d')
    (hplan : plan.Publishes d top names)
    (hsame : plan.scanTimeout = .null ∨ (d.tree.at? (top ++ names)).isSome =
      (d'.tree.at? (top ++ names)).isSome) :
    walker.walk d' plan clock now = walker.walk d plan clock now := by
  refine walk_eq_of_map (ofPlan_publishes walker clock h hplan) fun w hw hw' => ?_
  obtain ⟨htwins, hroot⟩ := exists_twins h hplan hw
  refine htwins.walk_eq hw hw' (hsame.imp_right fun hsame place hplace => ?_)
  rw [hplace, (prepared_of_ofPlan hw).sameDisk, hroot]
  exact hsame

theorem map_report_eq {outcome outcome' : Except ScanError Progress}
    (h : outcome.map findings = outcome'.map findings) :
    (outcome.map (w.report now)).map (·.untimed) =
      (outcome'.map (w.report now)).map (·.untimed) := by
  cases outcome with
  | error e =>
      cases outcome' with
      | error e' =>
          cases h
          rfl
      | ok t' => cases h
  | ok t =>
      cases outcome' with
      | error e' => cases h
      | ok t' =>
          simp only [Except.map, findings, Except.ok.injEq, Prod.mk.injEq] at h
          obtain ⟨hfiles, herrors, htruncated⟩ := h
          simp only [Except.map, report, Report.untimed, hfiles, herrors, htruncated]

theorem walk_skip_of_publishes (h : d.Twins (· = top ++ names) d')
    (hplan : plan.Publishes d top names) (hruns : clock.Runs)
    (hgone : d'.tree.at? (top ++ names) = none) :
    ∃ n, (walker.walk d' plan (clock.skip n) now).map (·.untimed) =
      (walker.walk d plan clock now).map (·.untimed) := by
  have hplans := ofPlan_publishes walker clock h hplan
  have hclock : ∀ n, 0 < n → ofPlan walker d' plan (clock.skip n) =
      (ofPlan walker d' plan clock).map (·.withClock (clock.skip n)) := by
    intro n hn
    exact ofPlan_withClock (deadlineOf_congr (if_pos hn) _)
  cases hw : ofPlan walker d plan clock with
  | error e =>
      have hskip : ofPlan walker d' plan (clock.skip 1) = .error e := by
        rw [hclock 1 Nat.one_pos, hplans, hw]
        rfl
      exact ⟨1, by rw [walk_of_ofPlan_error hw, walk_of_ofPlan_error hskip]⟩
  | ok w =>
      have hprepared := prepared_of_ofPlan hw
      obtain ⟨htwins, hroot⟩ := exists_twins h hplan hw
      obtain rfl := clock_of_ofPlan hw
      obtain ⟨n, hn, hmeet⟩ := htwins.exists_skip hruns (hroot ▸ hgone)
      have hskip : ofPlan walker d' plan (w.clock.skip n) =
          .ok ((w.onDisk d').withClock (w.clock.skip n)) := by
        rw [hclock n hn, hplans, hw]
        rfl
      refine ⟨n, ?_⟩
      rw [walk_of_ofPlan hw, walk_of_ofPlan hskip, sights_withClock]
      exact map_report_eq hmeet

/-- A walk does not depend on the artifact: whether it is there and what is in it makes no
difference to the report of a walk without a deadline.  A walk with a deadline takes one
reading of the clock more if the artifact is there. -/
theorem walk_artifact (h : d.Twins (· = top ++ names) d')
    (hplan : plan.Publishes d top names) :
    (plan.scanTimeout = .null ∨ (d.tree.at? (top ++ names)).isSome =
        (d'.tree.at? (top ++ names)).isSome →
      walker.walk d' plan clock now = walker.walk d plan clock now) ∧
    (clock.Runs → (d.tree.at? (top ++ names)).isSome = true →
      d'.tree.at? (top ++ names) = none →
      ∃ n, (walker.walk d' plan (clock.skip n) now).map (·.untimed) =
        (walker.walk d plan clock now).map (·.untimed)) :=
  ⟨walk_eq_of_publishes h hplan, fun hruns _ => walk_skip_of_publishes h hplan hruns⟩

end Publishes

theorem publishes_self : selfPlan.Publishes plainDisk [] [subName, innerName] :=
  ⟨by cbv, ⟨_, rfl, by cbv⟩, ⟨[subName], innerName, _, rfl, rfl⟩,
    ⟨['a', '/', 'b'], by decide, by decide, by decide⟩, by decide⟩

theorem walk_artifact_self : ∃ report,
    mixedWalker.walk plainDisk selfPlan stillClock default = .ok report ∧
      mixedWalker.walk (plainDisk.without [subName, innerName]) selfPlan stillClock default =
        .ok report ∧
      report.records = [mixedWalk.recordOf [topName] 5 topText] := by
  have htwins : plainDisk.Twins (· = [] ++ [subName, innerName])
      (plainDisk.without [subName, innerName]) := by
    refine @twins_without plainDisk [subName] innerName _ (by decide)
      (linkFree_of_linkCount rfl) rfl ?_
    rintro t hat
    cases hat
    rfl
  refine ⟨selfReport default, walk_self, ?_, records_selfReport⟩
  rw [(walk_artifact htwins publishes_self).1 (.inl rfl)]
  exact walk_self

end Walk

end SourceScan
