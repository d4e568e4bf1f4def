import SourceScan.Proofs.Disk.Reach
import SourceScan.Scan.Walk

/-!
# The walk of a plan

`Walk.ofPlan` is the walk that a plan calls for.  There is one if the root is a directory,
unless its path or that of a file in it is too long, a link in it leads through a name that
is too long, or the links of the report's target lead in a circle.
-/

namespace SourceScan

namespace Walk

open FileTree Disk

/-- The walk that a plan calls for: the rule for the report comes first, then the rules of
the project, then those of the plan. -/
def ofPlan (walker : Walker) (d : Disk) (plan : Plan) (clock : Clock) :
    Except ScanError Walk := do
  let root ← Plan.rootOf d plan.root
  let project ← (ProjectKind.rulesAt d root).mapError ScanError.disk
  let output ← outputRule d root plan.outputTarget
  let deadline ← (deadlineOf clock plan.scanTimeout).mapError ScanError.misuse
  return ⟨walker, d, plan, root, output.toList ++ Rule.extend project plan.rules,
    strayOutput d root plan.outputTarget, clock, deadline⟩

structure Prepared (w : Walk) (walker : Walker) (d : Disk) (plan : Plan)
    (clock : Clock) : Prop where
  sameWalker : w.walker = walker
  sameDisk : w.disk = d
  samePlan : w.plan = plan
  root : Plan.rootOf d plan.root = .ok w.root
  rules : ∃ project output, ProjectKind.rulesAt d w.root = .ok project ∧
    outputRule d w.root plan.outputTarget = .ok output ∧
    w.rules = output.toList ++ Rule.extend project plan.rules
  stray : w.stray = strayOutput d w.root plan.outputTarget
  deadline : (deadlineOf clock plan.scanTimeout).mapError ScanError.misuse =
    .ok w.deadline

theorem ofPlan_eq_ok_iff {walker : Walker} {d : Disk} {plan : Plan} {clock : Clock}
    {w : Walk} : ofPlan walker d plan clock = .ok w ↔ ∃ root project output deadline,
      Plan.rootOf d plan.root = .ok root ∧ ProjectKind.rulesAt d root = .ok project ∧
      outputRule d root plan.outputTarget = .ok output ∧
      (deadlineOf clock plan.scanTimeout).mapError ScanError.misuse = .ok deadline ∧
      w = ⟨walker, d, plan, root, output.toList ++ Rule.extend project plan.rules,
        strayOutput d root plan.outputTarget, clock, deadline⟩ := by
  unfold ofPlan
  constructor
  · intro h
    obtain ⟨root, hroot, h⟩ := ok_of_bind h
    obtain ⟨project, hproject, h⟩ := ok_of_bind h
    obtain ⟨output, houtput, h⟩ := ok_of_bind h
    obtain ⟨deadline, hdeadline, h⟩ := ok_of_bind h
    exact ⟨root, project, output, deadline, hroot, ok_of_mapError hproject, houtput, hdeadline,
      (Except.ok.inj h).symm⟩
  · rintro ⟨root, project, output, deadline, hroot, hproject, houtput, hdeadline, rfl⟩
    simp only [hroot, hproject, houtput, hdeadline, mapError_ok, bind, Except.bind, pure,
      Except.pure]

theorem prepared_of_ofPlan {walker : Walker} {d : Disk} {plan : Plan} {clock : Clock}
    {w : Walk} (h : ofPlan walker d plan clock = .ok w) :
    w.Prepared walker d plan clock := by
  obtain ⟨root, project, output, deadline, hroot, hproject, houtput, hdeadline, rfl⟩ :=
    ofPlan_eq_ok_iff.1 h
  exact ⟨rfl, rfl, rfl, hroot, ⟨project, output, hproject, houtput, rfl⟩, rfl, hdeadline⟩

theorem rootOf_eq_ok_iff {d : Disk} {p root : Path} : Plan.rootOf d p = .ok root ↔
    d.resolve p = .ok root ∧ d.exists? root = .ok true ∧ d.isDir root = .ok true := by
  unfold Plan.rootOf
  constructor
  · intro h
    obtain ⟨real, hreal, h⟩ := ok_of_bind h
    obtain ⟨there, hthere, h⟩ := ok_of_bind h
    cases there with
    | false => cases h
    | true =>
        obtain ⟨isDir, hdir, h⟩ := ok_of_bind h
        cases isDir with
        | false => cases h
        | true =>
            cases h
            exact ⟨ok_of_mapError hreal, ok_of_mapError hthere, ok_of_mapError hdir⟩
  · rintro ⟨hreal, hthere, hdir⟩
    simp only [hreal, hthere, hdir, mapError_ok, bind, Except.bind]
    rfl

theorem resolve_of_rootOf {d : Disk} {p root : Path} (h : Plan.rootOf d p = .ok root) :
    d.resolve p = .ok root :=
  (rootOf_eq_ok_iff.1 h).1

theorem isDir_of_rootOf {d : Disk} {p root : Path} (h : Plan.rootOf d p = .ok root) :
    d.isDir root = .ok true :=
  (rootOf_eq_ok_iff.1 h).2.2

theorem reaches_of_rootOf {d : Disk} {p root : Path} (h : Plan.rootOf d p = .ok root) :
    ∃ place children, d.Reaches root place (.dir children) := by
  obtain ⟨found, hlook, hfound⟩ := ok_of_bind (isDir_of_rootOf h)
  split at hfound
  · obtain ⟨place, hreach⟩ := reaches_of_look hlook
    exact ⟨place, _, hreach⟩
  · cases hfound

/-! ## The same plan on another disk -/

def onDisk (w : Walk) (d : Disk) : Walk := { w with disk := d }

section OnDisk

variable {walker : Walker} {d d' : Disk} {plan plan' : Plan} {clock clock' : Clock} {root : Path}

/-- If each step on the way to a walk comes to the same, the walks that two plans call for differ
only in what they are given. -/
theorem ofPlan_map {f : Walk → Walk} (hroot : Plan.rootOf d' plan'.root = Plan.rootOf d plan.root)
    (hproject : ∀ root, Plan.rootOf d plan.root = .ok root →
      ProjectKind.rulesAt d' root = ProjectKind.rulesAt d root)
    (houtput : ∀ root, outputRule d' root plan'.outputTarget =
      outputRule d root plan.outputTarget)
    (hstray : ∀ root, strayOutput d' root plan'.outputTarget =
      strayOutput d root plan.outputTarget)
    (hdeadline : deadlineOf clock' plan'.scanTimeout = deadlineOf clock plan.scanTimeout)
    (hwalk : ∀ root project output stray deadline, Plan.rootOf d plan.root = .ok root →
      ProjectKind.rulesAt d root = .ok project →
      f ⟨walker, d, plan, root, output ++ Rule.extend project plan.rules, stray, clock,
          deadline⟩ =
        ⟨walker, d', plan', root, output ++ Rule.extend project plan'.rules, stray, clock',
          deadline⟩) :
    ofPlan walker d' plan' clock' = (ofPlan walker d plan clock).map f := by
  unfold ofPlan
  rw [hroot]
  cases hreal : Plan.rootOf d plan.root with
  | error e => rfl
  | ok root =>
  simp only [bind, Except.bind, hproject root hreal, houtput, hstray, hdeadline]
  cases hrules : ProjectKind.rulesAt d root with
  | error e => rfl
  | ok project =>
  simp only [mapError_ok]
  cases outputRule d root plan.outputTarget with
  | error e => rfl
  | ok output =>
  simp only
  cases (deadlineOf clock plan.scanTimeout).mapError ScanError.misuse with
  | error e => rfl
  | ok deadline => exact congrArg Except.ok (hwalk _ _ _ _ _ hreal hrules).symm

theorem rulesAt_congr (h : ∀ kind ∈ ProjectKind.all, ∀ marker ∈ kind.markers,
      d'.isFile (root.child (RawText.ofText marker)) =
        d.isFile (root.child (RawText.ofText marker))) :
    ProjectKind.rulesAt d' root = ProjectKind.rulesAt d root := by
  have hany : ∀ markers : List Text,
      (∀ marker ∈ markers, d'.isFile (root.child (RawText.ofText marker)) =
        d.isFile (root.child (RawText.ofText marker))) →
      ProjectKind.anyFile d' root markers = ProjectKind.anyFile d root markers := by
    intro markers h
    induction markers with
    | nil => rfl
    | cons marker markers ih =>
        rw [ProjectKind.anyFile, ProjectKind.anyFile, h marker List.mem_cons_self,
          ih fun other hother => h other (List.mem_cons_of_mem _ hother)]
  rw [ProjectKind.rulesAt, ProjectKind.rulesAt, ProjectKind.detect, ProjectKind.detect,
    filterM_congr fun kind hkind => hany kind.markers (h kind hkind)]

/-- A plan calls for the same walk on two disks that agree on the root, on the kind of
the project and on the target. -/
theorem ofPlan_onDisk (hroot : Plan.rootOf d' plan.root = Plan.rootOf d plan.root)
    (hproject : ∀ root, Plan.rootOf d plan.root = .ok root →
      ProjectKind.rulesAt d' root = ProjectKind.rulesAt d root)
    (htarget : ∀ target, plan.outputTarget = some target →
      d'.resolve target = d.resolve target) :
    ofPlan walker d' plan clock = (ofPlan walker d plan clock).map (·.onDisk d') := by
  have houtput : ∀ root, outputRule d' root plan.outputTarget =
      outputRule d root plan.outputTarget := by
    intro root
    unfold outputRule
    cases hgiven : plan.outputTarget with
    | none => rfl
    | some target =>
        dsimp only
        rw [htarget target hgiven]
  have hstray : ∀ root, strayOutput d' root plan.outputTarget =
      strayOutput d root plan.outputTarget := by
    intro root
    unfold strayOutput
    cases hgiven : plan.outputTarget with
    | none => rfl
    | some target => simp only [htarget target hgiven, Option.bind_eq_bind, Option.bind_some]
  exact ofPlan_map hroot hproject houtput hstray rfl fun _ _ _ _ _ _ _ => rfl

end OnDisk

/-! ## Plans that call for no walk -/

/-- What stands in the way of a plan without a timeout. -/
inductive Hindered (d : Disk) (plan : Plan) : Prop where
  /-- The root is no directory. -/
  | root (missing : ∀ place children, ¬d.Reaches plan.root place (.dir children))
  /-- The real path of the root is too long. -/
  | deep {root : Path} (real : d.resolve plan.root = .ok root)
      (long : d.TooLong root)
  /-- A file that would tell the kind of the project has too long a path or leads through a name
  that is too long. -/
  | marker {root : Path} {kind : ProjectKind} {marker : Text}
      (real : d.resolve plan.root = .ok root) (known : kind ∈ ProjectKind.all)
      (named : marker ∈ kind.markers)
      (long : d.TooLong (root.child (RawText.ofText marker)))
  /-- The links of the target lead in a circle. -/
  | target {target : Path} {circle : LinkCircle} (given : plan.outputTarget = some target)
      (round : d.resolve target = .error (.circle circle))

theorem rootOf_of_reaches {d : Disk} (hd : d.tree.wellFormed = true) {p : Path}
    {place : Place} {children : List (FileName × FileTree)}
    (h : d.Reaches p place (.dir children))
    (hshort : (absolute place).fault? ≠ some .nameTooLong) :
    Plan.rootOf d p = .ok (absolute place) := by
  have hself : d.Reaches (absolute place) place (.dir children) :=
    reaches_absolute hd (h.leads hd).1 rfl
  have hthere : d.exists? (absolute place) = .ok true := by
    unfold Disk.exists?
    rw [ask_eq_look hshort, hself.look]
    rfl
  exact rootOf_eq_ok_iff.2 ⟨h.resolve hd, hthere, hself.isDir⟩

theorem eq_absolute_of_rootOf {d : Disk} (hd : d.tree.wellFormed = true) {p root : Path}
    {place : Place} {t : FileTree} (h : Plan.rootOf d p = .ok root) (hreach : d.Reaches p place t) :
    root = absolute place :=
  Except.ok.inj ((resolve_of_rootOf h).symm.trans (hreach.resolve hd))

theorem long_of_anyFile_error {d : Disk} {root : Path} {markers : List Text}
    {e : DiskError} (h : ProjectKind.anyFile d root markers = .error e) :
    ∃ marker ∈ markers, d.TooLong (root.child (RawText.ofText marker)) := by
  induction markers with
  | nil => cases h
  | cons marker markers ih =>
      unfold ProjectKind.anyFile at h
      cases hfile : d.isFile (root.child (RawText.ofText marker)) with
      | error e' => exact ⟨marker, List.mem_cons_self, exists_error_isFile.1 ⟨e', hfile⟩⟩
      | ok found =>
          rw [hfile] at h
          cases found with
          | true => cases h
          | false =>
              obtain ⟨other, hother, hlong⟩ := ih h
              exact ⟨other, List.mem_cons_of_mem _ hother, hlong⟩

theorem long_of_rulesAt_error {d : Disk} {root : Path} {e : DiskError}
    (h : ProjectKind.rulesAt d root = .error e) :
    ∃ kind ∈ ProjectKind.all, ∃ marker ∈ kind.markers,
      d.TooLong (root.child (RawText.ofText marker)) := by
  unfold ProjectKind.rulesAt at h
  cases hkinds : ProjectKind.detect d root with
  | error e' =>
      obtain ⟨kind, hkind, e, hany⟩ := exists_filterM_error.1 ⟨e', hkinds⟩
      exact ⟨kind, hkind, long_of_anyFile_error hany⟩
  | ok kinds =>
      rw [hkinds] at h
      cases h

theorem exists_circle_of_outputRule {d : Disk} {root : Path} {target : Option Path} {e : ScanError}
    (h : outputRule d root target = .error e) :
    ∃ given circle, target = some given ∧ d.resolve given = .error (.circle circle) := by
  unfold outputRule at h
  cases target with
  | none => cases h
  | some given =>
      dsimp only at h
      cases hreal : d.resolve given with
      | ok real =>
          rw [hreal] at h
          cases h
      | error cause =>
          rw [hreal] at h
          cases cause with
          | disk cause => cases h
          | circle circle => exact ⟨given, circle, rfl, hreal⟩

theorem hindered_of_ofPlan_error {walker : Walker} {d : Disk} {plan : Plan}
    {clock : Clock} {e : ScanError} (hd : d.tree.wellFormed = true)
    (huntimed : plan.scanTimeout = .null) (h : ofPlan walker d plan clock = .error e) :
    Hindered d plan := by
  by_cases hroot : ∃ place children, d.Reaches plan.root place (.dir children)
  · obtain ⟨place, children, hreach⟩ := hroot
    by_cases hshort : (absolute place).fault? = some .nameTooLong
    · exact .deep (hreach.resolve hd) (.inl hshort)
    cases hproject : ProjectKind.rulesAt d (absolute place) with
    | error e' =>
        obtain ⟨kind, hkind, marker, hmarker, hlong⟩ := long_of_rulesAt_error hproject
        exact .marker (hreach.resolve hd) hkind hmarker hlong
    | ok project =>
        cases houtput : outputRule d (absolute place) plan.outputTarget with
        | error e' =>
            obtain ⟨target, circle, htarget, hround⟩ := exists_circle_of_outputRule houtput
            exact .target htarget hround
        | ok output =>
            have hdeadline : (deadlineOf clock plan.scanTimeout).mapError ScanError.misuse =
                .ok none := by
              rw [huntimed]
              rfl
            cases h.symm.trans (ofPlan_eq_ok_iff.2
              ⟨_, _, _, _, rootOf_of_reaches hd hreach hshort, hproject, houtput, hdeadline, rfl⟩)
  · exact .root fun place children hreach => hroot ⟨place, children, hreach⟩

end Walk

end SourceScan
