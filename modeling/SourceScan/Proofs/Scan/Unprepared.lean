import SourceScan.Proofs.Walk.Stumble

/-!
# Scans that break off

Up to the writing of its report a scan reports, or says that its root cannot be scanned, or
fails in a way that its callers are not prepared for.  `Unprepared` says when it does the
last of these.  If the settings hold values of the right kinds, it takes links in a circle, a
null byte in the path of the root, or names and paths that are too long.
-/

namespace SourceScan

open FileTree Disk

/-! ## Settings of the right kinds -/

/-- The values are of the kinds that the settings are meant to have.  Switches may be of any
kind. -/
structure ScannerSettings.OfKinds (settings : ScannerSettings) (host : Option Value) : Prop where
  maxFileSize : ∃ i, settings.maxFileSize = .int i
  maxFiles : ∃ i, settings.maxFiles = .int i
  outputFile : ∃ t, settings.outputFile = .str t
  excludePatterns : ∃ ts : List Text, settings.excludePatterns = .list (ts.map .str)
  ignorePatterns : ∃ ts : List Text, settings.ignorePatterns = .list (ts.map .str)
  hosts : ∃ es : List (Text × Bool),
    Plan.hostMap settings host = .map (es.map fun e => (.str e.1, .bool e.2))
  scanTimeout : settings.scanTimeout = .null ∨ ∃ x, settings.scanTimeout = .float x

theorem ScannerSettings.ofKinds_standard : standard.OfKinds none where
  maxFileSize := ⟨_, rfl⟩
  maxFiles := ⟨_, rfl⟩
  outputFile := ⟨_, rfl⟩
  excludePatterns := ⟨_, (congrArg Value.list (List.map_map ..)).symm⟩
  ignorePatterns := ⟨[], rfl⟩
  hosts := ⟨_, congrArg Value.map (List.map_map (f := fun s : String => (s.toList, true))
    (g := fun e : Text × Bool => (Value.str e.1, Value.bool e.2))).symm⟩
  scanTimeout := .inl rfl

theorem Value.not_noPatterns (ts : List Text) : ¬(Value.list (ts.map .str)).NoPatterns := by
  rintro (⟨-, ⟨⟩⟩ | ⟨hyields, hmem, hlong⟩)
  have hsub : ∀ vs, (Value.list (ts.map .str)).elements = .ok vs → vs ⊆ ts.map .str := by
    intro vs h
    unfold elements at h
    split at h
    · cases h
      exact List.nil_subset _
    · cases h
      exact List.Subset.refl _
  obtain ⟨t, -, rfl⟩ := List.mem_map.1 (hsub _ hyields hmem)
  cases hlong

theorem Value.not_notNumber_int (i : Int) : ¬(Value.int i).NotNumber := by
  rintro ⟨⟨⟩, -⟩

theorem Value.not_noSpan_float (x : Binary64) : ¬(Value.float x).NoSpan := by
  rintro (⟨-, hshape⟩ | ⟨⟨⟩, -⟩)
  exact hshape x rfl

theorem ScannerSettings.OfKinds.misfit_iff {settings : ScannerSettings} {host : Option Value}
    (h : settings.OfKinds host) {d : Disk} {root : Path} :
    Plan.Misfit d root settings host ↔ settings.useGitignore.isTruthy = true ∧
      d.TooLong (Plan.ignoreFile root) := by
  refine ⟨fun hmisfit => ?_, fun hignore => .ignoreFile hignore.1 hignore.2⟩
  obtain ⟨es, hes⟩ := h.hosts
  cases hmisfit with
  | hosts used given shape => exact absurd hes (shape _)
  | host used shape mem enabled long =>
      rw [hes, Value.map.injEq] at shape
      obtain ⟨e, -, he⟩ := List.mem_map.1 (shape ▸ mem)
      cases he
      cases long
  | ignoreFile used long => exact ⟨used, long⟩
  | legacy patterns =>
      obtain ⟨ts, hts⟩ := h.ignorePatterns
      exact absurd (hts ▸ patterns) (Value.not_noPatterns ts)
  | explicit patterns =>
      obtain ⟨ts, hts⟩ := h.excludePatterns
      exact absurd (hts ▸ patterns) (Value.not_noPatterns ts)
  | output shape =>
      obtain ⟨t, ht⟩ := h.outputFile
      exact absurd ht (shape t)

theorem Plan.bounds_of_make {d : Disk} {p : Path} {settings : ScannerSettings}
    {host : Option Value} {plan : Plan} (h : make d p settings host = .ok plan) :
    plan.maxFileSize = settings.maxFileSize ∧ plan.maxFiles = settings.maxFiles ∧
      plan.scanTimeout = settings.scanTimeout := by
  rw [make_eq] at h
  obtain ⟨root, -, h⟩ := ok_of_bind h
  obtain ⟨hosts, -, h⟩ := ok_of_bind h
  obtain ⟨found, -, h⟩ := ok_of_bind h
  obtain ⟨rules, -, h⟩ := ok_of_bind h
  obtain ⟨output, -, h⟩ := ok_of_bind h
  cases h
  exact ⟨rfl, rfl, rfl⟩

namespace Scanner

variable {τ : Type} {s : Scanner τ} {m : Moment} {d : Disk} {plan : Plan}

def walked (s : Scanner τ) (m : Moment) (d : Disk) : Except ScanError Report := do
  let plan ← s.plan d
  s.walker.walk d plan m.clock m.now

/-- The walk comes to an entry whose path is too long, so that the system refuses to look it up. -/
def Deep (s : Scanner τ) (m : Moment) (d : Disk) : Prop :=
  ∃ plan w names, s.plan d = .ok plan ∧ Walk.ofPlan s.walker d plan m.clock = .ok w ∧
    .turn names ∈ w.sights ∧ (Path.joined names).text?.isSome = true ∧
      (w.pathOf names).fault? = some .nameTooLong

inductive Unprepared (s : Scanner τ) (m : Moment) (d : Disk) : Prop
  /-- The root cannot be looked up. -/
  | root (unrooted : Plan.Unrooted d s.root)
  /-- The settings do not make a plan. -/
  | settings {root : Path} (rooted : Plan.rootOf d s.root = .ok root)
      (misfit : Plan.Misfit d root s.settings.scanner s.hostExcludes)
  /-- The root of the plan, which a circle of links may have left, cannot be looked up. -/
  | replaced {plan : Plan} (planned : s.plan d = .ok plan) (unrooted : Plan.Unrooted d plan.root)
  /-- There is no walk for the plan. -/
  | plan {plan : Plan} {root : Path} (planned : s.plan d = .ok plan)
      (rooted : Plan.rootOf d plan.root = .ok root) (blocked : Walk.Blocked d root plan)
  /-- The walk comes to a file for which the bounds are of no use. -/
  | walk {plan : Plan} {w : Walk} (planned : s.plan d = .ok plan)
      (begun : Walk.ofPlan s.walker d plan m.clock = .ok w) (stumbles : w.Stumbles 1 w.sights)
  | deep (deep : s.Deep m d)

theorem crashes_walk (hd : d.tree.wellFormed = true) :
    Crashes (s.walker.walk d plan m.clock m.now) ↔ Plan.Unrooted d plan.root ∨
      (∃ root, Plan.rootOf d plan.root = .ok root ∧ Walk.Blocked d root plan) ∨
        ∃ w, Walk.ofPlan s.walker d plan m.clock = .ok w ∧ w.Stumbles 1 w.sights := by
  rw [Walk.walk_eq_meetAll, crashes_bind, Walk.crashes_ofPlan, or_assoc]
  refine or_congr_right (or_congr_right (exists_congr fun w => and_congr_right fun hw => ?_))
  rw [crashes_map, Walk.crashes_sights hd hw]

theorem crashes_walked (hd : d.tree.wellFormed = true) (hshallow : ¬s.Deep m d) :
    Crashes (s.walked m d) ↔ s.Unprepared m d := by
  unfold walked
  rw [crashes_bind, show Crashes (s.plan d) ↔ _ from Plan.crashes_make, Plan.crashes_rootOf]
  simp only [crashes_walk hd]
  constructor
  · rintro ((hroot | ⟨root, hroot, hmisfit⟩) | ⟨plan, hplan, hroot | ⟨root, hroot, hblocked⟩ |
      ⟨w, hw, hstumbles⟩⟩)
    · exact .root hroot
    · exact .settings hroot hmisfit
    · exact .replaced hplan hroot
    · exact .plan hplan hroot hblocked
    · exact .walk hplan hw hstumbles
  · rintro (hroot | ⟨hroot, hmisfit⟩ | ⟨hplan, hroot⟩ | ⟨hplan, hroot, hblocked⟩ |
      ⟨hplan, hw, hstumbles⟩ | hdeep)
    · exact .inl (.inl hroot)
    · exact .inl (.inr ⟨_, hroot, hmisfit⟩)
    · exact .inr ⟨_, hplan, .inl hroot⟩
    · exact .inr ⟨_, hplan, .inr (.inl ⟨_, hroot, hblocked⟩)⟩
    · exact .inr ⟨_, hplan, .inr (.inr ⟨_, hw, hstumbles⟩)⟩
    · exact absurd hdeep hshallow

theorem orderly_walked (hd : d.tree.wellFormed = true) : Orderly (s.walked m d) := by
  refine Orderly.bind Plan.orderly_make fun plan _ => ?_
  rw [Walk.walk_eq_meetAll]
  exact Walk.orderly_ofPlan.bind fun w hw => (Walk.orderly_sights hd hw).map _

theorem scanOnce_of_walked {e : ScanError} (h : s.walked m d = .error e) :
    s.scanOnce m d = (d, .error e) := by
  unfold walked at h
  unfold scanOnce
  cases hplan : s.plan d with
  | error e' =>
      rw [hplan] at h
      cases h
      rfl
  | ok plan =>
      rw [hplan] at h
      change s.walker.walk d plan m.clock m.now = .error e at h
      simp only [bind, Except.bind, h]

/-- A scan that is not unprepared reports, or says that its root cannot be scanned.  One that
is fails in a way that its callers are not prepared for.  Nothing is said of a walk that is too
deep for the system. -/
theorem walked_outcome (hd : d.tree.wellFormed = true) :
    (s.Unprepared m d ∧ (s.Deep m d ∨ ∃ e, s.walked m d = .error e ∧ e.isExpected = false ∧
      s.scanOnce m d = (d, .error e))) ∨
    ¬s.Unprepared m d ∧ ((∃ report, s.walked m d = .ok report) ∨
      ∃ e, s.walked m d = .error e ∧ e.isUnavailable = true ∧
        s.scanOnce m d = (d, .error e)) := by
  by_cases hdeep : s.Deep m d
  · exact .inl ⟨.deep hdeep, .inl hdeep⟩
  by_cases hunprepared : s.Unprepared m d
  · obtain ⟨e, he, hunexpected⟩ := (crashes_walked hd hdeep).2 hunprepared
    exact .inl ⟨hunprepared, .inr ⟨e, he, hunexpected, scanOnce_of_walked he⟩⟩
  · refine .inr ⟨hunprepared, ?_⟩
    cases hwalked : s.walked m d with
    | ok report => exact .inl ⟨report, rfl⟩
    | error e =>
        refine .inr ⟨e, rfl, ?_, scanOnce_of_walked hwalked⟩
        rcases orderly_walked hd e hwalked with hunavailable | hunexpected
        · exact hunavailable
        · exact absurd ((crashes_walked hd hdeep).1 ⟨e, hwalked, hunexpected⟩) hunprepared

/-! ## An ignore file that cannot be looked up -/

def heedfulScanner : Scanner Nat where
  root := ⟨1, []⟩
  settings :=
    { scanner := ⟨.int 100, .int 1, .str "o", .list [], .list [], .bool true,
        .bool false, .null, .bool false, .null⟩
      watch := ⟨.int 0, .bool false⟩
      logging := ⟨.null, .null⟩ }
  session := .idle
  walker := ⟨.standard, .empty, 10⟩
  hostExcludes := none
  lastReport := none

def snagDisk : Disk :=
  ⟨.dir [(RawText.ofText IgnoreFile.defaultName, .link (List.replicate 300 (.char 'n')))], [], [],
    []⟩

set_option maxRecDepth 8000 in
theorem unprepared_snag : heedfulScanner.Unprepared bareMoment snagDisk := by
  have hroot : Plan.rootOf snagDisk ⟨1, []⟩ = .ok ⟨1, []⟩ := by cbv
  have hlong : snagDisk.stat (Plan.ignoreFile ⟨1, []⟩) = .error .nameTooLong := by cbv
  exact .settings hroot (.ignoreFile rfl (.inr hlong))

set_option maxRecDepth 8000 in
theorem not_deep_snag : ¬heedfulScanner.Deep bareMoment snagDisk := by
  rintro ⟨plan, w, names, hplan, -⟩
  have hplan' : heedfulScanner.plan snagDisk =
      .error (.disk ⟨.nameTooLong, Plan.ignoreFile ⟨1, []⟩, none⟩) := by cbv
  cases hplan'.symm.trans hplan

theorem walked_outcome_snag : ∃ e,
    heedfulScanner.scanOnce bareMoment snagDisk = (snagDisk, .error e) ∧
      e.isExpected = false := by
  rcases @walked_outcome _ heedfulScanner bareMoment snagDisk (by decide +kernel) with
    ⟨-, hdeep | ⟨e, -, hunexpected, honce⟩⟩ | ⟨hprepared, -⟩
  · exact absurd hdeep not_deep_snag
  · exact ⟨e, honce, hunexpected⟩
  · exact absurd unprepared_snag hprepared

/-! ## Snags -/

/-- What a scan comes across on the disk that its callers are not prepared for. -/
inductive Snagged (s : Scanner τ) (m : Moment) (d : Disk) : Prop
  | root (unrooted : Plan.Unrooted d s.root)
  | ignoreFile {root : Path} (rooted : Plan.rootOf d s.root = .ok root)
      (used : s.settings.scanner.useGitignore.isTruthy = true)
      (long : d.TooLong (Plan.ignoreFile root))
  | replaced {plan : Plan} (planned : s.plan d = .ok plan) (unrooted : Plan.Unrooted d plan.root)
  | marker {plan : Plan} {root : Path} {kind : ProjectKind} {marker : Text}
      (planned : s.plan d = .ok plan) (rooted : Plan.rootOf d plan.root = .ok root)
      (known : kind ∈ ProjectKind.all) (named : marker ∈ kind.markers)
      (long : d.TooLong (root.child (RawText.ofText marker)))
  | target {plan : Plan} {target : Path} {cause : LinkCircle} (planned : s.plan d = .ok plan)
      (given : plan.outputTarget = some target) (round : d.resolve target = .error (.circle cause))
  | deep (deep : s.Deep m d)

theorem snagged_of_unprepared
    (hkinds : s.settings.scanner.OfKinds s.hostExcludes) (h : s.Unprepared m d) :
    s.Snagged m d := by
  cases h with
  | root unrooted => exact .root unrooted
  | deep deep => exact .deep deep
  | settings rooted misfit =>
      obtain ⟨hused, hlong⟩ := hkinds.misfit_iff.1 misfit
      exact .ignoreFile rooted hused hlong
  | replaced planned unrooted => exact .replaced planned unrooted
  | plan planned rooted blocked =>
      cases blocked with
      | marker known named missing long =>
          exact .marker planned rooted known (by simp [named]) long
      | target given round => exact .target planned given round
      | timeout given shape =>
          rw [(Plan.bounds_of_make planned).2.2] at given shape
          rcases hkinds.scanTimeout with hnone | ⟨x, hx⟩
          · exact absurd hnone given
          · exact absurd (hx ▸ shape) (Value.not_noSpan_float x)
  | walk planned begun stumbles =>
      obtain ⟨size, hsize⟩ := hkinds.maxFileSize
      obtain ⟨files, hfiles⟩ := hkinds.maxFiles
      obtain ⟨hplanSize, hplanFiles, -⟩ := Plan.bounds_of_make planned
      obtain ⟨-, other, -, htrips⟩ := stumbles.exists_file
      have hplan := (Walk.prepared_of_ofPlan begun).samePlan
      cases htrips with
      | size shape =>
          rw [hplan, hplanSize, hsize] at shape
          exact absurd shape (Value.not_notNumber_int size)
      | files fits shape =>
          rw [hplan, hplanFiles, hfiles] at shape
          exact absurd shape (Value.not_notNumber_int files)

end Scanner

end SourceScan
