import SourceScan.Proofs.Scan.Scanner
import SourceScan.Proofs.Watch.Filter

/-!
# Watching the output of a scan

When a report is written the file system reports events at the places that its way to
the target goes through, while the rules for a watcher spell the target out the way the
settings do.  The watcher drops these events exactly if its rules exclude the real
places.  They do if the target is spelled as it lies on the disk, without backslashes
and without blanks at the ends; another spelling may leave an event over.
-/

namespace SourceScan

open FileTree Disk

variable {τ : Type} {d done : Disk} {report : Report} {target : Path}

def Delivery.events (out : Delivery report target d done) (root : Path) : List RawEvent :=
  let seen (place : Place) : Path := ⟨root.slashes, place⟩
  [⟨.created, false, seen out.made, ⟨0, []⟩⟩,
   ⟨.modified, false, seen out.made, ⟨0, []⟩⟩,
   ⟨.moved, false, seen out.source, seen out.goal⟩,
   ⟨.modified, false, seen out.goal, ⟨0, []⟩⟩]

def Delivery.Excluded (out : Delivery report target d done) (root : Path) (m : Matcher)
    (patterns : List Text) : Prop :=
  ∀ place ∈ out.places, ∀ names, names ≠ [] → place = root.names ++ names →
    m.excludes (Path.spelled names) patterns false = true

namespace EventFilter

variable {f : EventFilter}

theorem emitAll_events (out : Delivery report target d done) :
    f.emitAll (out.events f.root) = [] ↔
      ∀ place ∈ out.places, f.ignores ⟨f.root.slashes, place⟩ = true := by
  simp only [emitAll, Delivery.events, Delivery.places, List.filterMap_eq_nil_iff,
    List.forall_mem_cons, List.not_mem_nil, false_implies, implies_true, and_true]
  cases hmade : f.ignores ⟨f.root.slashes, out.made⟩ <;>
    cases hsource : f.ignores ⟨f.root.slashes, out.source⟩ <;>
    cases hgoal : f.ignores ⟨f.root.slashes, out.goal⟩ <;>
    simp [emit?, hmade, hsource, hgoal]

/-- A place is ignored if it does not lie below the root or its path from there is
excluded. -/
theorem ignores_place {place : Place} :
    f.ignores ⟨f.root.slashes, place⟩ = true ↔
      ∀ names, names ≠ [] → place = f.root.names ++ names →
        f.matcher.excludes (Path.spelled names) (f.rules.map (·.pattern)) false = true := by
  rw [ignores_iff, Sees]
  simp only [Path.mk.injEq, true_and, not_exists, not_and, Bool.not_eq_false]

theorem dropped_iff (f : EventFilter) (out : Delivery report target d done) :
    f.emitAll (out.events f.root) = [] ↔
      out.Excluded f.root f.matcher (f.rules.map (·.pattern)) := by
  rw [emitAll_events]
  exact forall₂_congr fun place _ => ignores_place

end EventFilter

/-- The target is spelled as it lies on the disk below the root, in a directory that is
there; the file beside it is no link, and its path is plain. -/
structure Plan.Straight (plan : Plan) (d : Disk) (sub : List FileName)
    (name : FileName) : Prop where
  root : plan.root = absolute plan.root.names
  target : plan.outputTarget = some (absolute (plan.root.names ++ sub ++ [name]))
  directory : ∃ children, d.tree.at? (plan.root.names ++ sub) = some (.dir children)
  unlinked : ∀ link, d.tree.at? (plan.root.names ++ sub ++ [Path.stagingName name]) ≠
    some (.link link)
  plain : Path.Plain (sub ++ [name])

theorem Path.shown_stagingName (name : FileName) :
    (Path.stagingName name).shown = ('.' :: name.shown) ++ (".tmp" : Text) := by
  simp [Path.stagingName, RawText.shown, RawText.ofText, Path.dot, TextUnit.char?]

theorem Path.Plain.staging {sub : List FileName} {name : FileName}
    (h : Path.Plain (sub ++ [name])) (hsub : ∀ entry ∈ sub, entry ≠ []) :
    Path.Plain (sub ++ [Path.stagingName name]) := by
  have hshown := Path.shown_stagingName name
  apply h.beside hsub
  · simp [Path.stagingName]
  · rw [hshown]
    simp [h.last]
  · intro c hc
    rw [hshown] at hc
    cases hc
    decide
  · intro c hc
    rw [hshown, List.getLast?_append_of_ne_nil _ (by decide)] at hc
    cases hc
    decide

namespace Plan.Straight

variable {plan : Plan} {sub : List FileName} {name : FileName} {root : Path}
  {settings : ScannerSettings} {host : Option Value}

theorem slashes (h : plan.Straight d sub name) : plan.root.slashes = 1 := by
  rw [h.root]
  rfl

theorem relativeTo?_eq (hroot : plan.root.slashes = 1) (sub : List FileName)
    (name : FileName) :
    (absolute (plan.root.names ++ sub ++ [name])).relativeTo? plan.root =
      some (sub ++ [name]) := by
  rw [Path.relativeTo?_eq_some, hroot]
  simp [absolute]

theorem outputNames_eq (h : plan.Straight d sub name) :
    plan.outputNames = [sub ++ [name], sub ++ [Path.stagingName name]] := by
  unfold Plan.outputNames
  rw [h.target, Option.bind_some, relativeTo?_eq h.slashes]
  simp

theorem excludes (h : plan.Straight d sub name)
    (hd : d.tree.wellFormed = true) (hmake : Plan.make d root settings host = .ok plan)
    (out : Delivery report (absolute (plan.root.names ++ sub ++ [name])) d done)
    (project : List Rule) (m : Matcher) :
    out.Excluded plan.root m ((plan.watched project).map (·.pattern)) := by
  obtain ⟨children, hdir⟩ := h.directory
  obtain ⟨hnil, hdot, -⟩ :=
    Plan.names_of_make hmake h.target (relativeTo?_eq h.slashes sub name) name (by simp)
  have hhere : staysHere name = false := by simp [staysHere, hnil, hdot]
  obtain ⟨hmade, hsource, hgoal, -, -⟩ := out.places_of_real hd hdir hhere h.unlinked
  have hsub : ∀ entry ∈ sub, isEntryName entry = true := fun entry hentry =>
    isEntryName_of_mem hd hdir entry (List.mem_append_right _ hentry)
  have hplaces :=
    out.isEntryName_of_mem_places hd rfl (Plan.slash_not_mem_of_make hd hmake h.target)
  have hname : isEntryName name = true :=
    hplaces out.goal (by simp [Delivery.places]) name (by simp [hgoal])
  have hstaging : isEntryName (Path.stagingName name) = true :=
    hplaces out.made (by simp [Delivery.places]) _ (by simp [hmade])
  -- Each place of the way is spelled out by one of the two rules.
  have hcase : ∀ last names, isEntryName last = true → Path.Plain (sub ++ [last]) →
      sub ++ [last] ∈ plan.outputNames →
      plan.root.names ++ sub ++ [last] = plan.root.names ++ names →
      m.excludes (Path.spelled names) ((plan.watched project).map (·.pattern)) false =
        true := by
    intro last names hlast hplain hmem heq
    rw [List.append_assoc, List.append_right_inj] at heq
    subst heq
    refine Path.excludes_of_spelled m ?_ (by simp) ?_ hplain
    · simp only [Plan.watched, List.map_append, List.mem_append, List.map_map]
      exact .inl (List.mem_map.2 ⟨_, hmem, rfl⟩)
    · intro entry hentry
      rcases List.mem_append.1 hentry with hentry | hentry
      · exact hsub entry hentry
      · rw [List.mem_singleton.1 hentry]
        exact hlast
  have hplain := h.plain.staging fun entry hentry =>
    (Path.ne_nil_of_isEntryName (hsub entry hentry)).1
  have houtput := h.outputNames_eq
  intro place hplace names _ heq
  simp only [Delivery.places, hmade, hsource, hgoal, List.mem_cons, List.not_mem_nil,
    or_false] at hplace
  rcases hplace with rfl | rfl | rfl
  · exact hcase _ names hstaging hplain (by simp [houtput]) heq
  · exact hcase _ names hstaging hplain (by simp [houtput]) heq
  · exact hcase _ names hname h.plain (by simp [houtput]) heq

end Plan.Straight

/-- The target is spelled without wildcards, but through a directory that the report does
not pass on its way: a double dot, or a link that leads elsewhere. -/
structure Plan.Astray (plan : Plan) (places : List Place) (sub : List FileName)
    (name : FileName) : Prop where
  target : plan.outputTarget.bind (·.relativeTo? plan.root) = some (sub ++ [name])
  plain : Path.Plain (sub ++ [name])
  literal : hasWildcard (Path.spelled (sub ++ [name])) = false
  away : ∃ entry ∈ sub, entry = Path.dotDot ∨ ∀ place ∈ places, ∀ names,
    place = plan.root.names ++ names → ∀ other ∈ names, other.shown ≠ entry.shown
  clean : ∀ place ∈ places, ∀ names, place = plan.root.names ++ names →
    '\\' ∉ Path.spelled names

namespace Plan.Astray

variable {plan : Plan} {sub : List FileName} {name : FileName} {root : Path}
  {settings : ScannerSettings} {host : Option Value}

theorem outputNames_eq {places : List Place} (h : plan.Astray places sub name) :
    plan.outputNames = [sub ++ [name], sub ++ [Path.stagingName name]] := by
  unfold Plan.outputNames
  rw [h.target]
  simp

theorem literal_staging {places : List Place} (h : plan.Astray places sub name) :
    hasWildcard (Path.spelled (sub ++ [Path.stagingName name])) = false := by
  obtain ⟨entry, hentry, -⟩ := h.away
  have hfilled : sub ≠ [] := List.ne_nil_of_mem hentry
  have hliteral := h.literal
  rw [Path.spelled_snoc hfilled, hasWildcard, List.any_append, List.any_cons,
    Bool.or_eq_false_iff, Bool.or_eq_false_iff] at hliteral
  rw [Path.spelled_snoc hfilled, Path.shown_stagingName, hasWildcard, List.any_append,
    List.any_cons, List.any_append, List.any_cons, hliteral.1, hliteral.2.2]
  decide

theorem excluded_iff (hd : d.tree.wellFormed = true)
    (hmake : Plan.make d root settings host = .ok plan)
    (htarget : plan.outputTarget = some target) (out : Delivery report target d done)
    (h : plan.Astray out.places sub name) (project : List Rule) (m : Matcher) :
    out.Excluded plan.root m ((plan.watched project).map (·.pattern)) ↔
      out.Excluded plan.root m ((plan.foreign project).map (·.pattern)) := by
  have hbelow : target.relativeTo? plan.root = some (sub ++ [name]) := by
    rw [← h.target, htarget, Option.bind_some]
  have habsolute : target.isAbsolute = true := by
    have hroot := isAbsolute_of_resolve (Walk.resolve_of_rootOf (Plan.of_make hmake).1)
    rw [Path.relativeTo?_eq_some.1 hbelow]
    exact hroot
  have hspelled := Plan.names_of_make hmake htarget hbelow
  have hsub : ∀ entry ∈ sub, entry ≠ [] ∧ Path.slash ∉ entry := fun entry hentry =>
    have hname := hspelled entry (List.mem_append_left _ hentry)
    ⟨hname.1, hname.2.2⟩
  obtain ⟨hnil, -, hslash⟩ := hspelled name (by simp)
  obtain ⟨entry, hentry, haway⟩ := h.away
  refine forall₅_congr fun place hplace names hne heq => ?_
  have hnames : ∀ other ∈ names, isEntryName other = true := fun other hother =>
    out.isEntryName_of_mem_places hd habsolute
      (Plan.slash_not_mem_of_make hd hmake htarget) place hplace other
      (heq ▸ List.mem_append_right _ hother)
  -- No real place has a double dot in it.
  have hmissed : ∀ other ∈ names, other.shown ≠ entry.shown := by
    rcases haway with rfl | haway
    · intro other hother hshown
      exact (isEntryName_iff.1 (hnames other hother)).2.1 (Path.eq_dotDot_of_shown hshown)
    · exact haway place hplace names heq
  have hown : ∀ last, last ≠ [] ∧ Path.slash ∉ last → Path.Plain (sub ++ [last]) →
      hasWildcard (Path.spelled (sub ++ [last])) = false →
      m.matchesPattern (Path.spelled names) (Path.spelled (sub ++ [last])) false = false :=
    fun last hlast hplain hliteral => Path.not_matches_of_away m hsub hlast hplain hliteral
      (fun other hother => Path.slash_not_mem (hnames other hother)) hne hentry hmissed
  rw [Plan.watched, List.map_append,
    Path.excludes_append m hnames (h.clean place hplace names heq)]
  intro pattern hpattern
  simp only [h.outputNames_eq, List.map_cons, List.map_nil, List.mem_cons, List.not_mem_nil,
    or_false] at hpattern
  rcases hpattern with rfl | rfl
  · exact hown name ⟨hnil, hslash⟩ h.plain h.literal
  · exact hown _ ⟨by simp [Path.stagingName], Delivery.slash_not_mem_stagingName hslash⟩
      (h.plain.staging fun entry hentry => (hsub entry hentry).1) h.literal_staging

end Plan.Astray

namespace Scanner

variable {output : Text} {names : List FileName}

theorem places_bare {done : Disk} (h : BareSpelling output names)
    (out : Delivery bareReport (absolute names) bareDisk done) :
    out.made = [Path.stagingName outputName] ∧ out.source = [Path.stagingName outputName] ∧
      out.goal = [outputName] := by
  obtain ⟨content, staging, written, made, source, goal, -, hbeside, hwrite, -,
    ⟨found, hmade⟩, ⟨moved, hsource⟩, ⟨there, hgoal⟩⟩ := out
  obtain rfl : staging = ⟨1, names.dropLast ++ [Path.stagingName outputName]⟩ := by
    cases h <;> exact (Option.some.inj hbeside).symm
  have hwritten : bareDisk.writeFile ⟨1, names.dropLast ++ [Path.stagingName outputName]⟩
      content = .ok ⟨.dir [(Path.stagingName outputName, .file content)], [], [], []⟩ := by
    cases h <;> cbv
  rw [hwritten] at hwrite
  cases hwrite
  have hmade' : bareDisk.tree.findFrom true linkLimit []
      (names.dropLast ++ [Path.stagingName outputName]) =
        .ok ([Path.stagingName outputName], none) := by
    cases h <;> cbv
  have hsource' : (FileTree.dir [(Path.stagingName outputName, .file content)]).find false []
      (names.dropLast ++ [Path.stagingName outputName]) =
        .ok ([Path.stagingName outputName], .file content) := by
    cases h <;> cbv
  have hgoal' : (FileTree.dir [(Path.stagingName outputName, .file content)]).findFrom false
      linkLimit [] names = .ok ([outputName], none) := by
    cases h <;> cbv
  exact ⟨(congrArg Prod.fst (Except.ok.inj (hmade'.symm.trans hmade))).symm,
    (congrArg Prod.fst (Except.ok.inj (hsource'.symm.trans hsource))).symm,
    (congrArg Prod.fst (Except.ok.inj (hgoal'.symm.trans hgoal))).symm⟩

theorem straight_bare : (barePlan [outputName]).Straight bareDisk [] outputName := by
  refine ⟨rfl, rfl, ⟨[], rfl⟩, fun link h => ?_, by decide, by decide⟩
  cases h

theorem astray_bare {done : Disk}
    (out : Delivery bareReport (absolute [Path.dotDot, outputName]) bareDisk done) :
    (barePlan [Path.dotDot, outputName]).Astray out.places [Path.dotDot] outputName := by
  obtain ⟨hmade, hsource, hgoal⟩ := places_bare .winding out
  refine ⟨rfl, ⟨by decide, by decide⟩, by decide, ⟨_, List.mem_singleton_self _, .inl rfl⟩, ?_⟩
  intro place hplace names heq
  obtain rfl : place = names := heq
  simp only [Delivery.places, hmade, hsource, hgoal, List.mem_cons, List.not_mem_nil,
    or_false, ← or_assoc, or_self] at hplace
  rcases hplace with rfl | rfl <;> decide

end Scanner

end SourceScan
