import SourceScan.Proofs.Disk.Veil
import SourceScan.Proofs.Walk.Confinement

/-!
# Walks on disks that are the same inside the root

Every file that a walk takes up lies inside the root.  So the bytes of files outside are of
no account to it: on two disks that are the same inside the root a walk comes across the
same and reads the same.  Neither does it ask where a rule came from, as long as the rules
in effect are the same.
-/

namespace SourceScan

def Disk.RootedAt (d : Disk) (top : Place) (p : Path) : Prop :=
  ∀ root place children, d.resolve p = .ok root → d.Reaches root place (.dir children) →
    place = top

def Plan.withRules (plan : Plan) (rules : List Rule) : Plan := { plan with rules }

namespace Walk

open FileTree Disk

variable {walker : Walker} {d d' : Disk} {plan : Plan} {clock : Clock}
  {now : Calendar.DateTime} {w : Walk} {top : Place}

/-! ## The same sights -/

def FilesWithin (w : Walk) (top : Place) (xs : List Sight) : Prop :=
  ∀ names size, .file names size ∈ xs → ∀ place content,
    w.disk.Reaches (w.pathOf names) place (.file content) → top <+: place

theorem FilesWithin.subset {xs ys : List Sight} (h : w.FilesWithin top ys) (hsub : xs ⊆ ys) :
    w.FilesWithin top xs :=
  fun names size hfile => h names size (hsub hfile)

section SameWithin

variable (h : w.disk.SameWithin top d')
include h

theorem admits_sameWithin (entry : Path) (text : Text) :
    (w.onDisk d').admits entry text = w.admits entry text := by
  unfold admits followsLink
  simp only [onDisk, h.isLink, h.isDir, h.resolveStrict?]
  rfl

theorem sightsAt_sameWithin {below below' : List FileName → List Path → Sights}
    {names : List FileName} {visited : List Path}
    (hbelow : w.FilesWithin top (below names visited).1 →
      below' names visited = below names visited)
    (hfiles : w.FilesWithin top (w.sightsAt below names visited).1) :
    (w.onDisk d').sightsAt below' names visited = w.sightsAt below names visited := by
  unfold sightsAt at hfiles ⊢
  cases htext : (Path.joined names).text? with
  | none => rfl
  | some text =>
  simp only [htext, admits_sameWithin h] at hfiles ⊢
  rw [show (w.onDisk d').pathOf names = w.pathOf names from rfl]
  cases hadmits : w.admits (w.pathOf names) text with
  | error e => rfl
  | ok admitted =>
  simp only [hadmits] at hfiles ⊢
  rcases admitted with _ | _ | _
  · rfl
  · cases hstat : w.disk.stat (w.pathOf names) with
    | error e =>
        have hlook : d'.look (w.pathOf names) = w.disk.look (w.pathOf names) := by
          unfold Disk.look
          rw [h.stat_error hstat, hstat]
        simp only [onDisk, hlook]
    | ok t =>
        obtain ⟨place, hreach⟩ := reaches_of_stat hstat
        obtain ⟨t', hreach', ht'⟩ := h.reaches hreach
        simp only [hreach.look] at hfiles
        simp only [onDisk, hreach.look, hreach'.look]
        cases t with
        | file content =>
            have hin := hfiles names _ List.mem_cons_self place content hreach
            obtain ⟨-, rfl⟩ := hreach'.unique (h.reaches_file hreach hin)
            rfl
        | dir children => cases t' <;> first | rfl | cases ht'
        | link target => cases t' <;> first | rfl | cases ht'
        | pipe => cases t' <;> first | rfl | cases ht'
  · exact hbelow hfiles

theorem entriesSights_sameWithin {below below' : List FileName → List Path → Sights}
    (hbelow : ∀ names visited, w.FilesWithin top (below names visited).1 →
      below' names visited = below names visited)
    (dir names : List FileName) (visited : List Path)
    (hfiles : w.FilesWithin top (w.entriesSights below dir names visited).1) :
    (w.onDisk d').entriesSights below' dir names visited =
      w.entriesSights below dir names visited := by
  induction names generalizing visited with
  | nil => rfl
  | cons name names ih =>
      have hentry := sightsAt_sameWithin h (hbelow (dir ++ [name]) visited) (hfiles.subset
        (List.subset_append_of_subset_left _ (List.subset_cons_self _ _)))
      have hrest := ih (w.entrySights below dir name visited).2
        (hfiles.subset (List.subset_append_right _ _))
      simp only [entriesSights, entrySights, hentry] at hrest ⊢
      rw [hrest]

theorem dirSights_sameWithin (fuel : Nat) (dir : List FileName) (visited : List Path)
    (hfiles : w.FilesWithin top (w.dirSights fuel dir visited).1) :
    (w.onDisk d').dirSights fuel dir visited = w.dirSights fuel dir visited := by
  induction fuel generalizing dir visited with
  | zero => rfl
  | succ fuel ih =>
      have hresolve : (w.onDisk d').disk.resolve ((w.onDisk d').pathOf dir) =
          w.disk.resolve (w.pathOf dir) := h.resolve _
      have hlist : (w.onDisk d').disk.list ((w.onDisk d').pathOf dir) =
          w.disk.list (w.pathOf dir) := h.list _
      rw [dirSights, dirSights, hresolve, hlist]
      rw [dirSights] at hfiles
      cases hreal : w.disk.resolve (w.pathOf dir) with
      | error e => rfl
      | ok real =>
      simp only [hreal] at hfiles ⊢
      by_cases hvisited : real ∈ visited
      · simp only [hvisited, if_true]
      · simp only [hvisited, if_false] at hfiles ⊢
        cases hentries : w.disk.list (w.pathOf dir) with
        | error e => rfl
        | ok entries =>
            simp only [hentries] at hfiles ⊢
            rw [entriesSights_sameWithin h ih dir (sortNames entries) (real :: visited)
              (hfiles.subset (List.subset_cons_self _ _))]

theorem sights_sameWithin (hfiles : w.FilesWithin top w.sights) :
    (w.onDisk d').sights = w.sights := by
  unfold sights
  rw [show (w.onDisk d').disk.tree.dirCount = w.disk.tree.dirCount from h.dirCount,
    dirSights_sameWithin h _ _ _ hfiles]

theorem reading_sameWithin (hfiles : w.FilesWithin top w.sights) {names : List FileName}
    {size : Nat} (hfile : .file names size ∈ w.sights) :
    (w.onDisk d').reading names size = w.reading names size := by
  have hread : (w.onDisk d').disk.readFile ((w.onDisk d').pathOf names) =
      w.disk.readFile (w.pathOf names) := h.readFile (hfiles names size hfile)
  unfold Walk.reading
  rw [hread]
  rfl

end SameWithin

/-! ## The same report -/

theorem rulesAt_sameWithin (h : d.SameWithin top d') (root : Path) :
    ProjectKind.rulesAt d' root = ProjectKind.rulesAt d root :=
  rulesAt_congr fun _ _ _ _ => h.isFile _

theorem ofPlan_sameWithin (h : d.SameWithin top d') :
    ofPlan walker d' plan clock = (ofPlan walker d plan clock).map (·.onDisk d') :=
  ofPlan_onDisk (h.rootOf _) (fun root _ => rulesAt_sameWithin h root)
    fun target _ => h.resolve target

/-- The files of a walk lie inside its root. -/
theorem filesWithin (hd : d.tree.wellFormed = true) (h : ofPlan walker d plan clock = .ok w)
    (htop : d.RootedAt top plan.root) : w.FilesWithin top w.sights := by
  have hprepared := prepared_of_ofPlan h
  obtain rfl := hprepared.sameDisk
  obtain ⟨place, children, hreach⟩ := reaches_of_rootOf hprepared.root
  obtain rfl := htop _ _ _ (resolve_of_rootOf hprepared.root) hreach
  intro names size hfile last content hlast
  obtain ⟨last', content', hlast', -, hin⟩ :=
    reaches_of_file hd hprepared.opens_root hreach hfile
  rwa [(hlast.unique hlast').1]

/-- A walk has the same outcome on disks that are the same inside its root. -/
theorem walk_sameWithin (hd : d.tree.wellFormed = true) (h : d.SameWithin top d')
    (htop : d.RootedAt top plan.root) :
    walker.walk d' plan clock now = walker.walk d plan clock now := by
  refine walk_eq_of_map (ofPlan_sameWithin h) fun w hw hw' => ?_
  have hfiles := filesWithin hd hw htop
  obtain rfl := (prepared_of_ofPlan hw).sameDisk
  have hmeet := meetAll_onDisk (d := d')
    (fun names size hfile => reading_sameWithin h hfiles hfile) w.start
  rw [walk_of_ofPlan hw, walk_of_ofPlan hw', sights_sameWithin h hfiles,
    show (w.onDisk d').start = w.start from rfl, hmeet]
  rfl

/-! ## The same rules in effect -/

def withRules (w : Walk) (rules : List Rule) : Walk :=
  { w with plan := w.plan.withRules rules }

theorem sights_withRules (w : Walk) (rules : List Rule) :
    (w.withRules rules).sights = w.sights :=
  SameView.sights_eq ⟨rfl, rfl, rfl, rfl, rfl, rfl⟩

theorem walk_withRules {rules : List Rule}
    (h : ∀ root project, Plan.rootOf d plan.root = .ok root →
      ProjectKind.rulesAt d root = .ok project →
      Rule.extend project rules = Rule.extend project plan.rules) :
    walker.walk d (plan.withRules rules) clock now = walker.walk d plan clock now := by
  have hplans : ofPlan walker d (plan.withRules rules) clock =
      (ofPlan walker d plan clock).map (·.withRules rules) := by
    refine ofPlan_map rfl (fun _ _ => rfl) (fun _ => rfl) (fun _ => rfl) rfl
      fun root project output stray deadline hroot hproject => ?_
    rw [← h root project hroot hproject]
    rfl
  refine walk_eq_of_map hplans fun w hw hw' => ?_
  rw [walk_of_ofPlan hw, walk_of_ofPlan hw', sights_withRules]
  rfl

end Walk

end SourceScan
