import SourceScan.Proofs.Disk.Change
import SourceScan.Proofs.Disk.Twins
import SourceScan.Proofs.Walk.Report

/-!
# Walks past hidden places

On a disk without links a walk comes to a place under one path only.  If its rules take
away all hidden places, it comes across the same on twin disks, but for the turns of the
hidden places themselves.
-/

namespace SourceScan.Walk

open FileTree Disk

variable {walker : Walker} {d : Disk} {plan : Plan} {clock : Clock} {w : Walk}

/-! ## Walks without links -/

structure Unlinked (w : Walk) : Prop where
  wellFormed : w.disk.tree.wellFormed = true
  linkFree : w.disk.tree.LinkFree
  slashes : w.root.slashes = 1
  directory : ∃ children, w.disk.tree.at? w.root.names = some (.dir children)

namespace Unlinked

variable {names : List FileName} {name : FileName} {place : Place} {t : FileTree}

theorem pathOf_eq (h : w.Unlinked) (names : List FileName) :
    w.pathOf names = absolute (w.root.names ++ names) := by
  rw [pathOf, h.slashes, absolute]

theorem entries (h : w.Unlinked) (hnames : ∀ name ∈ names, isEntryName name = true) :
    ∀ name ∈ w.root.names ++ names, isEntryName name = true := by
  obtain ⟨children, hdir⟩ := h.directory
  intro name hname
  rcases List.mem_append.1 hname with hname | hname
  · exact isEntryName_of_mem h.wellFormed hdir name hname
  · exact hnames name hname

theorem reaches_iff (h : w.Unlinked) (hnames : ∀ name ∈ names, isEntryName name = true) :
    w.disk.Reaches (w.pathOf names) place t ↔
      place = w.root.names ++ names ∧ w.disk.tree.at? (w.root.names ++ names) = some t := by
  rw [h.pathOf_eq, reaches_absolute_iff h.wellFormed h.linkFree (h.entries hnames)]

theorem real_eq (h : w.Unlinked) (hnames : ∀ name ∈ names, isEntryName name = true) :
    w.real names = .ok (absolute (w.root.names ++ names)) := by
  rw [Walk.real, h.pathOf_eq]
  exact resolve_absolute h.wellFormed h.linkFree (h.entries hnames)

theorem isLink (h : w.Unlinked) (names : List FileName) :
    w.disk.isLink (w.pathOf names) = false := by
  unfold Disk.isLink
  split
  · next hfind =>
      exact absurd (at?_of_findFrom (find_eq_ok_iff.1 hfind)) (h.linkFree _ _)
  · rfl

theorem opens_root (h : w.Unlinked) : w.Opens [] := by
  obtain ⟨children, hdir⟩ := h.directory
  refine ⟨w.root.names, children, ?_, fun hne => absurd rfl hne⟩
  rw [h.reaches_iff (by simp), List.append_nil]
  exact ⟨rfl, hdir⟩

theorem accepts_iff (h : w.Unlinked) (hnames : ∀ name ∈ names, isEntryName name = true) :
    w.Accepts names place t ↔
      (place = w.root.names ++ names ∧ w.disk.tree.at? (w.root.names ++ names) = some t) ∧
      ∃ text, (Path.joined names).text? = some text ∧
        w.excludes text t.isDirectory = false := by
  rw [← h.reaches_iff hnames]
  constructor
  · rintro ⟨hreach, -, hkept⟩
    exact ⟨hreach, hkept⟩
  · rintro ⟨hreach, hkept⟩
    refine ⟨hreach, fun hlink => ?_, hkept⟩
    rw [h.isLink] at hlink
    cases hlink

theorem holds_iff (h : w.Unlinked) (hnames : ∀ name ∈ names, isEntryName name = true) :
    w.Holds names name ↔
      (w.disk.tree.at? (w.root.names ++ (names ++ [name]))).isSome = true := by
  rw [← List.append_assoc]
  constructor
  · rintro ⟨place, children, hreach, hmem⟩
    obtain ⟨rfl, hat⟩ := (h.reaches_iff hnames).1 hreach
    obtain ⟨t, hget⟩ := get?_of_mem hmem
    rw [at?_snoc, hat]
    exact Option.isSome_iff_exists.2 ⟨t, hget⟩
  · intro hsome
    obtain ⟨t, hat⟩ := Option.isSome_iff_exists.1 hsome
    obtain ⟨children, hdir, hget⟩ := directory_of_at?_snoc hat
    exact ⟨_, children, (h.reaches_iff hnames).2 ⟨rfl, hdir⟩,
      List.mem_map.2 ⟨_, mem_of_get? hget, rfl⟩⟩

theorem not_shadowed (h : w.Unlinked) (hnames : ∀ name ∈ names, isEntryName name = true) :
    ¬w.Shadowed names := by
  rintro ⟨other, hother, hbefore, -, hreal⟩
  have henters := ((listing_mem_iff h.wellFormed h.opens_root).1 hother).1
  rw [h.real_eq henters.named, h.real_eq hnames] at hreal
  have hsame : w.root.names ++ other = w.root.names ++ names :=
    congrArg Path.names (Except.ok.inj hreal)
  rw [List.append_cancel_left hsame] at hbefore
  exact NamesBefore.irrefl _ hbefore

theorem lost_iff (h : w.Unlinked) (hnames : ∀ name ∈ names, isEntryName name = true)
    (hopens : w.Opens names) :
    w.Lost names ↔ (w.disk.refused? .list (w.pathOf names)).isSome = true := by
  obtain ⟨place, children, hreach, -⟩ := hopens
  unfold Lost Refused
  rw [or_iff_left (h.not_shadowed hnames)]
  constructor
  · rintro ⟨e, he⟩
    rw [← Option.ne_none_iff_isSome]
    intro hnone
    rw [hreach.list hnone] at he
    cases he
  · intro hsome
    obtain ⟨fault, hfault⟩ := Option.isSome_iff_exists.1 hsome
    unfold Disk.list
    rw [hfault]
    exact ⟨_, rfl⟩

end Unlinked

/-! ## Walks of twins -/

theorem turn_nil_not_mem (hd : w.disk.tree.wellFormed = true) : .turn [] ∉ w.sights :=
  fun hturn => (dirSights_ordered hd _ [] []).notTurn _ hturn rfl rfl

def Overlooks (w : Walk) (names : List FileName) : Prop :=
  ∃ text, (Path.joined names).text? = some text ∧
    w.excludes text false = true

/-- Nothing but its turn comes of what stands at the path. -/
def Ignores (w : Walk) (names : List FileName) : Prop :=
  ∀ x ∈ w.sights, x.names = names → x = .turn names

theorem Unlinked.of_sight (h : w.Unlinked) {x : Sight} (hx : x ∈ w.sights)
    (hne : x ≠ .turn x.names) : ∃ t, w.disk.tree.at? (w.root.names ++ x.names) = some t ∧
      (t.isDirectory = false → ¬w.Overlooks x.names) := by
  have hd := h.wellFormed
  have hroot := h.opens_root
  cases x with
  | turn names => exact absurd rfl hne
  | listing dir =>
      have henters := ((listing_mem_iff hd hroot).1 hx).1
      obtain ⟨place, children, hreach, -⟩ := henters.opens dir (List.prefix_refl _)
      exact ⟨_, ((h.reaches_iff henters.named).1 hreach).2, fun hplain => by cases hplain⟩
  | failure names e =>
      obtain ⟨rfl, -⟩ := (failure_mem_iff hd hroot).1 hx
      obtain ⟨children, hdir⟩ := h.directory
      refine ⟨.dir children, ?_, fun hplain => by cases hplain⟩
      rw [← hdir]
      exact congrArg (at? · _) (List.append_nil _)
  | misnamed names =>
      obtain ⟨dir, name, heq, -⟩ := entry_names hd hroot hx rfl
      obtain rfl : names = dir ++ [name] := heq
      obtain ⟨⟨henters, -⟩, hholds, htext⟩ := (misnamed_mem_iff hd hroot).1 hx
      obtain ⟨t, hat⟩ := Option.isSome_iff_exists.1 ((h.holds_iff henters.named).1 hholds)
      refine ⟨t, hat, fun _ => ?_⟩
      rintro ⟨text, hsome, -⟩
      exact absurd (htext.symm.trans hsome) (by simp)
  | file names size =>
      have hnamed : ∀ name ∈ names, isEntryName name = true :=
        (named_of_entry hd hroot hx rfl).2
      have hkeeps := course_sights hd hroot names List.nil_prefix
      obtain ⟨-, place, content, haccepts, -⟩ := (hkeeps.file_iff size).1 hx
      obtain ⟨⟨rfl, hat⟩, text, htext, hkept⟩ := (h.accepts_iff hnamed).1 haccepts
      refine ⟨_, hat, fun _ => ?_⟩
      rintro ⟨text', htext', hexcludes⟩
      obtain rfl : text = text' := Option.some.inj (htext.symm.trans htext')
      rw [show (FileTree.file content).isDirectory = false from rfl, hexcludes] at hkept
      cases hkept

theorem Unlinked.ignores (h : w.Unlinked) {names : List FileName}
    (hgone : ∀ t, w.disk.tree.at? (w.root.names ++ names) = some t →
      t.isDirectory = false ∧ w.Overlooks names) : w.Ignores names := by
  rintro x hx rfl
  by_contra hne
  obtain ⟨t, hat, hseen⟩ := h.of_sight hx hne
  obtain ⟨hplain, hoverlooks⟩ := hgone t hat
  exact hseen hplain hoverlooks

structure Twins (hidden : Place → Prop) (w : Walk) (d' : Disk) : Prop where
  disks : w.disk.Twins hidden d'
  slashes : w.root.slashes = 1
  directory : ∃ children, w.disk.tree.at? w.root.names = some (.dir children)
  ignores : ∀ names, hidden (w.root.names ++ names) → w.Ignores names
  ignores' : ∀ names, hidden (w.root.names ++ names) → (w.onDisk d').Ignores names

def Remains (w : Walk) (d' : Disk) (names : List FileName) : Prop :=
  (w.disk.tree.at? (w.root.names ++ names)).isSome = true →
    (d'.tree.at? (w.root.names ++ names)).isSome = true

def Passes (top : Place) (hidden : Place → Prop) : Sight → Prop
  | .turn names => hidden (top ++ names)
  | _ => False

namespace Twins

variable {hidden : Place → Prop} {d' : Disk} {names : List FileName} {name : FileName}
  {place : Place} {content : Bytes}

theorem symm (h : w.Twins hidden d') : (w.onDisk d').Twins hidden w.disk := by
  obtain ⟨children, hdir⟩ := h.directory
  exact ⟨h.disks.symm, h.slashes, h.disks.alike.directory hdir, h.ignores', h.ignores⟩

theorem unlinked (h : w.Twins hidden d') : w.Unlinked :=
  ⟨h.disks.wellFormed, h.disks.linkFree, h.slashes, h.directory⟩

theorem seen_of_mem (h : w.Twins hidden d') {x : Sight} (hx : x ∈ w.sights)
    (hne : x ≠ .turn x.names) : ¬hidden (w.root.names ++ x.names) :=
  fun hhidden => hne (h.ignores _ hhidden x hx rfl)

theorem remains (h : w.Twins hidden d') (hseen : ¬hidden (w.root.names ++ names)) :
    w.Remains d' names := by
  intro hthere
  rwa [← h.disks.alike.isSome hseen]

section Named

variable (h : w.Twins hidden d') (hnames : ∀ name ∈ names, isEntryName name = true)
include h hnames

theorem accepts_file (hseen : ¬hidden (w.root.names ++ names))
    (haccepts : w.Accepts names place (.file content)) :
    (w.onDisk d').Accepts names place (.file content) := by
  obtain ⟨⟨rfl, hat⟩, hkept⟩ := (h.unlinked.accepts_iff hnames).1 haccepts
  exact (h.symm.unlinked.accepts_iff hnames).2 ⟨⟨rfl, h.disks.alike.file hseen hat⟩, hkept⟩

theorem opens (hopens : w.Opens names) : (w.onDisk d').Opens names := by
  obtain ⟨place, children, hreach, haccepts⟩ := hopens
  obtain ⟨rfl, hat⟩ := (h.unlinked.reaches_iff hnames).1 hreach
  obtain ⟨children', hat'⟩ := h.disks.alike.directory hat
  refine ⟨w.root.names ++ names, children', ?_, fun hne => ?_⟩
  · exact (h.symm.unlinked.reaches_iff hnames).2 ⟨rfl, hat'⟩
  · obtain ⟨-, hkept⟩ := (h.unlinked.accepts_iff hnames).1 (haccepts hne)
    exact (h.symm.unlinked.accepts_iff hnames).2 ⟨⟨rfl, hat'⟩, hkept⟩

theorem holds (hthere : w.Remains d' (names ++ [name])) (hholds : w.Holds names name) :
    (w.onDisk d').Holds names name :=
  (h.symm.unlinked.holds_iff hnames).2
    (hthere ((h.unlinked.holds_iff hnames).1 hholds))

theorem lost (hopens : w.Opens names) (hlost : (w.onDisk d').Lost names) : w.Lost names := by
  rw [h.symm.unlinked.lost_iff hnames (h.opens hnames hopens)] at hlost
  rw [h.unlinked.lost_iff hnames hopens, ← h.disks.refused?]
  exact hlost

end Named

theorem enters (h : w.Twins hidden d') (henters : w.Enters names) :
    (w.onDisk d').Enters names := by
  have hnamed : ∀ above, above <+: names → ∀ name ∈ above, isEntryName name = true :=
    fun above habove name hname => henters.named name (habove.subset hname)
  refine ⟨henters.named, fun above habove => ?_, fun above below hab hbelow hne heq => ?_⟩
  · exact h.opens (hnamed above habove) (henters.opens above habove)
  · rw [h.symm.unlinked.real_eq (hnamed above (hab.trans hbelow)),
      h.symm.unlinked.real_eq (hnamed below hbelow)] at heq
    exact hne (List.append_cancel_left (congrArg Path.names (Except.ok.inj heq)))

theorem not_lost (h : w.Twins hidden d') (henters : w.Enters names)
    (hlost : ∀ above, above <+: names → ¬w.Lost above) :
    ∀ above, above <+: names → ¬(w.onDisk d').Lost above := by
  intro above habove hlost'
  refine hlost above habove (h.lost ?_ (henters.opens above habove) hlost')
  exact fun name hname => henters.named name (habove.subset hname)

/-! ## The same sights -/

theorem list_root (h : w.Twins hidden d') {cause : DiskError}
    (hlist : w.disk.list (w.pathOf []) = .error cause) :
    d'.list (w.pathOf []) = .error cause := by
  obtain ⟨place, children, hreach, -⟩ := h.unlinked.opens_root
  cases hrefused : w.disk.refused? .list (w.pathOf []) with
  | none =>
      rw [hreach.list hrefused] at hlist
      cases hlist
  | some fault =>
      rw [← hlist]
      unfold Disk.list
      rw [h.disks.refused?, hrefused]

theorem turn_mem (h : w.Twins hidden d') {dir : List FileName}
    (hthere : w.Remains d' (dir ++ [name])) (hturn : .turn (dir ++ [name]) ∈ w.sights) :
    .turn (dir ++ [name]) ∈ (w.onDisk d').sights := by
  obtain ⟨henters, hholds, hlost⟩ :=
    (came_iff h.disks.wellFormed h.unlinked.opens_root).1 (.inr hturn)
  have hcomes := (came_iff h.disks.wellFormed' h.symm.unlinked.opens_root).2
    ⟨h.enters henters, h.holds henters.named hthere hholds, h.not_lost henters hlost⟩
  exact hcomes.resolve_left (by simp)

theorem listing_mem (h : w.Twins hidden d') (hlisting : .listing names ∈ w.sights) :
    .listing names ∈ (w.onDisk d').sights := by
  obtain ⟨henters, hlost, -⟩ :=
    (listing_mem_iff h.disks.wellFormed h.unlinked.opens_root).1 hlisting
  refine (listing_mem_iff h.disks.wellFormed' h.symm.unlinked.opens_root).2
    ⟨h.enters henters, fun above habove hne hlost' => ?_, ?_⟩
  · refine hlost above habove hne (h.lost ?_ (henters.opens above habove) hlost')
    exact fun name hname => henters.named name (habove.subset hname)
  · exact h.symm.unlinked.not_shadowed henters.named

theorem file_mem (h : w.Twins hidden d') {size : Nat}
    (hfile : .file names size ∈ w.sights) : .file names size ∈ (w.onDisk d').sights := by
  have hd := h.disks.wellFormed
  have hroot := h.unlinked.opens_root
  obtain ⟨-, hnames⟩ := named_of_entry hd hroot hfile rfl
  obtain ⟨dir, name, heq, -⟩ := entry_names hd hroot hfile rfl
  obtain rfl : names = dir ++ [name] := heq
  obtain ⟨⟨henters, hlost⟩, hname, place, content, haccepts, hsize⟩ :=
    (file_mem_iff hd hroot).1 hfile
  exact (file_mem_iff h.disks.wellFormed' h.symm.unlinked.opens_root).2
    ⟨⟨h.enters henters, h.not_lost henters hlost⟩, hname, place, content,
      h.accepts_file hnames (h.seen_of_mem hfile (by simp)) haccepts, hsize⟩

theorem misnamed_mem (h : w.Twins hidden d') (hmisnamed : .misnamed names ∈ w.sights) :
    .misnamed names ∈ (w.onDisk d').sights := by
  have hd := h.disks.wellFormed
  have hroot := h.unlinked.opens_root
  obtain ⟨dir, name, heq, -⟩ := entry_names hd hroot hmisnamed rfl
  obtain rfl : names = dir ++ [name] := heq
  obtain ⟨⟨henters, hlost⟩, hholds, htext⟩ := (misnamed_mem_iff hd hroot).1 hmisnamed
  have hseen : ¬hidden (w.root.names ++ (dir ++ [name])) :=
    h.seen_of_mem hmisnamed (by simp)
  exact (misnamed_mem_iff h.disks.wellFormed' h.symm.unlinked.opens_root).2
    ⟨⟨h.enters henters, h.not_lost henters hlost⟩,
      h.holds henters.named (h.remains hseen) hholds, htext⟩

theorem mem_sights (h : w.Twins hidden d') {x : Sight}
    (hthere : ∀ names, x = .turn names → w.Remains d' names) (hx : x ∈ w.sights) :
    x ∈ (w.onDisk d').sights := by
  cases x with
  | listing dir => exact h.listing_mem hx
  | turn names =>
      rcases List.eq_nil_or_concat' names with rfl | ⟨dir, name, rfl⟩
      · exact absurd hx (turn_nil_not_mem h.disks.wellFormed)
      · exact h.turn_mem (hthere _ rfl) hx
  | misnamed names => exact h.misnamed_mem hx
  | file names size => exact h.file_mem hx
  | failure names e =>
      obtain ⟨rfl, cause, hlist, rfl⟩ :=
        (failure_mem_iff h.disks.wellFormed h.unlinked.opens_root).1 hx
      exact (failure_mem_iff h.disks.wellFormed' h.symm.unlinked.opens_root).2
        ⟨rfl, cause, h.list_root hlist, rfl⟩

theorem mem_sights_of_seen (h : w.Twins hidden d') {x : Sight}
    (hseen : ¬Passes w.root.names hidden x) (hx : x ∈ w.sights) :
    x ∈ (w.onDisk d').sights := by
  refine h.mem_sights (fun names heq => h.remains ?_) hx
  subst heq
  exact hseen

theorem sights_eq (h : w.Twins hidden d') (hboth : ∀ place, hidden place →
      (w.disk.tree.at? place).isSome = (d'.tree.at? place).isSome) :
    (w.onDisk d').sights = w.sights := by
  have hthere : ∀ names, (w.disk.tree.at? (w.root.names ++ names)).isSome =
      (d'.tree.at? (w.root.names ++ names)).isSome := by
    intro names
    by_cases hhidden : hidden (w.root.names ++ names)
    · exact hboth _ hhidden
    · exact h.disks.alike.isSome hhidden
  refine (sights_pairwise (w := w.onDisk d') h.disks.wellFormed').eq_of_mem_iff
    (sights_pairwise h.disks.wellFormed) fun x => ⟨fun hx => ?_, fun hx => ?_⟩
  · exact h.symm.mem_sights (fun names _ hsome => (hthere names).trans hsome) hx
  · exact h.mem_sights (fun names _ hsome => (hthere names).symm.trans hsome) hx

open scoped Classical in
theorem sights_filter (h : w.Twins hidden d') :
    (w.onDisk d').sights.filter (¬Passes w.root.names hidden ·) =
      w.sights.filter (¬Passes w.root.names hidden ·) := by
  have hfirst := (sights_pairwise h.disks.wellFormed).filter (¬Passes w.root.names hidden ·)
  have hsecond := (sights_pairwise (w := w.onDisk d') h.disks.wellFormed').filter
    (¬Passes w.root.names hidden ·)
  refine hsecond.eq_of_mem_iff hfirst fun x => ?_
  simp only [List.mem_filter, decide_eq_true_eq]
  constructor
  · rintro ⟨hx, hseen⟩
    exact ⟨h.symm.mem_sights_of_seen hseen hx, hseen⟩
  · rintro ⟨hx, hseen⟩
    exact ⟨h.mem_sights_of_seen hseen hx, hseen⟩

theorem reading (h : w.Twins hidden d') {size : Nat} (hfile : .file names size ∈ w.sights) :
    (w.onDisk d').reading names size = w.reading names size := by
  have hd := h.disks.wellFormed
  have hroot := h.unlinked.opens_root
  obtain ⟨-, hnames⟩ := named_of_entry hd hroot hfile rfl
  obtain ⟨dir, name, heq, -⟩ := entry_names hd hroot hfile rfl
  obtain rfl : names = dir ++ [name] := heq
  obtain ⟨-, -, place, content, haccepts, -⟩ := (file_mem_iff hd hroot).1 hfile
  have haccepts' : (w.onDisk d').Accepts (dir ++ [name]) place (.file content) :=
    h.accepts_file hnames (h.seen_of_mem hfile (by simp)) haccepts
  have hread : (w.onDisk d').disk.readFile ((w.onDisk d').pathOf (dir ++ [name])) =
      w.disk.readFile (w.pathOf (dir ++ [name])) := by
    unfold Disk.readFile
    rw [haccepts.reaches.stat, haccepts'.reaches.stat,
      show (w.onDisk d').disk.refused? .read ((w.onDisk d').pathOf (dir ++ [name])) = _ from
        h.disks.refused? _ _]
    rfl
  unfold Walk.reading
  rw [hread]
  rfl

end Twins

/-! ## The same report -/

theorem isEntryName_marker {kind : ProjectKind} (hkind : kind ∈ ProjectKind.all)
    {marker : Text} (hmarker : marker ∈ kind.markers) :
    isEntryName (RawText.ofText marker) = true := by
  have hall : ∀ kind ∈ ProjectKind.all, ∀ marker ∈ kind.markers,
      isEntryName (RawText.ofText marker) = true := by decide
  exact hall kind hkind marker hmarker

section Plans

variable {hidden : Place → Prop} {d' : Disk} {top : Place}
  {children : List (FileName × FileTree)} {now : Calendar.DateTime}

/-- A plan calls for the same walk on twins unless a file that tells the kind of the
project is hidden. -/
theorem ofPlan_twins (h : d.Twins hidden d') (hreal : d.resolve plan.root = .ok (absolute top))
    (hdir : d.tree.at? top = some (.dir children))
    (hmarkers : ∀ kind ∈ ProjectKind.all, ∀ marker ∈ kind.markers,
      ¬hidden (top ++ [RawText.ofText marker])) :
    ofPlan walker d' plan clock = (ofPlan walker d plan clock).map (·.onDisk d') := by
  refine ofPlan_onDisk (h.rootOf hreal hdir) (fun root hsame => ?_)
    fun target _ => h.resolve target
  obtain rfl : absolute top = root := Except.ok.inj (hreal.symm.trans (resolve_of_rootOf hsame))
  exact rulesAt_congr fun kind hkind marker hmarker =>
    h.isFile_entry hdir (isEntryName_marker hkind hmarker) (hmarkers kind hkind marker hmarker)

theorem twins_of_ofPlan (h : d.Twins hidden d')
    (hreal : d.resolve plan.root = .ok (absolute top))
    (hdir : d.tree.at? top = some (.dir children))
    (hw : ofPlan walker d plan clock = .ok w)
    (hignores : w.Unlinked → ∀ names, hidden (top ++ names) → w.Ignores names)
    (hignores' : (w.onDisk d').Unlinked → ∀ names, hidden (top ++ names) →
      (w.onDisk d').Ignores names) :
    w.Twins hidden d' := by
  have hprepared := prepared_of_ofPlan hw
  have hroot : w.root = absolute top :=
    Except.ok.inj ((resolve_of_rootOf hprepared.root).symm.trans hreal)
  obtain rfl := hprepared.sameDisk
  obtain rfl : w.root.names = top := by rw [hroot, absolute]
  have hslashes : w.root.slashes = 1 := by rw [hroot, absolute]
  have hunlinked : w.Unlinked := ⟨h.wellFormed, h.linkFree, hslashes, children, hdir⟩
  have hunlinked' : (w.onDisk d').Unlinked :=
    ⟨h.wellFormed', h.linkFree', hslashes, h.alike.directory hdir⟩
  exact ⟨h, hslashes, ⟨children, hdir⟩, hignores hunlinked, hignores' hunlinked'⟩

theorem meetAll_filter {p : Sight → Bool} {xs : List Sight}
    (hp : ∀ x ∈ xs, p x = false → ∀ s, w.meet s x = .ok s) (s : Progress) :
    w.meetAll (xs.filter p) s = w.meetAll xs s := by
  induction xs generalizing s with
  | nil => rfl
  | cons x xs ih =>
      have hrest := ih fun y hy => hp y (List.mem_cons_of_mem _ hy)
      rw [List.filter_cons, meetAll_cons]
      cases hx : p x with
      | true =>
          rw [if_pos rfl, meetAll_cons]
          exact congrArg _ (funext hrest)
      | false =>
          rw [if_neg Bool.false_ne_true, hp x List.mem_cons_self hx s]
          exact hrest s

theorem meet_passes_of_untimed (huntimed : w.deadline = none) {x : Sight}
    (hx : Passes top hidden x) (s : Progress) : w.meet s x = .ok s := by
  cases x with
  | turn names =>
      unfold meet checkDeadline
      rw [huntimed]
      exact ite_self _
  | listing dir => exact hx.elim
  | misnamed names => exact hx.elim
  | file names size => exact hx.elim
  | failure names e => exact hx.elim

theorem Twins.meetAll_sights (h : w.Twins hidden d') (s : Progress) :
    (w.onDisk d').meetAll w.sights s = w.meetAll w.sights s :=
  meetAll_onDisk (fun _ _ hfile => h.reading hfile) s

theorem Twins.meetAll_of_untimed (h : w.Twins hidden d') (huntimed : w.deadline = none)
    (s : Progress) :
    (w.onDisk d').meetAll (w.onDisk d').sights s = w.meetAll w.sights s := by
  classical
  have hskip : ∀ (v : Walk) (xs : List Sight) (s : Progress), v.deadline = none →
      v.meetAll (xs.filter (¬Passes w.root.names hidden ·)) s = v.meetAll xs s := by
    intro v xs s hv
    refine meetAll_filter (fun x _ hx => ?_) s
    have hpasses : Passes w.root.names hidden x := by simpa using hx
    exact meet_passes_of_untimed hv hpasses
  rw [← hskip (w.onDisk d') _ _ huntimed, h.sights_filter,
    hskip (w.onDisk d') _ _ huntimed]
  exact h.meetAll_sights s

/-- Walks of twins report the same if there is no deadline or if there is something at the
same hidden places. -/
theorem Twins.walk_eq (h : w.Twins hidden d') (hplan : ofPlan walker d plan clock = .ok w)
    (hplan' : ofPlan walker d' plan clock = .ok (w.onDisk d'))
    (hsame : plan.scanTimeout = .null ∨ ∀ place, hidden place →
      (w.disk.tree.at? place).isSome = (d'.tree.at? place).isSome) :
    walker.walk d' plan clock now = walker.walk d plan clock now := by
  have hmeet : (w.onDisk d').meetAll (w.onDisk d').sights w.start =
      w.meetAll w.sights w.start := by
    rcases hsame with huntimed | hboth
    · have hprepared := (prepared_of_ofPlan hplan).deadline
      rw [huntimed] at hprepared
      exact h.meetAll_of_untimed (Except.ok.inj hprepared).symm w.start
    · rw [h.sights_eq hboth]
      exact h.meetAll_sights w.start
  rw [walk_of_ofPlan hplan, walk_of_ofPlan hplan',
    show (w.onDisk d').start = w.start from rfl, hmeet]
  rfl

end Plans

end SourceScan.Walk
