import SourceScan.Proofs.Walk.Records

/-!
# What a walk has access to

The accesses of a walk are the directories that it lists and the files that it reads.
What the disk refuses makes a difference to a walk at its accesses alone.  Wherever links
lead, each access is to the root or to something below it, because a link is followed only
to a real path that lies there, and everything else lies in a directory that does.
-/

namespace SourceScan

def Disk.withRefusals (d : Disk) (refusals : List Refusal) : Disk := { d with refusals }

def Disk.Within (d : Disk) (top p : Path) : Prop :=
  ∃ real, d.resolve p = .ok real ∧ (real.relativeTo? top).isSome = true

namespace Walk

open FileTree Disk

variable {walker : Walker} {d : Disk} {plan : Plan} {clock : Clock}
  {now : Calendar.DateTime} {w : Walk} {refusals : List Refusal}

def access? (w : Walk) : Sight → Option (Access × Path)
  | .listing names => some (.list, w.pathOf names)
  | .file names _ => some (.read, w.pathOf names)
  | _ => none

/-- What a walk lists and reads unless it stops before. -/
def accesses (w : Walk) : List (Access × Path) := w.sights.filterMap w.access?

theorem list_mem_accesses {dir : List FileName} (h : .listing dir ∈ w.sights) :
    (.list, w.pathOf dir) ∈ w.accesses :=
  List.mem_filterMap.2 ⟨_, h, rfl⟩

theorem mem_accesses {access : Access} {p : Path} (h : (access, p) ∈ w.accesses) :
    (∃ dir, .listing dir ∈ w.sights ∧ access = .list ∧ p = w.pathOf dir) ∨
      ∃ names size, .file names size ∈ w.sights ∧ access = .read ∧ p = w.pathOf names := by
  obtain ⟨x, hx, haccess⟩ := List.mem_filterMap.1 h
  cases x with
  | listing dir =>
      cases haccess
      exact .inl ⟨dir, hx, rfl, rfl⟩
  | file names size =>
      cases haccess
      exact .inr ⟨names, size, hx, rfl, rfl⟩
  | turn names => cases haccess
  | misnamed names => cases haccess
  | failure names e => cases haccess

/-! ## Refusals elsewhere -/

def SameRefusals (w : Walk) (d : Disk) (xs : List Sight) : Prop :=
  ∀ x ∈ xs, ∀ a, w.access? x = some a → d.refused? a.1 a.2 = w.disk.refused? a.1 a.2

theorem SameRefusals.subset {xs ys : List Sight} (h : w.SameRefusals d ys) (hsub : xs ⊆ ys) :
    w.SameRefusals d xs :=
  fun x hx => h x (hsub hx)

theorem SameRefusals.list {xs : List Sight} {dir : List FileName}
    (h : w.SameRefusals (w.disk.withRefusals refusals) xs) (hdir : .listing dir ∈ xs) :
    (w.disk.withRefusals refusals).list (w.pathOf dir) = w.disk.list (w.pathOf dir) := by
  have hsame := h _ hdir _ rfl
  unfold Disk.list
  rw [hsame]
  rfl

theorem SameRefusals.reading {xs : List Sight} {names : List FileName} {size : Nat}
    (h : w.SameRefusals (w.disk.withRefusals refusals) xs) (hfile : .file names size ∈ xs) :
    (w.onDisk (w.disk.withRefusals refusals)).reading names size = w.reading names size := by
  have hsame := h _ hfile _ rfl
  have hread : (w.disk.withRefusals refusals).readFile (w.pathOf names) =
      w.disk.readFile (w.pathOf names) := by
    unfold Disk.readFile
    rw [hsame]
    rfl
  unfold Walk.reading
  rw [show (w.onDisk (w.disk.withRefusals refusals)).disk.readFile
    ((w.onDisk (w.disk.withRefusals refusals)).pathOf names) = _ from hread]
  rfl

theorem sightsAt_withRefusals {below below' : List FileName → List Path → Sights}
    {names : List FileName} {visited : List Path}
    (h : w.SameRefusals (w.disk.withRefusals refusals) (below names visited).1 →
      below' names visited = below names visited)
    (hsame : w.SameRefusals (w.disk.withRefusals refusals)
      (w.sightsAt below names visited).1) :
    (w.onDisk (w.disk.withRefusals refusals)).sightsAt below' names visited =
      w.sightsAt below names visited := by
  change w.sightsAt below' names visited = _
  unfold sightsAt at hsame ⊢
  cases htext : (Path.joined names).text? with
  | none => rfl
  | some text =>
      simp only [htext] at hsame ⊢
      cases hadmits : w.admits (w.pathOf names) text with
      | error e => rfl
      | ok admitted =>
          simp only [hadmits] at hsame ⊢
          rcases admitted with _ | _ | _
          · rfl
          · rfl
          · exact h hsame

theorem entriesSights_withRefusals {below below' : List FileName → List Path → Sights}
    (h : ∀ names visited, w.SameRefusals (w.disk.withRefusals refusals)
        (below names visited).1 → below' names visited = below names visited)
    (dir names : List FileName) (visited : List Path)
    (hsame : w.SameRefusals (w.disk.withRefusals refusals)
      (w.entriesSights below dir names visited).1) :
    (w.onDisk (w.disk.withRefusals refusals)).entriesSights below' dir names visited =
      w.entriesSights below dir names visited := by
  induction names generalizing visited with
  | nil => rfl
  | cons name names ih =>
      have hentry := sightsAt_withRefusals (h (dir ++ [name]) visited) (hsame.subset
        (List.subset_append_of_subset_left _ (List.subset_cons_self _ _)))
      have hrest := ih (w.entrySights below dir name visited).2
        (hsame.subset (List.subset_append_right _ _))
      simp only [entriesSights, entrySights, hentry] at hrest ⊢
      rw [hrest]

theorem dirSights_withRefusals (fuel : Nat) (dir : List FileName) (visited : List Path)
    (hsame : w.SameRefusals (w.disk.withRefusals refusals)
      (w.dirSights fuel dir visited).1) :
    (w.onDisk (w.disk.withRefusals refusals)).dirSights fuel dir visited =
      w.dirSights fuel dir visited := by
  induction fuel generalizing dir visited with
  | zero => rfl
  | succ fuel ih =>
      have hpath : (w.onDisk (w.disk.withRefusals refusals)).pathOf dir = w.pathOf dir := rfl
      have hresolve : (w.onDisk (w.disk.withRefusals refusals)).disk.resolve (w.pathOf dir) =
          w.disk.resolve (w.pathOf dir) := rfl
      rw [dirSights, dirSights, hpath, hresolve]
      rw [dirSights] at hsame
      cases hreal : w.disk.resolve (w.pathOf dir) with
      | error e => rfl
      | ok real =>
          simp only [hreal] at hsame ⊢
          by_cases hvisited : real ∈ visited
          · simp only [hvisited, if_true]
          · simp only [hvisited, if_false] at hsame ⊢
            have hlist : (w.onDisk (w.disk.withRefusals refusals)).disk.list (w.pathOf dir) =
                w.disk.list (w.pathOf dir) := by
              refine hsame.list ?_
              split <;> exact List.mem_cons_self
            rw [hlist]
            cases hentries : w.disk.list (w.pathOf dir) with
            | error e => rfl
            | ok entries =>
                simp only [hentries] at hsame ⊢
                rw [entriesSights_withRefusals ih dir (sortNames entries) (real :: visited)
                  (hsame.subset (List.subset_cons_self _ _))]

theorem ofPlan_withRefusals : ofPlan walker (d.withRefusals refusals) plan clock =
    (ofPlan walker d plan clock).map (·.onDisk (d.withRefusals refusals)) :=
  ofPlan_onDisk rfl (fun _ _ => rulesAt_congr fun _ _ _ _ => rfl) fun _ _ => rfl

theorem walk_withRefusals (h : ofPlan walker d plan clock = .ok w)
    (hsame : ∀ a ∈ w.accesses,
      (d.withRefusals refusals).refused? a.1 a.2 = d.refused? a.1 a.2) :
    walker.walk (d.withRefusals refusals) plan clock now =
      walker.walk d plan clock now := by
  have hdisk := (prepared_of_ofPlan h).sameDisk
  subst hdisk
  have hplan : ofPlan walker (w.disk.withRefusals refusals) plan clock =
      .ok (w.onDisk (w.disk.withRefusals refusals)) := by
    rw [ofPlan_withRefusals, h]
    rfl
  have hsights : w.SameRefusals (w.disk.withRefusals refusals) w.sights :=
    fun x hx a ha => hsame a (List.mem_filterMap.2 ⟨x, hx, ha⟩)
  have hsights' : (w.onDisk (w.disk.withRefusals refusals)).sights = w.sights :=
    congrArg Prod.fst (dirSights_withRefusals _ _ _ hsights)
  rw [walk_of_ofPlan h, walk_of_ofPlan hplan, hsights']
  have hmeet := meetAll_onDisk (w := w) (d := w.disk.withRefusals refusals)
    (fun names size hfile => hsights.reading hfile) w.start
  rw [show (w.onDisk (w.disk.withRefusals refusals)).start = w.start from rfl, hmeet]
  rfl

/-! ## Nothing outside of the root -/

theorem text_of_reading {names : List FileName} {place : Place} {content : Bytes}
    {size : Nat} {r : FileRecord} (hreach : w.disk.Reaches (w.pathOf names) place (.file content))
    (h : w.reading names size = .ok r) :
    ∃ text, Utf8.decode content = .ok text ∧ r = w.recordOf names size text := by
  unfold Walk.reading Disk.readFile at h
  rw [hreach.stat] at h
  split at h
  · cases h
  · next bytes hbytes =>
      split at hbytes
      · cases hbytes
      · cases hbytes
        split at h
        · cases h
        · next text htext =>
            cases h
            exact ⟨text, htext, rfl⟩

section Within

variable {top : Place} {entries : List (FileName × FileTree)}

theorem prefix_of_relativeTo? (hd : w.disk.tree.wellFormed = true)
    (htop : w.disk.Reaches w.root top (.dir entries)) {p : Path} {place : Place}
    {t : FileTree} (hstart : HasPlain w.disk.tree (w.disk.startOf p))
    (hreach : w.disk.Reaches p place t)
    (h : ((absolute place).relativeTo? w.root).isSome = true) : top <+: place := by
  obtain ⟨rest, hrest⟩ := Option.isSome_iff_exists.1 h
  rw [Path.relativeTo?_eq_some] at hrest
  obtain ⟨hslashes, rfl⟩ := Path.mk.inj hrest
  have hroot : w.root = absolute w.root.names := by
    rw [absolute, hslashes]
  rw [hroot] at htop
  cases rest with
  | nil =>
      obtain ⟨last, u, heq, hlast⟩ :=
        reaches_of_resolveStrict? hd hstart (hreach.resolveStrict? hd)
      rw [List.append_nil] at hlast ⊢
      obtain rfl : w.root.names = last := by simpa [absolute] using heq
      exact (htop.unique hlast).1 ▸ List.prefix_refl _
  | cons name rest =>
      have hat := (hreach.leads hd).1
      rw [at?_append] at hat
      obtain ⟨u, hu, hbelow⟩ := Option.bind_eq_some_iff.1 hat
      have hplain : u.isLink = false := by
        cases u with
        | link target => cases hbelow
        | file content => rfl
        | dir children => rfl
        | pipe => rfl
      exact (htop.unique (reaches_absolute hd hu hplain)).1 ▸ List.prefix_append _ _

theorem Accepts.within (hd : w.disk.tree.wellFormed = true)
    (htop : w.disk.Reaches w.root top (.dir entries)) {names : List FileName}
    {name : FileName} {parent place : Place} {children : List (FileName × FileTree)}
    {t : FileTree} (hdir : w.disk.Reaches (w.pathOf names) parent (.dir children))
    (hparent : top <+: parent) (hname : isEntryName name = true)
    (haccepts : w.Accepts (names ++ [name]) place t) : top <+: place := by
  have hreach := haccepts.reaches
  cases hlink : w.disk.isLink (w.pathOf (names ++ [name])) with
  | true =>
      have hstart : HasPlain w.disk.tree
          (w.disk.startOf (w.pathOf (names ++ [name]))) := by
        have h := hdir.startOf hd
        exact h
      exact prefix_of_relativeTo? hd htop hstart hreach (haccepts.inside hlink).1
  | false =>
      rw [pathOf_snoc] at hlink hreach
      obtain ⟨parent', children', u, hdir', hget, hplace⟩ := hreach.parent hd hname
      rw [hdir'.isLink_child hd hget] at hlink
      rw [(hplace hlink).1, (hdir'.unique hdir).1]
      exact hparent.trans (List.prefix_append _ _)

theorem Enters.within (hd : w.disk.tree.wellFormed = true)
    (htop : w.disk.Reaches w.root top (.dir entries)) {names : List FileName}
    (h : w.Enters names) : ∃ place children,
      w.disk.Reaches (w.pathOf names) place (.dir children) ∧ top <+: place := by
  induction names using List.reverseRecOn with
  | nil => exact ⟨top, entries, by rwa [pathOf_nil], List.prefix_refl _⟩
  | append_singleton names name ih =>
      obtain ⟨parent, children, hdir, hparent⟩ := ih (h.above (List.prefix_append _ _))
      obtain ⟨place, inner, hreach, haccepts⟩ := h.opens _ (List.prefix_refl _)
      exact ⟨place, inner, hreach,
        (haccepts (by simp)).within hd htop hdir hparent (h.named name (by simp))⟩

theorem reaches_of_file (hd : w.disk.tree.wellFormed = true) (hroot : w.Opens [])
    (htop : w.disk.Reaches w.root top (.dir entries)) {names : List FileName} {size : Nat}
    (h : .file names size ∈ w.sights) : ∃ place content,
      w.disk.Reaches (w.pathOf names) place (.file content) ∧ content.length = size ∧
        top <+: place := by
  obtain ⟨dir, name, hnames, henters, hname⟩ := entry_names hd hroot h rfl
  obtain rfl : names = dir ++ [name] := hnames
  obtain ⟨-, -, place, content, haccepts, hsize⟩ := (file_mem_iff hd hroot).1 h
  obtain ⟨parent, children, hdir, hparent⟩ := henters.within hd htop
  exact ⟨place, content, haccepts.reaches, hsize,
    haccepts.within hd htop hdir hparent hname⟩

end Within

theorem relativeTo?_absolute {top place : Place} (h : top <+: place) :
    ((absolute place).relativeTo? (absolute top)).isSome = true := by
  obtain ⟨rest, rfl⟩ := h
  rw [Option.isSome_iff_exists]
  exact ⟨rest, Path.relativeTo?_eq_some.2 rfl⟩

/-- Every directory that a walk lists and every file that it reads lies inside the root,
whatever links lead there.  Refusals elsewhere make no difference, and each record is
taken from the content of a file inside the root. -/
theorem walk_confined (hd : d.tree.wellFormed = true) :
    match ofPlan walker d plan clock with
    | .error e => ∀ refusals,
        walker.walk (d.withRefusals refusals) plan clock now = .error e
    | .ok w => ∃ top, d.resolve w.root = .ok top ∧
        (∀ a ∈ w.accesses, d.Within top a.2) ∧
        (∀ refusals, (∀ a ∈ w.accesses,
            (d.withRefusals refusals).refused? a.1 a.2 = d.refused? a.1 a.2) →
          walker.walk (d.withRefusals refusals) plan clock now =
            walker.walk d plan clock now) ∧
        ∀ report, walker.walk d plan clock now = .ok report → ∀ r ∈ report.records,
          ∃ names place content text, d.Reaches (w.pathOf names) place (.file content) ∧
            ((absolute place).relativeTo? top).isSome = true ∧
            Utf8.decode content = .ok text ∧ r = w.recordOf names content.length text := by
  cases h : ofPlan walker d plan clock with
  | error e =>
      intro refusals
      have hplan : ofPlan walker (d.withRefusals refusals) plan clock = .error e := by
        rw [ofPlan_withRefusals, h]
        rfl
      exact walk_of_ofPlan_error hplan
  | ok w =>
      have hprepared := prepared_of_ofPlan h
      have hroot := hprepared.opens_root
      obtain rfl := hprepared.sameDisk
      obtain ⟨top, entries, htop⟩ := reaches_of_rootOf hprepared.root
      refine ⟨absolute top, htop.resolve hd, ?_, fun _ => walk_withRefusals h, ?_⟩
      · rintro ⟨access, p⟩ ha
        rcases mem_accesses ha with ⟨dir, hlisting, -, rfl⟩ | ⟨names, size, hfile, -, rfl⟩
        · obtain ⟨place, children, hreach, hwithin⟩ :=
            ((listing_mem_iff hd hroot).1 hlisting).1.within hd htop
          exact ⟨_, hreach.resolve hd, relativeTo?_absolute hwithin⟩
        · obtain ⟨place, content, hreach, -, hwithin⟩ := reaches_of_file hd hroot htop hfile
          exact ⟨_, hreach.resolve hd, relativeTo?_absolute hwithin⟩
      · intro report hwalk r hr
        obtain ⟨names, size, hfile, hreading⟩ := record_of_walk h hwalk hr
        obtain ⟨place, content, hreach, rfl, hwithin⟩ := reaches_of_file hd hroot htop hfile
        obtain ⟨text, htext, hrecord⟩ := text_of_reading hreach hreading
        exact ⟨names, place, content, text, hreach, relativeTo?_absolute hwithin, htext,
          hrecord⟩

/-! ## A link that leads out of the root -/

def outwardDisk : Disk :=
  ⟨.dir [([.char 'r'], .dir [(topName, .file []), (linkName, .link (RawText.ofText "/s"))]),
    (shutName, .file [])], [], [], []⟩

def outwardPlan : Plan := { mixedPlan with root := ⟨1, [[.char 'r']]⟩ }

def outwardWalk : Walk :=
  { mixedWalk with disk := outwardDisk, plan := outwardPlan, root := ⟨1, [[.char 'r']]⟩ }

theorem walk_confined_outward : ∃ top, outwardDisk.resolve outwardWalk.root = .ok top ∧
    (.list, outwardWalk.root) ∈ outwardWalk.accesses ∧
    ∀ a ∈ outwardWalk.accesses, outwardDisk.Within top a.2 := by
  have hplan : ofPlan mixedWalker outwardDisk outwardPlan stillClock = .ok outwardWalk := by
    cbv
  have hlisting : .listing [] ∈ outwardWalk.sights :=
    listing_root_mem (by decide) (prepared_of_ofPlan hplan).opens_root
  have h := @walk_confined mixedWalker outwardDisk outwardPlan stillClock default (by decide)
  rw [hplan] at h
  obtain ⟨top, htop, haccesses, -⟩ := h
  exact ⟨top, htop, list_mem_accesses hlisting, haccesses⟩

end Walk

end SourceScan
