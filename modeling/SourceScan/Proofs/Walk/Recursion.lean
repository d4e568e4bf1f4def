import SourceScan.Proofs.Walk.Confinement

/-!
# The recursion of a walk

`Runs` is the recursion through directories as it is, without a bound on its depth.  Each
call of it that does not return at once adds a real directory inside the root that none of
the calls around it has added.  So it ends, and its depth is bounded by the number of these
directories, wherever links lead.
-/

namespace SourceScan

open FileTree Disk

/-- A call of the recursion.  The calls around it have added the real paths `active`, that of
the innermost one first. -/
structure Call where
  active : List Path
  dir : List FileName
  visited : List Path

def Call.depth (c : Call) : Nat := c.active.length + 1

inductive Task where
  | directory (dir : List FileName)
  | entries (dir names : List FileName)

namespace Walk

variable {walker : Walker} {d : Disk} {plan : Plan} {clock : Clock}
  {now : Calendar.DateTime} {w : Walk} {active : List Path} {dir names : List FileName}
  {name : FileName} {s t : Progress} {r out : Except ScanError Progress} {task : Task}
  {calls : List Call}

/-! ## Calls without a bound -/

/-- A call that has added `active` before comes to the task and goes through with it.  In the
course of that it makes the calls, and what comes out is `out`. -/
inductive Runs (w : Walk) :
    List Path → Task → Except ScanError Progress → List Call → Except ScanError Progress → Prop
  | unresolved {active : List Path} {dir : List FileName} {s : Progress} {e : Unresolved} :
      w.real dir = .error e →
      Runs w active (.directory dir) (.ok s) [⟨active, dir, s.visited⟩] (.error (.unresolved e))
  | again {active : List Path} {dir : List FileName} {s : Progress} {p : Path} :
      w.real dir = .ok p → p ∈ s.visited →
      Runs w active (.directory dir) (.ok s) [⟨active, dir, s.visited⟩] (.ok s)
  | refused {active : List Path} {dir : List FileName} {s : Progress} {p : Path} {e : DiskError} :
      w.real dir = .ok p → p ∉ s.visited → w.disk.list (w.pathOf dir) = .error e →
      Runs w active (.directory dir) (.ok s) [⟨active, dir, s.visited⟩]
        (if dir.isEmpty then .error (.rootUnreadable e) else .ok (s.within (p :: s.visited)))
  | listed {active : List Path} {dir entries : List FileName} {s : Progress} {p : Path}
      {calls : List Call} {out : Except ScanError Progress} :
      w.real dir = .ok p → p ∉ s.visited → w.disk.list (w.pathOf dir) = .ok entries →
      Runs w (p :: active) (.entries dir (sortNames entries)) (.ok (s.within (p :: s.visited)))
        calls out →
      Runs w active (.directory dir) (.ok s) (⟨active, dir, s.visited⟩ :: calls)
        (out.map fun t => t.within (t.visited.filter (· ≠ p)))
  | done {active : List Path} {dir : List FileName} {r : Except ScanError Progress} :
      Runs w active (.entries dir []) r [] r
  | broken {active : List Path} {dir names : List FileName} {e : ScanError} :
      Runs w active (.entries dir names) (.error e) [] (.error e)
  | passed {active : List Path} {dir names : List FileName} {name : FileName} {s : Progress}
      {r : Except ScanError Progress} {calls : List Call} {out : Except ScanError Progress} :
      (∀ descend, w.visitEntry descend (w.pathOf dir) dir s name = r) →
      Runs w active (.entries dir names) r calls out →
      Runs w active (.entries dir (name :: names)) (.ok s) calls out
  | entered {active : List Path} {dir names : List FileName} {name : FileName} {s t : Progress}
      {r : Except ScanError Progress} {inner calls : List Call}
      {out : Except ScanError Progress} :
      (∀ descend, w.visitEntry descend (w.pathOf dir) dir s name =
        descend (w.pathOf (dir ++ [name])) (dir ++ [name]) t) →
      Runs w active (.directory (dir ++ [name])) (.ok t) inner r →
      Runs w active (.entries dir names) r calls out →
      Runs w active (.entries dir (name :: names)) (.ok s) (inner ++ calls) out

def perform (w : Walk) (fuel : Nat) : Task → Step
  | .directory dir => w.directory fuel (w.pathOf dir) dir
  | .entries dir names => names.foldlM (w.visitEntry (w.directory fuel) (w.pathOf dir) dir)

theorem directory_of_real {p : Path} (hreal : w.real dir = .ok p) (fuel : Nat) :
    w.directory (fuel + 1) (w.pathOf dir) dir s =
      if p ∈ s.visited then .ok s
      else
        match w.disk.list (w.pathOf dir) with
        | .error e =>
            if dir.isEmpty then .error (.rootUnreadable e)
            else .ok (s.within (p :: s.visited))
        | .ok entries =>
            (w.perform fuel (.entries dir (sortNames entries)) (s.within (p :: s.visited))).map
              fun t => t.within (t.visited.filter (· ≠ p)) := by
  rw [directory, show w.disk.resolve (w.pathOf dir) = .ok p from hreal]
  change (if p ∈ s.visited then Except.ok s else _) = _
  by_cases hvisited : p ∈ s.visited
  · rw [if_pos hvisited, if_pos hvisited]
  · rw [if_neg hvisited, if_neg hvisited]
    cases w.disk.list (w.pathOf dir) with
    | error e => rfl
    | ok entries =>
        simp only [perform, Progress.within]
        cases (sortNames entries).foldlM (w.visitEntry (w.directory fuel) (w.pathOf dir) dir)
          { s with visited := p :: s.visited } <;> rfl

theorem exists_bound {c : Call} {fuel : Nat} (h : c.depth ≤ c.active.length + fuel) :
    ∃ rest, fuel = rest + 1 :=
  Nat.exists_eq_add_of_le' (by rw [Call.depth] at h; omega)

theorem Runs.perform_eq (h : w.Runs active task r calls out) {fuel : Nat}
    (hfuel : ∀ c ∈ calls, c.depth ≤ active.length + fuel) : r >>= w.perform fuel task = out := by
  induction h generalizing fuel with
  | unresolved hreal =>
      obtain ⟨fuel, rfl⟩ := exists_bound (hfuel _ List.mem_cons_self)
      change w.directory (fuel + 1) _ _ _ = _
      rw [directory, show w.disk.resolve (w.pathOf _) = _ from hreal]
      rfl
  | again hreal hvisited =>
      obtain ⟨fuel, rfl⟩ := exists_bound (hfuel _ List.mem_cons_self)
      exact (directory_of_real hreal fuel).trans (if_pos hvisited)
  | refused hreal hnew hlist =>
      obtain ⟨fuel, rfl⟩ := exists_bound (hfuel _ List.mem_cons_self)
      refine (directory_of_real hreal fuel).trans ((if_neg hnew).trans ?_)
      rw [hlist]
  | listed hreal hnew hlist hentries ih =>
      obtain ⟨fuel, rfl⟩ := exists_bound (hfuel _ List.mem_cons_self)
      refine (directory_of_real hreal fuel).trans ((if_neg hnew).trans ?_)
      rw [hlist]
      -- One more call is under way, and the bound on the depth is one less.
      refine congrArg (Except.map _) (ih fun c hc => ?_)
      have hdepth := hfuel c (List.mem_cons_of_mem _ hc)
      rw [List.length_cons]
      omega
  | @done active dir r =>
      cases r <;> rfl
  | broken => rfl
  | passed hentry hrest ih =>
      have hlater := ih hfuel
      rw [← hentry (w.directory fuel)] at hlater
      exact hlater
  | entered hentry hcall hrest ihcall ihrest =>
      have hinner := ihcall fun c hc => hfuel c (List.mem_append_left _ hc)
      have hlater := ihrest fun c hc => hfuel c (List.mem_append_right _ hc)
      rw [← hinner] at hlater
      change w.visitEntry (w.directory fuel) _ _ _ _ >>= _ = _
      rw [hentry]
      exact hlater

/-! ## What the calls do -/

def Again (w : Walk) (c : Call) : Prop := ∃ p ∈ c.visited, w.real c.dir = .ok p

def Inside (w : Walk) (top : Place) (p : Path) : Prop :=
  ∃ place children, p = absolute place ∧ top <+: place ∧
    w.disk.tree.at? place = some (.dir children)

/-- The call adds a real directory inside the root that no call around it has added. -/
def Adds (w : Walk) (top : Place) (c : Call) : Prop :=
  ∃ p, w.real c.dir = .ok p ∧ w.Inside top p ∧ p ∉ c.visited ∧ p ∉ c.active

/-- The calls around have added different directories inside the root, all of which count as
visited. -/
structure Stack (w : Walk) (top : Place) (active visited : List Path) : Prop where
  nodup : active.Nodup
  inside : ∀ p ∈ active, w.Inside top p
  visited : active ⊆ visited

theorem Stack.length_le {top : Place} {entries : List (FileName × FileTree)}
    {visited : List Path} (h : w.Stack top active visited)
    (htop : w.disk.tree.at? top = some (.dir entries)) :
    active.length ≤ (FileTree.dir entries).dirCount := by
  have hbelow : ∀ p ∈ active, ∃ rest children, p = absolute (top ++ rest) ∧
      (FileTree.dir entries).at? rest = some (.dir children) := by
    intro p hp
    obtain ⟨place, children, rfl, ⟨rest, rfl⟩, hat⟩ := h.inside p hp
    rw [at?_append, htop] at hat
    exact ⟨rest, children, rfl, hat⟩
  have hnodup : (active.map fun p => p.names.drop top.length).Nodup := by
    refine List.Nodup.map_on ?_ h.nodup
    intro p hp q hq heq
    obtain ⟨rest, _, rfl, -⟩ := hbelow p hp
    obtain ⟨rest', _, rfl, -⟩ := hbelow q hq
    simp only [absolute, List.drop_left] at heq
    rw [heq]
  have hdirs : ∀ rest ∈ active.map fun p => p.names.drop top.length,
      ∃ children, (FileTree.dir entries).at? rest = some (.dir children) := by
    intro rest hrest
    obtain ⟨p, hp, rfl⟩ := List.mem_map.1 hrest
    obtain ⟨rest, children, rfl, hat⟩ := hbelow p hp
    exact ⟨children, by simpa [absolute] using hat⟩
  have hlength := length_le_dirCount hnodup hdirs
  rwa [List.length_map] at hlength

theorem Stack.enter {top : Place} {visited : List Path} {p : Path}
    (h : w.Stack top active visited) (hinside : w.Inside top p) (hnew : p ∉ visited) :
    w.Stack top (p :: active) (p :: visited) := by
  refine ⟨List.nodup_cons.2 ⟨fun hp => hnew (h.visited hp), h.nodup⟩, ?_,
    List.cons_subset_cons p h.visited⟩
  rintro q (_ | ⟨_, hq⟩)
  · exact hinside
  · exact h.inside q hq

/-! ## Every task ends -/

section Entries

variable (hd : w.disk.tree.wellFormed = true) {place : Place}
  {children : List (FileName × FileTree)}
  (hdir : w.disk.Reaches (w.pathOf dir) place (.dir children))
  (hmem : name ∈ children.map (·.1))
include hd hdir hmem

theorem takeUp_cases (s : Progress) :
    (∃ r, (∀ descend, w.takeUp descend (dir ++ [name]) s = r) ∧
      ∀ t, r = .ok t → t.visited = s.visited) ∨
    ∃ last entries, w.Accepts (dir ++ [name]) last (.dir entries) ∧
      ∀ descend, w.takeUp descend (dir ++ [name]) s =
        descend (w.pathOf (dir ++ [name])) (dir ++ [name]) s := by
  have hsame : ∀ t, (.ok s : Except ScanError Progress) = .ok t → t.visited = s.visited := by
    rintro t ⟨⟩
    rfl
  unfold takeUp
  cases htext : (Path.joined (dir ++ [name])).text? with
  | none =>
      refine .inl ⟨_, fun _ => rfl, ?_⟩
      rintro t ⟨⟩
      rfl
  | some text =>
      rcases admits_cases hd hdir hmem htext with
        ⟨last, t, haccepts, hadmits⟩ | ⟨-, hadmits | ⟨hadmits, hlook⟩⟩
      · simp only [hadmits]
        cases t with
        | dir entries => exact .inr ⟨last, entries, haccepts, fun _ => rfl⟩
        | file content =>
            refine .inl ⟨w.visitFile (w.pathOf (dir ++ [name])) (Path.joined (dir ++ [name]))
              content.length s, fun _ => ?_, fun t => visitFile_visited⟩
            simp only [isDirectory, haccepts.reaches.look]
            rfl
        | link target =>
            refine .inl ⟨.ok s, fun _ => ?_, hsame⟩
            simp only [isDirectory, haccepts.reaches.look]
            rfl
        | pipe =>
            refine .inl ⟨.ok s, fun _ => ?_, hsame⟩
            simp only [isDirectory, haccepts.reaches.look]
            rfl
      · simp only [hadmits]
        exact .inl ⟨.ok s, fun _ => rfl, hsame⟩
      · simp only [hadmits, hlook]
        exact .inl ⟨.ok s, fun _ => rfl, hsame⟩

theorem visitEntry_cases (s : Progress) :
    (∃ r, (∀ descend, w.visitEntry descend (w.pathOf dir) dir s name = r) ∧
      ∀ t, r = .ok t → t.visited = s.visited) ∨
    ∃ last entries t, w.Accepts (dir ++ [name]) last (.dir entries) ∧ t.visited = s.visited ∧
      ∀ descend, w.visitEntry descend (w.pathOf dir) dir s name =
        descend (w.pathOf (dir ++ [name])) (dir ++ [name]) t := by
  have hchecked := w.checkDeadline_visited s
  cases hs : s.stopped with
  | true =>
      refine .inl ⟨.ok s, fun descend => ?_, ?_⟩
      · simp only [visitEntry, hs, if_true]
        rfl
      · rintro t ⟨⟩
        rfl
  | false =>
      have hvisit : ∀ descend, w.visitEntry descend (w.pathOf dir) dir s name =
          if (w.checkDeadline s).stopped then .ok (w.checkDeadline s)
          else w.takeUp descend (dir ++ [name]) (w.checkDeadline s) :=
        fun descend => visitEntry_eq hs
      cases hstop : (w.checkDeadline s).stopped with
      | true =>
          refine .inl ⟨.ok (w.checkDeadline s), fun descend => ?_, ?_⟩
          · rw [hvisit, hstop, if_pos rfl]
          · rintro t ⟨⟩
            exact hchecked
      | false =>
          simp only [hstop, Bool.false_eq_true, if_false] at hvisit
          rcases takeUp_cases hd hdir hmem (w.checkDeadline s) with
            ⟨r, hr, hsame⟩ | ⟨last, entries, haccepts, hdescend⟩
          · exact .inl ⟨r, fun descend => (hvisit descend).trans (hr descend),
              fun t ht => (hsame t ht).trans hchecked⟩
          · exact .inr ⟨last, entries, w.checkDeadline s, haccepts, hchecked,
              fun descend => (hvisit descend).trans (hdescend descend)⟩

end Entries

def Proper (w : Walk) (top : Place) (limit : Nat) (c : Call) : Prop :=
  c.depth ≤ limit ∧ (w.Again c ∨ w.Adds top c)

def Ends (w : Walk) (top : Place) (limit : Nat) (active : List Path) (task : Task)
    (s : Progress) : Prop :=
  ∃ calls out, w.Runs active task (.ok s) calls out ∧ (∀ c ∈ calls, w.Proper top limit c) ∧
    ∀ t, out = .ok t → s.visited ⊆ t.visited

section Ends

variable {top : Place} {limit : Nat} {children : List (FileName × FileTree)}

theorem ends_cons {inner : List Call}
    (hstep : ∀ calls out, w.Runs active (.entries dir names) r calls out →
      w.Runs active (.entries dir (name :: names)) (.ok s) (inner ++ calls) out)
    (hinner : ∀ c ∈ inner, w.Proper top limit c)
    (hgrows : ∀ u, r = .ok u → s.visited ⊆ u.visited)
    (hrest : ∀ u, r = .ok u → w.Ends top limit active (.entries dir names) u) :
    w.Ends top limit active (.entries dir (name :: names)) s := by
  cases r with
  | error e => exact ⟨inner ++ [], _, hstep _ _ .broken, by simpa using hinner, by simp⟩
  | ok u =>
      obtain ⟨calls, out, hruns, hcalls, hlater⟩ := hrest u rfl
      refine ⟨inner ++ calls, out, hstep _ _ hruns, fun c hc => ?_, fun t ht => ?_⟩
      · exact (List.mem_append.1 hc).elim (hinner c) (hcalls c)
      · exact List.Subset.trans (hgrows u rfl) (hlater t ht)

theorem ends_entries (hd : w.disk.tree.wellFormed = true) {place : Place}
    (hdir : w.disk.Reaches (w.pathOf dir) place (.dir children))
    (hnames : ∀ name ∈ names, name ∈ children.map (·.1))
    (hbelow : ∀ name ∈ names, ∀ last entries t, w.Accepts (dir ++ [name]) last (.dir entries) →
      active ⊆ t.visited → w.Ends top limit active (.directory (dir ++ [name])) t)
    (hactive : active ⊆ s.visited) : w.Ends top limit active (.entries dir names) s := by
  induction names generalizing s with
  | nil =>
      refine ⟨[], .ok s, .done, by simp, ?_⟩
      rintro t ⟨⟩
      exact List.Subset.refl _
  | cons name names ih =>
      have hrest := fun u => @ih u (fun other hother => hnames other (by simp [hother]))
        fun other hother => hbelow other (by simp [hother])
      rcases visitEntry_cases hd hdir (hnames name List.mem_cons_self) s with
        ⟨r, hentry, hsame⟩ | ⟨last, entries, t, haccepts, hsame, hentry⟩
      · have hnone : ∀ c ∈ ([] : List Call), w.Proper top limit c := by simp
        refine ends_cons (fun _ _ => .passed hentry) hnone (fun u hu => ?_) fun u hu => hrest u ?_
        · rw [hsame u hu]
          exact List.Subset.refl _
        · rw [hsame u hu]
          exact hactive
      · obtain ⟨inner, r, hcall, hinner, hgrows⟩ :=
          hbelow name List.mem_cons_self last entries t haccepts (hsame ▸ hactive)
        rw [hsame] at hgrows
        exact ends_cons (fun _ _ => .entered hentry hcall) hinner hgrows
          fun u hu => hrest u (List.Subset.trans hactive (hgrows u hu))

theorem ends_again {p : Path} (hreal : w.real dir = .ok p) (hvisited : p ∈ s.visited)
    (hdepth : active.length + 1 ≤ limit) : w.Ends top limit active (.directory dir) s := by
  refine ⟨_, _, .again hreal hvisited, ?_, ?_⟩
  · rintro c (_ | ⟨_, ⟨⟩⟩)
    exact ⟨hdepth, .inl ⟨p, hvisited, hreal⟩⟩
  · rintro t ⟨⟩
    exact List.Subset.refl _

theorem ends_new {p : Path} (hreal : w.real dir = .ok p) (hnew : p ∉ s.visited)
    (hstack : w.Stack top active s.visited) (hinside : w.Inside top p)
    (hdepth : active.length + 1 ≤ limit)
    (hentries : ∀ names, w.disk.list (w.pathOf dir) = .ok names →
      w.Ends top limit (p :: active) (.entries dir (sortNames names))
        (s.within (p :: s.visited))) :
    w.Ends top limit active (.directory dir) s := by
  have hproper : w.Proper top limit ⟨active, dir, s.visited⟩ :=
    ⟨hdepth, .inr ⟨p, hreal, hinside, hnew, fun hp => hnew (hstack.visited hp)⟩⟩
  cases hlist : w.disk.list (w.pathOf dir) with
  | error e =>
      refine ⟨_, _, .refused hreal hnew hlist, by simpa using hproper, fun t ht => ?_⟩
      split at ht
      · cases ht
      · cases ht
        exact List.subset_cons_self p s.visited
  | ok names =>
      obtain ⟨calls, out, hruns, hcalls, hgrows⟩ := hentries names hlist
      refine ⟨_, _, .listed hreal hnew hlist hruns, List.forall_mem_cons.2 ⟨hproper, hcalls⟩,
        fun t ht q hq => ?_⟩
      obtain ⟨u, hu, rfl⟩ := ok_of_map ht
      -- The directory itself is taken back, but it was not among those visited before.
      have hne : q ≠ p := fun heq => hnew (heq ▸ hq)
      exact List.mem_filter.2 ⟨hgrows u hu (List.mem_cons_of_mem p hq), by simpa using hne⟩

/-- Every directory that is added leaves one less to add. -/
theorem ends_directory (hd : w.disk.tree.wellFormed = true)
    {entries : List (FileName × FileTree)}
    (htop : w.disk.Reaches w.root top (.dir entries)) {active : List Path}
    {dir : List FileName} {s : Progress} {place : Place} {children : List (FileName × FileTree)}
    (hdir : w.disk.Reaches (w.pathOf dir) place (.dir children)) (hwithin : top <+: place)
    (hstack : w.Stack top active s.visited) :
    w.Ends top ((FileTree.dir entries).dirCount + 1) active (.directory dir) s := by
  have hat := (htop.leads hd).1
  have hreal : w.real dir = .ok (absolute place) := hdir.resolve hd
  have hdepth := Nat.succ_le_succ (hstack.length_le hat)
  by_cases hvisited : absolute place ∈ s.visited
  · exact ends_again hreal hvisited hdepth
  · have hinside : w.Inside top (absolute place) :=
      ⟨place, children, rfl, hwithin, (hdir.leads hd).1⟩
    have henter := hstack.enter hinside hvisited
    have hlength := henter.length_le hat
    refine ends_new hreal hvisited hstack hinside hdepth fun names hlist => ?_
    obtain rfl := hdir.list_eq hlist
    refine ends_entries hd hdir (fun name => List.mem_mergeSort.1) ?_ henter.visited
    intro name hname last below t haccepts hactive
    have hentry : isEntryName name = true :=
      Holds.isEntryName hd ⟨place, children, hdir, List.mem_mergeSort.1 hname⟩
    exact ends_directory hd htop haccepts.reaches
      (haccepts.within hd htop hdir hwithin hentry) ⟨henter.nodup, henter.inside, hactive⟩
termination_by (FileTree.dir entries).dirCount + 1 - active.length
decreasing_by
  rw [List.length_cons] at hlength ⊢
  omega

end Ends

/-- A walk ends, whatever links there are.  Each call of its recursion returns at once or adds
a real directory inside the root that no call around it has added, and the calls are no deeper
than the number of these directories and one more. -/
theorem walk_ends (hd : d.tree.wellFormed = true) :
    match ofPlan walker d plan clock with
    | .error e => walker.walk d plan clock now = .error e
    | .ok w => ∃ top entries calls out, d.Reaches w.root top (.dir entries) ∧
        w.Runs [] (.directory []) (.ok w.start) calls out ∧
        walker.walk d plan clock now = out.map (w.report now) ∧
        (∀ fuel, (FileTree.dir entries).dirCount < fuel →
          w.directory fuel w.root [] w.start = out) ∧
        ∀ c ∈ calls, c.depth ≤ (FileTree.dir entries).dirCount + 1 ∧
          (w.Again c ∨ w.Adds top c) := by
  cases hw : ofPlan walker d plan clock with
  | error e => exact walk_of_ofPlan_error hw
  | ok w =>
      have hprepared := prepared_of_ofPlan hw
      obtain rfl := hprepared.sameDisk
      obtain ⟨top, entries, htop⟩ := reaches_of_rootOf hprepared.root
      have hstack : w.Stack top [] w.start.visited := ⟨.nil, by simp, by simp⟩
      have hroot : w.disk.Reaches (w.pathOf []) top (.dir entries) := (pathOf_nil w).symm ▸ htop
      obtain ⟨calls, out, hruns, hcalls, -⟩ :=
        ends_directory hd htop hroot (List.prefix_refl top) hstack
      have hout : ∀ fuel, (FileTree.dir entries).dirCount < fuel →
          w.directory fuel w.root [] w.start = out := by
        intro fuel hfuel
        have hperform : (Except.ok w.start >>= w.perform fuel (.directory [])) = out := by
          refine hruns.perform_eq fun c hc => ?_
          have hdepth := (hcalls c hc).1
          rw [List.length_nil]
          omega
        rwa [← pathOf_nil w]
      refine ⟨top, entries, calls, out, htop, hruns, ?_, hout, hcalls⟩
      obtain ⟨visited, hmeet⟩ := w.directory_eq_meetAll
      have hcount := dirCount_le_of_at? (htop.leads hd).1
      rw [hout _ (Nat.lt_succ_of_le hcount)] at hmeet
      rw [walk_of_ofPlan hw, hmeet]
      cases w.meetAll w.sights w.start <;> rfl

/-! ## A link to the root -/

def loopDisk : Disk :=
  ⟨.dir [(topName, .file []), (linkName, .link (RawText.ofText "/"))], [], [], []⟩

def loopWalk : Walk := { mixedWalk with disk := loopDisk }

theorem walk_ends_loop : ∃ calls out,
    loopWalk.Runs [] (.directory []) (.ok loopWalk.start) calls out ∧
      (∀ c ∈ calls, c.depth ≤ 2) ∧
        mixedWalker.walk loopDisk mixedPlan stillClock default =
          out.map (loopWalk.report default) := by
  have hplan : ofPlan mixedWalker loopDisk mixedPlan stillClock = .ok loopWalk := by cbv
  have h := @walk_ends mixedWalker loopDisk mixedPlan stillClock default (by decide)
  rw [hplan] at h
  obtain ⟨top, entries, calls, out, htop, hruns, hwalk, -, hcalls⟩ := h
  have hroot : loopDisk.Reaches loopWalk.root [] loopDisk.tree :=
    reaches_absolute (by decide) rfl rfl
  obtain ⟨-, hentries⟩ := htop.unique hroot
  refine ⟨calls, out, hruns, fun c hc => ?_, hwalk⟩
  have hdepth := (hcalls c hc).1
  rw [hentries] at hdepth
  exact hdepth

end Walk

end SourceScan
