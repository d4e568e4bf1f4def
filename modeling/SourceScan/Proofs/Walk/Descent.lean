import SourceScan.Proofs.Walk.Course

/-!
# The descent of a walk

The walk goes down from the root with a bound on the depth, and takes the real path of
each directory that it is in or was denied into account.  There are at most as many such
paths as directories, so the bound is never reached, and by induction on it all sights
keep to the rules of a course.
-/

namespace SourceScan.Walk

open FileTree Disk

variable {w : Walk} {below : List FileName → List Path → Sights}

/-! ## Listings are of directories that open -/

theorem exists_of_mem_entriesSights {dir names : List FileName} {visited : List Path}
    {x : Sight} (h : x ∈ (w.entriesSights below dir names visited).1) :
    ∃ name ∈ names, x = .turn (dir ++ [name]) ∨
      ∃ inner, x ∈ (w.sightsAt below (dir ++ [name]) inner).1 := by
  induction names generalizing visited with
  | nil => simp [entriesSights] at h
  | cons name names ih =>
      rcases List.mem_append.1 h with h | h
      · refine ⟨name, List.mem_cons_self, ?_⟩
        rcases List.mem_cons.1 h with h | h
        · exact .inl h
        · exact .inr ⟨_, h⟩
      · obtain ⟨other, hother, h⟩ := ih h
        exact ⟨other, List.mem_cons_of_mem _ hother, h⟩

theorem opens_of_listing_entries (hd : w.disk.tree.wellFormed = true)
    {dir names other : List FileName} {visited : List Path} {place : Place}
    {children : List (FileName × FileTree)}
    (hdir : w.disk.Reaches (w.pathOf dir) place (.dir children))
    (hnames : ∀ name ∈ names, name ∈ children.map (·.1))
    (hbelow : ∀ dir visited, w.Opens dir → .listing other ∈ (below dir visited).1 →
      w.Opens other)
    (h : .listing other ∈ (w.entriesSights below dir names visited).1) :
    w.Opens other := by
  obtain ⟨name, hname, h | ⟨inner, h⟩⟩ := exists_of_mem_entriesSights h
  · cases h
  · rcases sightsAt_cases hd hdir (hnames name hname) below inner with
      ⟨-, heq⟩ | ⟨last, entries, haccepts, heq⟩ | ⟨_, _, -, heq⟩ | ⟨-, -, -, heq⟩
    · simp [heq] at h
    · rw [heq] at h
      exact hbelow _ _ ⟨last, entries, haccepts.reaches, fun _ => haccepts⟩ h
    · simp [heq] at h
    · simp [heq] at h

theorem opens_of_listing (hd : w.disk.tree.wellFormed = true) {fuel : Nat}
    {dir other : List FileName} {visited : List Path} (hopens : w.Opens dir)
    (h : .listing other ∈ (w.dirSights fuel dir visited).1) : w.Opens other := by
  induction fuel generalizing dir visited with
  | zero => simp [dirSights] at h
  | succ fuel ih =>
      unfold dirSights at h
      split at h
      · simp at h
      · split at h
        · simp at h
        · split at h
          · have hsame : other = dir := by
              split at h <;> simpa using h
            exact hsame ▸ hopens
          · next entries hlist =>
              obtain ⟨place, children, hreach, -⟩ := id hopens
              obtain rfl := hreach.list_eq hlist
              rcases List.mem_cons.1 h with heq | h
              · cases heq
                exact hopens
              · exact opens_of_listing_entries hd hreach
                  (fun name => List.mem_mergeSort.1) (fun _ _ => ih) h

/-! ## The bound on the depth -/

/-- The walk counts real directories as visited, each of them once, and what is left of
its bound is enough for all others. -/
structure Bounded (w : Walk) (fuel : Nat) (visited : List Path) : Prop where
  nodup : visited.Nodup
  directory : ∀ p ∈ visited, ∃ place children, p = absolute place ∧
    w.disk.tree.at? place = some (.dir children)
  enough : w.disk.tree.dirCount < fuel + visited.length

namespace Bounded

variable {fuel : Nat} {visited : List Path}

theorem pos (h : w.Bounded fuel visited) : fuel ≠ 0 := by
  have hplaces : (visited.map (·.names)).Nodup := by
    refine List.Nodup.map_on ?_ h.nodup
    intro p hp q hq heq
    obtain ⟨place, _, rfl, -⟩ := h.directory p hp
    obtain ⟨place', _, rfl, -⟩ := h.directory q hq
    exact congrArg absolute heq
  have hdirs : ∀ place ∈ visited.map (·.names),
      ∃ children, w.disk.tree.at? place = some (.dir children) := by
    intro place hplace
    obtain ⟨p, hp, rfl⟩ := List.mem_map.1 hplace
    obtain ⟨place, children, rfl, hat⟩ := h.directory p hp
    exact ⟨children, hat⟩
  -- Without a rest of the bound more directories were visited than there are.
  have hlen := length_le_dirCount hplaces hdirs
  have henough := h.enough
  rw [List.length_map] at hlen
  omega

theorem enter (h : w.Bounded (fuel + 1) visited) {place : Place}
    {children : List (FileName × FileTree)}
    (hat : w.disk.tree.at? place = some (.dir children))
    (hnew : absolute place ∉ visited) : w.Bounded fuel (absolute place :: visited) := by
  refine ⟨List.nodup_cons.2 ⟨hnew, h.nodup⟩, ?_, ?_⟩
  · rintro p (_ | ⟨_, hp⟩)
    · exact ⟨place, children, rfl, hat⟩
    · exact h.directory p hp
  · have henough := h.enough
    rw [List.length_cons]
    omega

theorem settle (hd : w.disk.tree.wellFormed = true) (h : w.Bounded fuel visited)
    {s : Sights} (hs : w.Settles visited s)
    (hopens : ∀ dir, .listing dir ∈ s.1 → w.Opens dir) : w.Bounded fuel s.2 := by
  refine ⟨hs.nodup h.nodup, fun p hp => ?_, ?_⟩
  · rcases (hs.mem_iff p).1 hp with hp | ⟨dir, hdir, -, hreal⟩
    · exact h.directory p hp
    · obtain ⟨place, children, hreach, -⟩ := hopens dir hdir
      rw [hreach.resolve hd] at hreal
      cases hreal
      exact ⟨place, children, rfl, (hreach.leads hd).1⟩
  · have hsub : visited ⊆ s.2 := fun p hp => (hs.mem_iff p).2 (.inl hp)
    have hlen := (h.nodup.subperm hsub).length_le
    have henough := h.enough
    omega

end Bounded

/-! ## One directory after the other -/

theorem dirSights_visited {fuel : Nat} {dir : List FileName} {visited : List Path}
    {p : Path} (hreal : w.real dir = .ok p) (hp : p ∈ visited) :
    w.dirSights (fuel + 1) dir visited = ([], visited) := by
  unfold Walk.real at hreal
  simp only [dirSights, hreal, hp, if_true]

theorem dirSights_refused {fuel : Nat} {dir : List FileName} {visited : List Path}
    {p : Path} {e : DiskError} (hreal : w.real dir = .ok p) (hp : p ∉ visited)
    (hlist : w.disk.list (w.pathOf dir) = .error e) :
    w.dirSights (fuel + 1) dir visited =
      (.listing dir :: (if dir.isEmpty then [.failure dir (.rootUnreadable e)] else []),
        p :: visited) := by
  unfold Walk.real at hreal
  simp only [dirSights, hreal, hp, if_false, hlist]

theorem dirSights_listed {fuel : Nat} {dir : List FileName} {visited : List Path}
    {p : Path} {entries : List FileName} (hreal : w.real dir = .ok p) (hp : p ∉ visited)
    (hlist : w.disk.list (w.pathOf dir) = .ok entries) :
    w.dirSights (fuel + 1) dir visited =
      (.listing dir :: (w.entriesSights (w.dirSights fuel) dir (sortNames entries)
          (p :: visited)).1,
        (w.entriesSights (w.dirSights fuel) dir (sortNames entries)
          (p :: visited)).2.filter (· ≠ p)) := by
  unfold Walk.real at hreal
  simp only [dirSights, hreal, hp, if_false, hlist]

theorem part_of_entry {dir before after : List FileName} {name : FileName}
    {visited : List Path} {p : Path}
    (hordered : ∀ names visited, Ordered names (below names visited).1)
    (hsettles : ∀ names visited, w.Settles visited (below names visited))
    (hnames : (before ++ name :: after).Pairwise NameBefore)
    (hreal : w.real dir = .ok p) (hlisted : ¬w.Refused dir)
    (hcourse : w.Course (dir ++ [name]) (w.entriesSights below dir before (p :: visited)).2
      (w.sightsAt below (dir ++ [name])
        (w.entriesSights below dir before (p :: visited)).2).1) :
    w.Part dir visited
      (.listing dir :: (w.entriesSights below dir (before ++ name :: after)
        (p :: visited)).1) name
      (w.entriesSights below dir before (p :: visited)).2
      (w.sightsAt below (dir ++ [name])
        (w.entriesSights below dir before (p :: visited)).2).1 := by
  refine ⟨hcourse, sightsAt_ordered hordered _ _, fun x hunder => ?_, fun q => ?_⟩
  · rw [← mem_entriesSights_under hordered hnames hunder, List.mem_cons]
    refine ⟨fun h => h.resolve_left ?_, .inr⟩
    rintro rfl
    exact not_prefix_self hunder
  · rw [(entriesSights_settles hsettles dir before (p :: visited)).mem_iff, hreal,
      List.mem_cons, Except.ok.injEq, eq_comm, or_assoc, or_left_comm]
    refine or_congr_right (or_congr_right ?_)
    constructor
    · rintro ⟨other, hother, hrefused, hother'⟩
      obtain ⟨hmem, hlt⟩ := (mem_entriesSights_before hordered hnames).1 hother
      exact ⟨other, List.mem_cons_of_mem _ hmem, hlt, hrefused, hother'⟩
    · rintro ⟨other, _ | ⟨_, hmem⟩, hlt, hrefused, hother'⟩
      · exact absurd hrefused hlisted
      · exact ⟨other, (mem_entriesSights_before hordered hnames).2 ⟨hmem, hlt⟩, hrefused,
          hother'⟩

/-- The walk through a directory keeps to the rules. -/
theorem course_dirSights (hd : w.disk.tree.wellFormed = true) {fuel : Nat}
    {dir : List FileName} {visited : List Path} (hopens : w.Opens dir)
    (hbounded : w.Bounded fuel visited) :
    w.Course dir visited (w.dirSights fuel dir visited).1 := by
  induction fuel generalizing dir visited with
  | zero => exact absurd rfl hbounded.pos
  | succ fuel ih =>
      have hordered := dirSights_ordered hd (fuel + 1) dir visited
      have hresolved := (w.dirSights_settles (fuel + 1) dir visited).resolved
      obtain ⟨place, children, hreach, -⟩ := id hopens
      have hreal : w.real dir = .ok (absolute place) := hreach.resolve hd
      by_cases hvisited : absolute place ∈ visited
      · rw [dirSights_visited hreal hvisited]
        exact course_of_visited hopens hreal hvisited
      have hnew : ∀ p ∈ visited, w.real dir ≠ .ok p := by
        intro p hp heq
        rw [hreal] at heq
        cases heq
        exact hvisited hp
      cases hlist : w.disk.list (w.pathOf dir) with
      | error e =>
          rw [dirSights_refused hreal hvisited hlist] at hordered ⊢
          exact course_of_refused hopens hnew hlist rfl hordered
      | ok entries =>
          rw [dirSights_listed hreal hvisited hlist] at hordered hresolved ⊢
          obtain rfl := hreach.list_eq hlist
          have hlisted : ¬w.Refused dir := by
            rintro ⟨e, he⟩
            rw [hlist] at he
            cases he
          have hnames := sortNames_pairwise (list_nodup hd hlist)
          have hbelow := dirSights_ordered hd fuel
          have hinner := hbounded.enter (hreach.leads hd).1 hvisited
          refine course_of_listed hd hopens hlisted hordered hnew List.mem_cons_self ?_ ?_
            hresolved
          · intro x hx
            refine (List.mem_cons.1 hx).imp_right fun hx => ?_
            obtain ⟨name, hname, hunder⟩ :=
              (entriesSights_pairwise hbelow dir hnames _).1 x hx
            exact ⟨name, (Holds.iff_mem hreach).2 (List.mem_mergeSort.1 hname), hunder⟩
          · intro name hname
            have hmem := (Holds.iff_mem hreach).1 hname
            obtain ⟨before, after, hsplit⟩ :=
              List.append_of_mem (List.mem_mergeSort.2 hmem)
            change sortNames _ = _ at hsplit
            rw [hsplit] at hnames ⊢
            -- The induction hypothesis holds with what the earlier entries leave behind.
            refine ⟨_, _, part_of_entry hbelow (w.dirSights_settles fuel) hnames hreal
              hlisted (course_sightsAt hd hreach hmem fun hopens' => ih hopens' ?_)⟩
            refine hinner.settle hd (entriesSights_settles (w.dirSights_settles fuel) _ _ _)
              fun q hq => ?_
            refine opens_of_listing_entries hd hreach (fun other hother => ?_)
              (fun _ _ => opens_of_listing hd) hq
            refine List.mem_mergeSort.1 (?_ : other ∈ sortNames (children.map (·.1)))
            rw [hsplit]
            exact List.mem_append_left _ hother

theorem course_sights (hd : w.disk.tree.wellFormed = true) (hroot : w.Opens []) :
    w.Course [] [] w.sights := by
  refine course_dirSights hd hroot ⟨.nil, by simp, ?_⟩
  rw [List.length_nil]
  omega

theorem Prepared.opens_root {walker : Walker} {d : Disk} {plan : Plan} {clock : Clock}
    (h : w.Prepared walker d plan clock) : w.Opens [] := by
  obtain ⟨place, children, hreach⟩ := reaches_of_rootOf h.root
  refine ⟨place, children, ?_, fun hne => absurd rfl hne⟩
  rw [pathOf_nil, h.sameDisk]
  exact hreach

end SourceScan.Walk
