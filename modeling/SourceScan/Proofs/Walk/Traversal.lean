import SourceScan.Proofs.Walk.Prepared
import SourceScan.Proofs.Walk.Sight

/-!
# The traversal of a well-formed tree

A report is what is left after the sights of a walk have been met.  In a well-formed tree
an entry of a directory that the walk has reached is passed over, gone into or taken as a
file, and nothing fails but the listing of the root.
-/

namespace SourceScan

namespace Walk

open FileTree Disk

/-! ## Reports of a walk -/

def start (w : Walk) : Progress :=
  ⟨[], [], [], if w.deadline.isSome then 1 else 0, false, false, false⟩

def report (w : Walk) (now : Calendar.DateTime) (s : Progress) : Report where
  files := s.files
  fileCount := (s.files.filterMap Entry.record?).length
  scannedAt := now
  excludedPatterns := (w.rules.filter (·.source ≠ .builtin)).map (·.pattern)
  errors := s.errors
  truncated := s.truncated
  timedOut := s.timedOut

theorem outputRule_source {d : Disk} {root : Path} {target : Option Path}
    {output : Option Rule} (h : outputRule d root target = .ok output) :
    ∀ rule ∈ output.toList, rule.source = .builtin := by
  unfold outputRule at h
  cases target with
  | none =>
      cases h
      simp
  | some target =>
      dsimp only at h
      cases hreal : d.resolve target with
      | error e =>
          rw [hreal] at h
          cases e with
          | circle circle => cases h
          | disk cause =>
              cases h
              simp
      | ok real =>
          rw [hreal] at h
          cases h
          intro rule hrule
          rw [Option.mem_toList, Option.bind_eq_some_iff] at hrule
          obtain ⟨names, -, hrule⟩ := hrule
          obtain ⟨text, -, rfl⟩ := Option.map_eq_some_iff.1 hrule
          rfl

theorem directory_eq_meetAll (w : Walk) : ∃ visited,
    w.directory (w.disk.tree.dirCount + 1) w.root [] w.start =
      (w.meetAll w.sights w.start).map (·.within visited) := by
  have htracks := w.directory_tracks (w.disk.tree.dirCount + 1) []
    (show w.start.stopped = false from rfl)
  have hsights : (w.dirSights (w.disk.tree.dirCount + 1) [] w.start.visited).1 = w.sights :=
    rfl
  rw [pathOf_nil, Tracks, hsights] at htracks
  cases hmeet : w.meetAll w.sights w.start with
  | error e =>
      rw [hmeet] at htracks
      exact ⟨[], htracks⟩
  | ok t =>
      rw [hmeet] at htracks
      obtain ⟨visited, hrun, -⟩ := htracks
      exact ⟨visited, hrun⟩

theorem walk_eq_meetAll (walker : Walker) (d : Disk) (plan : Plan) (clock : Clock)
    (now : Calendar.DateTime) :
    walker.walk d plan clock now =
      (ofPlan walker d plan clock >>= fun w =>
        (w.meetAll w.sights w.start).map (w.report now)) := by
  unfold Walker.walk ofPlan
  cases Plan.rootOf d plan.root with
  | error e => rfl
  | ok root =>
  simp only [bind, Except.bind]
  cases (ProjectKind.rulesAt d root).mapError ScanError.disk with
  | error e => rfl
  | ok project =>
  simp only
  cases houtput : outputRule d root plan.outputTarget with
  | error e => rfl
  | ok output =>
  simp only
  cases (deadlineOf clock plan.scanTimeout).mapError ScanError.misuse with
  | error e => rfl
  | ok deadline =>
  simp only [pure, Except.pure]
  generalize hw : (⟨walker, d, plan, root, output.toList ++ Rule.extend project plan.rules,
    strayOutput d root plan.outputTarget, clock, deadline⟩ : Walk) = w
  -- The rule for the report is built in, so it is not listed.
  have hlisted : ((Rule.extend project plan.rules).filter
      (·.source ≠ .builtin)).map (·.pattern) =
        (w.rules.filter (·.source ≠ .builtin)).map (·.pattern) := by
    have hnone : output.toList.filter (·.source ≠ .builtin) = [] := by
      rw [List.filter_eq_nil_iff]
      intro rule hrule
      simp [outputRule_source houtput rule hrule]
    rw [← hw]
    simp only [List.filter_append, hnone, List.nil_append]
  obtain ⟨visited, hrun⟩ := w.directory_eq_meetAll
  have hstart : (⟨[], [], [], if deadline.isSome then 1 else 0, false, false, false⟩ :
      Progress) = w.start := by
    rw [← hw]
    rfl
  have hroot : w.root = root := by rw [← hw]
  have htree : w.disk.tree = d.tree := by rw [← hw]
  rw [hlisted, hstart, ← hroot, ← htree, hrun]
  cases w.meetAll w.sights w.start with
  | error e => rfl
  | ok t => rfl

/-! ## Entries that the walk accepts -/

/-- A link may lead to what is inside the root, and to a directory only if the plan
allows that. -/
def Stays (w : Walk) (place : Place) (t : FileTree) : Prop :=
  ((absolute place).relativeTo? w.root).isSome = true ∧
    (t.isDirectory = true → w.plan.followSymlinks.isTruthy = true)

/-- The entry leads to the place, and neither its link nor the rules stand in the way. -/
structure Accepts (w : Walk) (names : List FileName) (place : Place) (t : FileTree) :
    Prop where
  reaches : w.disk.Reaches (w.pathOf names) place t
  inside : w.disk.isLink (w.pathOf names) = true → w.Stays place t
  kept : ∃ text, (Path.joined names).text? = some text ∧ w.excludes text t.isDirectory = false

theorem Accepts.unique {w : Walk} {names : List FileName} {place place' : Place}
    {t t' : FileTree} (h : w.Accepts names place t) (h' : w.Accepts names place' t') :
    place = place' ∧ t = t' :=
  h.reaches.unique h'.reaches

section Entry

variable {w : Walk} {dir : List FileName} {name : FileName} {place : Place}
  {children : List (FileName × FileTree)} {text : Text}

theorem followsLink_eq (hd : w.disk.tree.wellFormed = true) {p target : Path}
    (hstart : HasPlain w.disk.tree (w.disk.startOf p))
    (h : w.disk.resolveStrict? p = some target) :
    ∃ last u, target = absolute last ∧ w.disk.Reaches target last u ∧
      w.followsLink p = .ok (((absolute last).relativeTo? w.root).isSome &&
        (!u.isDirectory || w.plan.followSymlinks.isTruthy)) := by
  obtain ⟨last, u, rfl, hreach⟩ := reaches_of_resolveStrict? hd hstart h
  refine ⟨last, u, rfl, hreach, ?_⟩
  unfold followsLink
  rw [h]
  simp only [hreach.isDir, bind, Except.bind, pure, Except.pure]
  cases (absolute last).relativeTo? w.root <;> simp

theorem admits_of_followed {p : Path} {found : Option FileTree}
    (hfollow : w.disk.isLink p = true → w.followsLink p = .ok true)
    (hlook : w.disk.look p = .ok found) :
    w.admits p text =
      if w.excludes text (found.any isDirectory) then .ok none
      else .ok (some (found.any isDirectory)) := by
  have hisDir : w.disk.isDir p = .ok (found.any isDirectory) := by
    unfold Disk.isDir
    rw [hlook]
    rcases found with _ | (_ | _ | _ | _) <;> rfl
  unfold admits
  cases hlink : w.disk.isLink p with
  | false =>
      simp only [hisDir, bind, Except.bind, pure, Except.pure, Bool.false_eq_true,
        if_false]
  | true =>
      simp only [hfollow hlink, hisDir, bind, Except.bind, pure, Except.pure,
        Bool.not_true, Bool.false_eq_true, if_false, if_true]

theorem admits_of_not_followed {p : Path} (hlink : w.disk.isLink p = true)
    (hfollow : w.followsLink p = .ok false) : w.admits p text = .ok none := by
  unfold admits
  simp only [hlink, hfollow, bind, Except.bind, pure, Except.pure, Bool.not_false,
    if_true]

def Followed (w : Walk) (p : Path) (found : Option FileTree) : Prop :=
  (w.disk.isLink p = true → w.followsLink p = .ok true) ∧
    w.disk.look p = .ok found ∧
    ∀ t, found = some t → ∃ last, w.disk.Reaches p last t ∧
      (w.disk.isLink p = true → w.Stays last t)

theorem follows_cases (hd : w.disk.tree.wellFormed = true) {p : Path}
    (hstart : HasPlain w.disk.tree (w.disk.startOf p)) :
    (∃ found, w.followsLink p = .ok true ∧ w.Followed p found) ∨
    (w.followsLink p = .ok false ∧
      ∀ last t, w.disk.Reaches p last t → ¬w.Stays last t) := by
  cases hreal : w.disk.resolveStrict? p with
  | none =>
      refine .inr ⟨?_, fun last t hreach => ?_⟩
      · unfold followsLink
        rw [hreal]
        rfl
      · rw [hreach.resolveStrict? hd] at hreal
        cases hreal
  | some target =>
      obtain ⟨last, u, rfl, hlast, hfollow⟩ := followsLink_eq hd hstart hreal
      -- What the link itself reaches is what its real path reaches.
      have hsame : ∀ last' t, w.disk.Reaches p last' t → last' = last ∧ t = u := by
        intro last' t hreach
        have hat := (hreach.leads hd).1
        rw [hreach.resolveStrict? hd] at hreal
        obtain rfl : last' = last := by simpa [absolute] using hreal
        exact ⟨rfl, Option.some.inj (hat.symm.trans (hlast.leads hd).1)⟩
      have hstays : w.Stays last u ↔ (((absolute last).relativeTo? w.root).isSome &&
          (!u.isDirectory || w.plan.followSymlinks.isTruthy)) = true := by
        simp [Stays, imp_iff_not_or]
      by_cases hin : w.Stays last u
      · rw [hstays.1 hin] at hfollow
        obtain ⟨found, hlook⟩ := look_of_resolveStrict? hd hreal
        refine .inl ⟨found, hfollow, fun _ => hfollow, hlook, ?_⟩
        rintro t rfl
        obtain ⟨last', hreach⟩ := reaches_of_look hlook
        obtain ⟨rfl, rfl⟩ := hsame _ _ hreach
        exact ⟨last', hreach, fun _ => hin⟩
      · rw [Bool.eq_false_iff.2 fun h => hin (hstays.2 h)] at hfollow
        refine .inr ⟨hfollow, fun last' t hreach => ?_⟩
        obtain ⟨rfl, rfl⟩ := hsame _ _ hreach
        exact hin

theorem entry_cases (hd : w.disk.tree.wellFormed = true)
    (hdir : w.disk.Reaches (w.pathOf dir) place (.dir children))
    (hmem : name ∈ children.map (·.1)) :
    (∃ found, w.Followed (w.pathOf (dir ++ [name])) found) ∨
    (w.disk.isLink (w.pathOf (dir ++ [name])) = true ∧
      w.followsLink (w.pathOf (dir ++ [name])) = .ok false ∧
      ∀ last t, w.disk.Reaches (w.pathOf (dir ++ [name])) last t →
        ¬w.Stays last t) := by
  obtain ⟨u, hget⟩ := get?_of_mem hmem
  have hlink : w.disk.isLink (w.pathOf (dir ++ [name])) = u.isLink := by
    rw [pathOf_snoc]
    exact hdir.isLink_child hd hget
  cases hu : u.isLink with
  | false =>
      rw [hu] at hlink
      have hreach : w.disk.Reaches (w.pathOf (dir ++ [name])) (place ++ [name]) u := by
        rw [pathOf_snoc]
        exact hdir.child hd hget hu
      refine .inl ⟨some u, ?_, hreach.look, ?_⟩
      · simp [hlink]
      · rintro t ⟨⟩
        exact ⟨_, hreach, by simp [hlink]⟩
  | true =>
      rw [hu] at hlink
      have hstart : HasPlain w.disk.tree
          (w.disk.startOf (w.pathOf (dir ++ [name]))) := by
        have h := hdir.startOf hd
        exact h
      rcases follows_cases hd hstart with ⟨found, -, h⟩ | h
      · exact .inl ⟨found, h⟩
      · exact .inr ⟨hlink, h⟩

theorem admits_cases (hd : w.disk.tree.wellFormed = true)
    (hdir : w.disk.Reaches (w.pathOf dir) place (.dir children))
    (hmem : name ∈ children.map (·.1))
    (htext : (Path.joined (dir ++ [name])).text? = some text) :
    (∃ last t, w.Accepts (dir ++ [name]) last t ∧
      w.admits (w.pathOf (dir ++ [name])) text = .ok (some t.isDirectory)) ∨
    ((∀ last t, ¬w.Accepts (dir ++ [name]) last t) ∧
      (w.admits (w.pathOf (dir ++ [name])) text = .ok none ∨
        w.admits (w.pathOf (dir ++ [name])) text = .ok (some false) ∧
          w.disk.look (w.pathOf (dir ++ [name])) = .ok none)) := by
  rcases entry_cases hd hdir hmem with ⟨found, hfollow, hlook, hfound⟩ |
    ⟨hlink, hfollow, hout⟩
  · rw [admits_of_followed hfollow hlook]
    cases found with
    | none =>
        refine .inr ⟨fun last t h => ?_, ?_⟩
        · rw [h.reaches.look] at hlook
          cases hlook
        · split
          · exact .inl rfl
          · exact .inr ⟨rfl, hlook⟩
    | some t =>
        obtain ⟨last, hreach, hstays⟩ := hfound t rfl
        rw [Option.any_some]
        split
        · next hexcluded =>
            refine .inr ⟨fun last' t' h => ?_, .inl rfl⟩
            obtain ⟨-, rfl⟩ := h.reaches.unique hreach
            obtain ⟨text', htext', hkept⟩ := h.kept
            rw [htext] at htext'
            cases htext'
            rw [hexcluded] at hkept
            cases hkept
        · next hkept =>
            exact .inl ⟨last, t, ⟨hreach, hstays, text, htext,
              Bool.eq_false_iff.2 hkept⟩, rfl⟩
  · exact .inr ⟨fun last t h => hout last t h.reaches (h.inside hlink),
      .inl (admits_of_not_followed hlink hfollow)⟩

/-- What comes with an entry of a directory: stray bytes, a directory, a regular file, or
nothing that the walk takes notice of. -/
theorem sightsAt_cases (hd : w.disk.tree.wellFormed = true)
    (hdir : w.disk.Reaches (w.pathOf dir) place (.dir children))
    (hmem : name ∈ children.map (·.1))
    (below : List FileName → List Path → Sights) (visited : List Path) :
    ((Path.joined (dir ++ [name])).text? = none ∧
      w.sightsAt below (dir ++ [name]) visited =
        ([.misnamed (dir ++ [name])], visited)) ∨
    (∃ last entries, w.Accepts (dir ++ [name]) last (.dir entries) ∧
      w.sightsAt below (dir ++ [name]) visited = below (dir ++ [name]) visited) ∨
    (∃ last content, w.Accepts (dir ++ [name]) last (.file content) ∧
      w.sightsAt below (dir ++ [name]) visited =
        ([.file (dir ++ [name]) content.length], visited)) ∨
    ((Path.joined (dir ++ [name])).text?.isSome = true ∧
      (∀ last entries, ¬w.Accepts (dir ++ [name]) last (.dir entries)) ∧
      (∀ last content, ¬w.Accepts (dir ++ [name]) last (.file content)) ∧
      w.sightsAt below (dir ++ [name]) visited = ([], visited)) := by
  unfold sightsAt
  cases htext : (Path.joined (dir ++ [name])).text? with
  | none => exact .inl ⟨rfl, rfl⟩
  | some text =>
      refine .inr ?_
      rcases admits_cases hd hdir hmem htext with
        ⟨last, t, haccepts, hadmits⟩ | ⟨hnot, hadmits | ⟨hadmits, hlook⟩⟩
      · have hother : ∀ last' t', w.Accepts (dir ++ [name]) last' t' → t' = t :=
          fun last' t' h => (h.unique haccepts).2
        simp only [hadmits]
        cases t with
        | dir entries => exact .inl ⟨last, entries, haccepts, rfl⟩
        | file content =>
            refine .inr (.inl ⟨last, content, haccepts, ?_⟩)
            simp only [isDirectory, haccepts.reaches.look]
        | link target =>
            refine .inr (.inr ⟨rfl, fun _ _ h => ?_, fun _ _ h => ?_, ?_⟩)
            · cases hother _ _ h
            · cases hother _ _ h
            · simp only [isDirectory, haccepts.reaches.look]
        | pipe =>
            refine .inr (.inr ⟨rfl, fun _ _ h => ?_, fun _ _ h => ?_, ?_⟩)
            · cases hother _ _ h
            · cases hother _ _ h
            · simp only [isDirectory, haccepts.reaches.look]
      · refine .inr (.inr ⟨rfl, fun _ _ => hnot _ _, fun _ _ => hnot _ _, ?_⟩)
        simp only [hadmits]
      · refine .inr (.inr ⟨rfl, fun _ _ => hnot _ _, fun _ _ => hnot _ _, ?_⟩)
        simp only [hadmits, hlook]

end Entry

end Walk

end SourceScan
