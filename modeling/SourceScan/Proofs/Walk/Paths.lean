import SourceScan.Proofs.Walk.Faults

/-!
# The paths in a report

Whatever stops a walk, it notes what some of its sights give, in their order.  So the paths
of the records and those of the faults come in the order of the names, and no path is in
both lists.
-/

namespace SourceScan.Walk

variable {walker : Walker} {d : Disk} {plan : Plan} {clock : Clock}
  {now : Calendar.DateTime} {w : Walk} {s t : Progress} {x : Sight} {xs : List Sight}
  {r : Except ReadFault FileRecord}

/-! ## What is noted -/

def pathNoted : Except ReadFault FileRecord → RawText
  | .error fault => fault.path
  | .ok record => record.path

theorem path_of_noted (h : w.noted x = some r) :
    x.isEntry = true ∧ pathNoted r = Path.joined x.names := by
  cases x with
  | misnamed names =>
      cases h
      exact ⟨rfl, rfl⟩
  | file names size =>
      refine ⟨rfl, ?_⟩
      cases r with
      | error fault => exact path_of_reading_error (Option.some.inj h)
      | ok record => exact reading_path (Option.some.inj h)
  | listing dir => cases h
  | turn names => cases h
  | failure names e => cases h

structure Notes (s : Progress) (rs : List (Except ReadFault FileRecord)) (t : Progress) :
    Prop where
  records : t.files.filterMap Entry.record? =
    s.files.filterMap Entry.record? ++ rs.flatMap fun r => recordsOf (some r)
  errors : t.errors = s.errors ++ rs.flatMap fun r => faultsOf (some r)

theorem Notes.nil (hfiles : t.files.filterMap Entry.record? = s.files.filterMap Entry.record?)
    (herrors : t.errors = s.errors) : Notes s [] t :=
  ⟨by simpa using hfiles, by simpa using herrors⟩

theorem notes_note (s : Progress) (r : Except ReadFault FileRecord) : Notes s [r] (note s r) := by
  rw [note_eq_add]
  refine ⟨?_, ?_⟩
  · rw [Progress.add, List.filterMap_append, filterMap_record?, List.flatMap_singleton]
  · rw [Progress.add, List.flatMap_singleton]

theorem Notes.trans {u : Progress} {rs rs' : List (Except ReadFault FileRecord)}
    (h : Notes s rs t) (h' : Notes t rs' u) : Notes s (rs ++ rs') u := by
  refine ⟨?_, ?_⟩
  · rw [h'.records, h.records, List.flatMap_append, List.append_assoc]
  · rw [h'.errors, h.errors, List.flatMap_append, List.append_assoc]

theorem notes_of_meet (h : w.meet s x = .ok t) :
    Notes s [] t ∨ ∃ r, w.noted x = some r ∧ Notes s [r] t := by
  rcases meet_cases h with rfl | ⟨-, ⟨names, -, rfl⟩ | ⟨names, size, -, rfl⟩ | ⟨r, hr, rfl⟩⟩
  · exact .inl (.nil rfl rfl)
  · exact .inl (.nil (congrArg _ (w.checkDeadline_files s)) (w.checkDeadline_errors s))
  · exact .inl (.nil (by simp [Progress.full, Entry.record?]) rfl)
  · exact .inr ⟨r, hr, notes_note s r⟩

/-- A walk notes what some of its sights give, in their order. -/
theorem notes_of_meetAll (h : w.meetAll xs s = .ok t) :
    ∃ ys : List Sight, ys.Sublist xs ∧ Notes s (ys.filterMap w.noted) t := by
  induction xs generalizing s with
  | nil =>
      cases h
      exact ⟨[], .slnil, .nil rfl rfl⟩
  | cons x xs ih =>
      rw [meetAll_cons] at h
      obtain ⟨next, hfirst, hrest⟩ := ok_of_bind h
      obtain ⟨ys, hys, hlater⟩ := ih hrest
      rcases notes_of_meet hfirst with hnone | ⟨r, hr, hone⟩
      · exact ⟨ys, hys.cons x, hnone.trans hlater⟩
      · refine ⟨x :: ys, hys.cons_cons x, ?_⟩
        rw [List.filterMap_cons_some hr]
        exact hone.trans hlater

/-! ## The order of what is noted -/

def PathBefore (p q : RawText) : Prop := NamesBefore (namesIn p) (namesIn q)

theorem PathBefore.ne {p q : RawText} (h : PathBefore p q) : p ≠ q := by
  rintro rfl
  exact NamesBefore.irrefl _ h

theorem noted_pairwise (hd : w.disk.tree.wellFormed = true) (hroot : w.Opens []) {ys : List Sight}
    (hys : ys.Sublist w.sights) :
    (ys.filterMap w.noted).Pairwise fun r r' => PathBefore (pathNoted r) (pathNoted r') := by
  have hnames : ∀ x ∈ ys, ∀ r, w.noted x = some r →
      x.isEntry = true ∧ namesIn (pathNoted r) = x.names := by
    intro x hx r hr
    obtain ⟨hentry, hpath⟩ := path_of_noted hr
    obtain ⟨hne, hnamed⟩ := named_of_entry hd hroot (hys.subset hx) hentry
    exact ⟨hentry, by rw [hpath, namesIn_joined hne hnamed]⟩
  refine List.pairwise_filterMap.2 (((sights_pairwise hd).sublist hys).imp_of_mem ?_)
  intro x y hx hy hxy r hr r' hr'
  obtain ⟨hentry, heq⟩ := hnames x hx r hr
  obtain ⟨hentry', heq'⟩ := hnames y hy r' hr'
  rw [PathBefore, heq, heq']
  rcases hxy with hlt | ⟨-, hlt⟩
  · exact hlt
  · -- Both are entries, so neither ranks before the other.
    rw [rank_of_isEntry hentry, rank_of_isEntry hentry'] at hlt
    exact absurd hlt (Nat.lt_irrefl _)

theorem mem_recordsOf_some {record : FileRecord} :
    record ∈ recordsOf (some r) ↔ r = .ok record := by
  cases r <;> simp [recordsOf, eq_comm]

theorem mem_faultsOf_some {fault : ReadFault} :
    fault ∈ faultsOf (some r) ↔ r = .error fault := by
  cases r <;> simp [faultsOf, eq_comm]

section Results

variable {rs : List (Except ReadFault FileRecord)}
  (h : rs.Pairwise fun r r' => PathBefore (pathNoted r) (pathNoted r'))
include h

theorem pairwise_of_results {α : Type} {f : Except ReadFault FileRecord → List α}
    {path : α → RawText} (hone : ∀ r, (f r).length ≤ 1)
    (hpath : ∀ r, ∀ a ∈ f r, pathNoted r = path a) :
    ((rs.flatMap f).map path).Pairwise PathBefore := by
  rw [List.pairwise_map, List.pairwise_flatMap]
  constructor
  · intro r _
    exact pairwise_of_length_le_one (hone r)
  · refine h.imp fun {r r'} hbefore a ha b hb => ?_
    rwa [← hpath r a ha, ← hpath r' b hb]

theorem paths_ne_of_results {record : FileRecord} {fault : ReadFault} (hrecord : .ok record ∈ rs)
    (hfault : .error fault ∈ rs) : record.path ≠ fault.path := by
  have hne : rs.Pairwise fun r r' => pathNoted r ≠ pathNoted r' := h.imp PathBefore.ne
  have : Std.Symm fun r r' : Except ReadFault FileRecord => pathNoted r ≠ pathNoted r' :=
    ⟨fun _ _ => Ne.symm⟩
  refine hne.forall hrecord hfault fun heq => ?_
  cases heq

end Results

/-- Records and faults come in the order of the names that lead to them, and no path is both
among the records and among the faults. -/
theorem walk_paths {report : Report} (hd : d.tree.wellFormed = true)
    (hwalk : walker.walk d plan clock now = .ok report) :
    (report.records.map (·.path)).Pairwise PathBefore ∧
      (report.errors.map (·.path)).Pairwise PathBefore ∧
        ∀ record ∈ report.records, ∀ fault ∈ report.errors, record.path ≠ fault.path := by
  obtain ⟨w, t, hw, hmeet, rfl⟩ := progress_of_walk hwalk
  have hprepared := prepared_of_ofPlan hw
  obtain ⟨ys, hys, hnotes⟩ := notes_of_meetAll hmeet
  have hpairwise := noted_pairwise (hprepared.sameDisk ▸ hd) hprepared.opens_root hys
  have hrecords : (w.report now t).records =
      (ys.filterMap w.noted).flatMap fun r => recordsOf (some r) := hnotes.records
  have herrors : (w.report now t).errors =
      (ys.filterMap w.noted).flatMap fun r => faultsOf (some r) := hnotes.errors
  rw [hrecords, herrors]
  refine ⟨pairwise_of_results hpairwise (fun r => length_recordsOf_le _) fun r a ha => ?_,
    pairwise_of_results hpairwise (fun r => length_faultsOf_le _) fun r a ha => ?_,
    fun record hrecord fault hfault => ?_⟩
  · rw [mem_recordsOf_some.1 ha, pathNoted]
  · rw [mem_faultsOf_some.1 ha, pathNoted]
  · obtain ⟨r, hr, hmem⟩ := List.mem_flatMap.1 hrecord
    obtain ⟨r', hr', hmem'⟩ := List.mem_flatMap.1 hfault
    rw [mem_recordsOf_some.1 hmem] at hr
    rw [mem_faultsOf_some.1 hmem'] at hr'
    exact paths_ne_of_results hpairwise hr hr'

/-- The file in the directory comes first, although its path is the larger text. -/
theorem walk_paths_mixed : ∃ report,
    mixedWalker.walk mixedDisk mixedPlan stillClock default = .ok report ∧
      (report.records.map (·.path)).Pairwise PathBefore ∧
      (report.errors.map (·.path)).Pairwise PathBefore ∧
      (∀ record ∈ report.records, ∀ fault ∈ report.errors, record.path ≠ fault.path) ∧
      report.records.map (·.path) =
        ["a/b", "a.c", "l/b"].map (fun p => RawText.ofText p.toList) ∧
      report.errors.map (·.path) = [spoiltName, oddName] ∧ "a.c" < "a/b" := by
  have hwalk : mixedWalker.walk mixedDisk mixedPlan stillClock default = .ok _ := walk_mixed
  obtain ⟨hrecords, herrors, hapart⟩ := walk_paths (by decide) hwalk
  have hreport : (mixedReport default).records = mixedRecords := report_add_records
  refine ⟨mixedReport default, hwalk, hrecords, herrors, hapart, ?_, rfl, by decide⟩
  rw [hreport]
  rfl

end SourceScan.Walk
