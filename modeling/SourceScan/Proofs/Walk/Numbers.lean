import SourceScan.Proofs.Report.Payload
import SourceScan.Proofs.Walk.Records
import SourceScan.Proofs.Walk.Twins

/-!
# The numbers of a report

A walk through a tree without links comes to a place once.  So a report names no more files
than there are places, and its numbers can be written if those of the tree can.  Its paths
are texts in any case.
-/

namespace SourceScan

open FileTree Disk

structure FileTree.Short (t : FileTree) : Prop where
  sizes : ∀ place content, t.at? place = some (.file content) →
    Value.Short content.length
  number : Value.Short (places t).length

namespace Walk

variable {walker : Walker} {d : Disk} {plan : Plan} {clock : Clock}
  {now : Calendar.DateTime} {w : Walk} {limit budget : Int} {report : Report}

theorem whole_of_walk (hd : d.tree.wellFormed = true) (hw : ofPlan walker d plan clock = .ok w)
    (hwalk : walker.walk d plan clock now = .ok report) :
    ∀ record ∈ report.records, record.path.Whole := by
  intro record hrecord
  obtain ⟨names, size, hfile, hreading⟩ := record_of_walk hw hwalk hrecord
  have hprepared := prepared_of_ofPlan hw
  have hkeeps := course_sights (hprepared.sameDisk ▸ hd) hprepared.opens_root names
    List.nil_prefix
  obtain ⟨-, place, content, haccepts, -⟩ := (hkeeps.file_iff size).1 hfile
  obtain ⟨text, htext, -⟩ := haccepts.kept
  rw [reading_path hreading]
  exact RawText.whole_of_text? htext

theorem length_records_le (xs : List Sight) :
    (w.records limit xs).length ≤ xs.countP Sight.isEntry := by
  induction xs with
  | nil => exact Nat.zero_le _
  | cons x xs ih =>
      have hle := length_recordsOf_le (w.outcome limit x)
      rw [records_cons, List.length_append, List.countP_cons]
      cases x with
      | file names size =>
          rw [if_pos (show Sight.isEntry (.file names size) = true from rfl)]
          omega
      | misnamed names =>
          rw [if_pos (show Sight.isEntry (.misnamed names) = true from rfl)]
          omega
      | listing dir => simpa [outcome, recordsOf, Sight.isEntry] using ih
      | turn names => simpa [outcome, recordsOf, Sight.isEntry] using ih
      | failure names e => simpa [outcome, recordsOf, Sight.isEntry] using ih

theorem Unlinked.countP_isEntry_le (h : w.Unlinked) {root : FileTree}
    (hroot : ∀ place, (w.disk.tree.at? place).isSome = true → (root.at? place).isSome = true) :
    w.sights.countP Sight.isEntry ≤ (places root).length := by
  have hlength : ((w.sights.filter Sight.isEntry).map fun x => w.root.names ++ x.names).length =
      w.sights.countP Sight.isEntry := by
    rw [List.length_map, List.countP_eq_length_filter]
  have hnodup : ((w.sights.filter Sight.isEntry).map fun x => w.root.names ++ x.names).Nodup := by
    rw [List.Nodup, List.pairwise_map]
    refine ((sights_pairwise h.wellFormed).filter _).imp_of_mem ?_
    intro x y hx hy hxy heq
    have hsame : x.names = y.names := List.append_cancel_left heq
    rcases hxy with hlt | ⟨-, hlt⟩
    · exact NamesBefore.irrefl _ (hsame ▸ hlt)
    · have hentry := (List.mem_filter.1 hx).2
      have hentry' := (List.mem_filter.1 hy).2
      cases x <;> cases y <;> simp_all [Sight.isEntry, Sight.rank]
  rw [← hlength]
  refine (length_le_countP hnodup (fun _ => true) ?_).trans List.countP_le_length
  intro place hplace
  obtain ⟨x, hx, rfl⟩ := List.mem_map.1 hplace
  obtain ⟨hx, hentry⟩ := List.mem_filter.1 hx
  obtain ⟨t, hat, -⟩ := h.of_sight hx (by cases x <;> simp_all [Sight.isEntry])
  obtain ⟨u, hu⟩ := Option.isSome_iff_exists.1 (hroot _ (by rw [hat]; rfl))
  exact ⟨u, hu, rfl⟩

theorem reading_size {names : List FileName} {size : Nat} {r : FileRecord}
    (h : w.reading names size = .ok r) : r.size = size := by
  unfold reading at h
  split at h
  · cases h
  · split at h
    · cases h
    · cases h
      rfl

theorem Unlinked.file_of_record (h : w.Unlinked) (hw : ofPlan walker d plan clock = .ok w)
    (hwalk : walker.walk d plan clock now = .ok report) {record : FileRecord}
    (hrecord : record ∈ report.records) : ∃ names content,
      names ≠ [] ∧ (∀ name ∈ names, isEntryName name = true) ∧
      w.disk.tree.at? (w.root.names ++ names) = some (.file content) ∧
      record.path = Path.joined names ∧ record.size = content.length := by
  obtain ⟨names, size, hfile, hreading⟩ := record_of_walk hw hwalk hrecord
  obtain ⟨hne, hnamed⟩ := named_of_entry h.wellFormed h.opens_root hfile rfl
  have hkeeps := course_sights h.wellFormed h.opens_root names List.nil_prefix
  obtain ⟨-, place, content, haccepts, rfl⟩ := (hkeeps.file_iff size).1 hfile
  obtain ⟨⟨-, hat⟩, -⟩ := (h.accepts_iff hnamed).1 haccepts
  exact ⟨names, content, hne, hnamed, hat, reading_path hreading, reading_size hreading⟩

theorem Unlinked.short (h : w.Unlinked) (hw : ofPlan walker d plan clock = .ok w)
    (hwalk : walker.walk d plan clock now = .ok report) {before : List Sight}
    (hbefore : before <+: w.sights) (hrecords : report.records = w.records limit before)
    (hcount : report.fileCount = report.records.length) {root : FileTree}
    (hfiles : ∀ place content, w.disk.tree.at? place = some (.file content) →
      root.at? place = some (.file content))
    (hroot : ∀ place, (w.disk.tree.at? place).isSome = true → (root.at? place).isSome = true)
    (hshort : root.Short) : report.Short := by
  refine ⟨?_, fun record hrecord => ?_⟩
  · have hle : report.records.length ≤ (places root).length := by
      calc report.records.length = (w.records limit before).length := by rw [hrecords]
        _ ≤ before.countP Sight.isEntry := length_records_le before
        _ ≤ w.sights.countP Sight.isEntry := hbefore.sublist.countP_le
        _ ≤ (places root).length := h.countP_isEntry_le hroot
    have hnumber := hshort.number
    rw [hcount]
    unfold Value.Short at hnumber ⊢
    exact lt_of_le_of_lt (by simpa using hle) hnumber
  · obtain ⟨names, content, -, -, hat, -, hsize⟩ := h.file_of_record hw hwalk hrecord
    rw [hsize]
    exact hshort.sizes _ _ (hfiles _ _ hat)

end Walk

end SourceScan
