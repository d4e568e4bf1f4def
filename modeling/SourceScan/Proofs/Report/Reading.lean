import SourceScan.Proofs.Json.RoundTrip

/-!
# Reports read back

A report in JSON is its document: whoever reads the text has all texts, numbers and lists of
the document again, in their order.
-/

namespace SourceScan.Report

open Value (SimpleAll SimpleEntries)

variable {r : Report} {stamp : Text}

theorem simple_texts (l : List Text) : (Document.texts l).value.Simple := by
  rw [Document.texts, Document.value, Document.valueItems_eq, Value.Simple, Value.simpleAll_iff]
  intro v hv
  simp only [List.mem_map] at hv
  obtain ⟨d, ⟨s, -, rfl⟩, rfl⟩ := hv
  trivial

theorem simple_entry {e : Entry} (h : ∀ record, e = .record record → Value.Short record.size) :
    (entryDocument e).value.Simple := by
  cases e with
  | record record =>
      refine ⟨?_, ?_⟩
      · simp [Document.valueMembers]
      · exact ⟨⟨_, rfl⟩, trivial, ⟨_, rfl⟩, trivial, ⟨_, rfl⟩, h record rfl, ⟨_, rfl⟩,
          simple_texts _, ⟨_, rfl⟩, simple_texts _, trivial⟩
  | warning text =>
      refine ⟨?_, ?_⟩
      · simp [Document.valueMembers]
      · exact ⟨⟨_, rfl⟩, trivial, trivial⟩

theorem simple_document (h : r.Short) : (r.document stamp).value.Simple := by
  have hfiles : SimpleAll (Document.valueItems (r.files.map entryDocument)) := by
    rw [Document.valueItems_eq, Value.simpleAll_iff]
    intro v hv
    simp only [List.mem_map] at hv
    obtain ⟨d, ⟨e, he, rfl⟩, rfl⟩ := hv
    refine simple_entry fun record hrecord => h.sizes record ?_
    rw [mem_records_iff, ← hrecord]
    exact he
  have hsummary : SimpleEntries (Document.valueMembers
      [("fileCount", .int r.fileCount), ("scannedAt", .text stamp),
        ("excludedPatterns", .texts r.excludedPatterns)]) :=
    ⟨⟨_, rfl⟩, h.fileCount, ⟨_, rfl⟩, trivial, ⟨_, rfl⟩, simple_texts _, trivial⟩
  refine ⟨by simp [Document.valueMembers], ⟨_, rfl⟩, ?_, trivial⟩
  refine ⟨by simp [Document.valueMembers], ⟨_, rfl⟩, hfiles, ⟨_, rfl⟩, ?_, trivial⟩
  exact ⟨by simp [Document.valueMembers], hsummary⟩

/-- The artifact in JSON is lossless. -/
theorem read_json (hstamp : r.scannedAt.stamp? = some stamp) (hshort : r.Short)
    (hwhole : ∀ record ∈ r.records, record.path.Whole) :
    ∃ t, r.serializeAs ("json" : Text) = .ok (RawText.ofText t) ∧
      Json.read t = .ok (r.document stamp).value := by
  obtain ⟨t, ht, hread⟩ := Document.read_toJson (simple_document hshort) (whole_document hwhole)
  refine ⟨t, ?_, hread⟩
  simp only [serializeAs, Format.ofName?, if_true, serialize, hstamp, ht]
  rfl

def quotedReport : Report where
  files := [.record
    { path := [.char 'a', .char '"'], type := "Python", size := -7,
      dependencies := ["import \"\\n\"", "\t\u2028"], declarations := [] }]
  fileCount := 1
  scannedAt := ⟨⟨2024, 2, 29⟩, 23, 59, 59, 999999, some (-60)⟩
  excludedPatterns := ["😀/"]
  errors := []
  truncated := false
  timedOut := false

theorem lt_pow_ten {n count : Nat} (hn : n < 10) (hcount : count ≠ 0) : n < Nat.pow 10 count :=
  Nat.lt_of_lt_of_le hn (Nat.le_self_pow hcount 10)

theorem short_of_lt {i : Int} (h : i.natAbs < 10) : Value.Short i := lt_pow_ten h (by decide)

theorem short_quotedReport : quotedReport.Short where
  fileCount := short_of_lt (by decide)
  sizes record hrecord := by
    simp only [records, quotedReport, List.filterMap_cons, Entry.record?, List.filterMap_nil,
      List.mem_singleton] at hrecord
    subst hrecord
    exact short_of_lt (by decide)

theorem whole_quotedReport : ∀ record ∈ quotedReport.records, record.path.Whole := by
  intro record hrecord
  simp only [records, quotedReport, List.filterMap_cons, Entry.record?, List.filterMap_nil,
    List.mem_singleton] at hrecord
  subst hrecord
  simp [TextUnit.char?]

theorem read_json_quoted :
    quotedReport.scannedAt.stamp? = some ("2024-03-01T00:59:59.999Z" : Text) ∧
      quotedReport.Short ∧ (∀ record ∈ quotedReport.records, record.path.Whole) ∧
      ∃ t, quotedReport.serializeAs ("json" : Text) = .ok (RawText.ofText t) ∧
        Json.read t = .ok (quotedReport.document ("2024-03-01T00:59:59.999Z" : Text)).value := by
  have hstamp : quotedReport.scannedAt.stamp? = some ("2024-03-01T00:59:59.999Z" : Text) := by
    decide
  exact ⟨hstamp, short_quotedReport, whole_quotedReport,
    read_json hstamp short_quotedReport whole_quotedReport⟩

end SourceScan.Report
