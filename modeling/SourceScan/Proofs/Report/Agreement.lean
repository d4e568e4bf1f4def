import SourceScan.Proofs.Report.Reading
import SourceScan.Proofs.Yaml.Meaning

/-!
# Reports in YAML

A report in YAML has the same members, numbers and lists as in JSON.  Its texts are the same
too, but for those with a next-line character that are written between single quotes: there the
line end in the text is taken for a fold.
-/

namespace SourceScan

open Yaml Value

/-! ## Documents as values -/

namespace Document

mutual

theorem yamlForm_eq : ∀ d : Document, d.value.Simple → d.Whole → d.yamlForm = .ok d.value.form
  | .str s, _, hwhole => by
      have hform : (str s).value.form = .scalar .str (RawText.ofText s.shown) := rfl
      rw [yamlForm, hform, RawText.ofText_shown (hwhole s (by simp [leaves]))]
  | .int i, h, _ => by
      rw [yamlForm, intText_of_short h]
      rfl
  | .list items, h, hwhole => by
      rw [yamlForm, yamlItems_eq items h hwhole]
      rfl
  | .object members, h, hwhole => by
      rw [yamlForm, yamlMembers_eq members h.2 hwhole]
      rfl

theorem yamlItems_eq : ∀ ds : List Document, SimpleAll (valueItems ds) →
    (∀ s, .str s ∈ leavesOf ds → s.Whole) → yamlItems ds = .ok (forms (valueItems ds))
  | [], _, _ => rfl
  | d :: ds, h, hwhole => by
      simp only [leavesOf, List.mem_append, or_imp, forall_and] at hwhole
      rw [yamlItems, yamlForm_eq d h.1 hwhole.1, yamlItems_eq ds h.2 hwhole.2]
      rfl

theorem yamlMembers_eq : ∀ ds : List (Text × Document), SimpleEntries (valueMembers ds) →
    (∀ s, .str s ∈ leavesIn ds → s.Whole) →
    yamlMembers ds = .ok (formEntries (valueMembers ds))
  | [], _, _ => rfl
  | (key, d) :: ds, h, hwhole => by
      simp only [leavesIn, List.mem_append, or_imp, forall_and] at hwhole
      rw [yamlMembers, yamlForm_eq d h.2.1 hwhole.1, yamlMembers_eq ds h.2.2 hwhole.2]
      rfl

end

variable {wide : Bool}

mutual

theorem readBack_value : ∀ d : Document, (∀ k ∈ d.value.keys, Yaml.readBack wide k = k) →
    (d.value.readBack wide = d.value ↔
      ∀ s, .str s ∈ d.leaves → Yaml.readBack wide s.shown = s.shown)
  | .str s, _ => by simp [value, Value.readBack, leaves]
  | .int i, _ => by simp [value, Value.readBack, leaves]
  | .list items, hkeys => by
      simpa [value, Value.readBack, leaves] using readBack_valueItems items hkeys
  | .object members, hkeys => by
      simpa [value, Value.readBack, leaves] using readBack_valueMembers members hkeys

theorem readBack_valueItems : ∀ ds : List Document,
    (∀ k ∈ keysAll (valueItems ds), Yaml.readBack wide k = k) →
    (readBackAll wide (valueItems ds) = valueItems ds ↔
      ∀ s, .str s ∈ leavesOf ds → Yaml.readBack wide s.shown = s.shown)
  | [], _ => by simp [valueItems, readBackAll, leavesOf]
  | d :: ds, hkeys => by
      simp only [valueItems, keysAll, List.mem_append, or_imp, forall_and] at hkeys
      simp only [valueItems, readBackAll, List.cons.injEq, leavesOf, List.mem_append, or_imp,
        forall_and, readBack_value d hkeys.1, readBack_valueItems ds hkeys.2]

theorem readBack_valueMembers : ∀ ds : List (Text × Document),
    (∀ k ∈ keysEntries (valueMembers ds), Yaml.readBack wide k = k) →
    (readBackEntries wide (valueMembers ds) = valueMembers ds ↔
      ∀ s, .str s ∈ leavesIn ds → Yaml.readBack wide s.shown = s.shown)
  | [], _ => by simp [valueMembers, readBackEntries, leavesIn]
  | (key, d) :: ds, hkeys => by
      simp only [valueMembers, keysEntries, Value.scalar, List.cons_append, List.mem_cons,
        List.mem_append, or_imp, forall_and, forall_eq] at hkeys
      simp only [valueMembers, readBackEntries, List.cons.injEq, Prod.mk.injEq, Value.readBack,
        hkeys.1, true_and, leavesIn, List.mem_append, or_imp, forall_and,
        readBack_value d hkeys.2.1, readBack_valueMembers ds hkeys.2.2]

end

end Document

/-! ## Reports as documents -/

namespace Report

variable {r : Report} {stamp : Text}

def keyNames : List Text :=
  ["projectStructure", "files", "summary", "path", "type", "size", "dependencies", "structure",
    "warning", "fileCount", "scannedAt", "excludedPatterns"]

theorem keys_texts (l : List Text) : (Document.texts l).value.keys = [] := by
  induction l with
  | nil => rfl
  | cons s l ih => exact ih

theorem depth_texts (l : List Text) : (Document.texts l).value.depth ≤ 2 := by
  induction l with
  | nil => exact Nat.le_succ 1
  | cons s l ih =>
      have hdepth : (Document.texts (s :: l)).value.depth =
          max 1 (depthAll (Document.valueItems (l.map Document.text))) + 1 := rfl
      have hrest : (Document.texts l).value.depth =
          depthAll (Document.valueItems (l.map Document.text)) + 1 := rfl
      omega

theorem keys_entry (e : Entry) : ∀ k ∈ (entryDocument e).value.keys, k ∈ keyNames := by
  cases e with
  | record record =>
      simp [entryDocument, Document.value, Document.valueMembers, Document.text, keys, keysEntries,
        scalar, keys_texts, keyNames]
  | warning text =>
      simp [entryDocument, Document.value, Document.valueMembers, Document.text, keys, keysEntries,
        scalar, keyNames]

theorem depth_entry (e : Entry) : (entryDocument e).value.depth ≤ 3 := by
  cases e with
  | record record =>
      have hdependencies := depth_texts record.dependencies
      have hdeclarations := depth_texts record.declarations
      simp only [entryDocument, Document.value, Document.valueMembers, Document.text, depth,
        depthEntries]
      omega
  | warning text =>
      simp [entryDocument, Document.value, Document.valueMembers, Document.text, depth,
        depthEntries]

theorem keys_document : ∀ k ∈ (r.document stamp).value.keys, k ∈ keyNames := by
  have hfiles : ∀ k ∈ keysAll (Document.valueItems (r.files.map entryDocument)), k ∈ keyNames := by
    intro k hk
    obtain ⟨v, hv, hk⟩ := mem_keysAll.mp hk
    rw [Document.valueItems_eq, List.map_map] at hv
    obtain ⟨e, -, rfl⟩ := List.mem_map.mp hv
    exact keys_entry e k hk
  simp only [document, Document.value, Document.valueMembers, Document.text, keys, keysEntries,
    scalar, keys_texts, List.append_nil, List.nil_append, List.cons_append, List.mem_cons,
    List.mem_append, List.not_mem_nil, or_false]
  rintro k (rfl | rfl | hk | rfl | rfl | rfl | rfl)
  · simp [keyNames]
  · simp [keyNames]
  · exact hfiles k hk
  all_goals simp [keyNames]

theorem depth_document : (r.document stamp).value.depth ≤ 6 := by
  have hfiles : depthAll (Document.valueItems (r.files.map entryDocument)) ≤ 3 := by
    refine depthAll_le fun v hv => ?_
    rw [Document.valueItems_eq, List.map_map] at hv
    obtain ⟨e, -, rfl⟩ := List.mem_map.mp hv
    exact depth_entry e
  have hpatterns := depth_texts r.excludedPatterns
  simp only [document, Document.value, Document.valueMembers, Document.text, depth, depthEntries]
  omega

theorem keyNames_fit : ∀ k ∈ keyNames,
    Yaml.readBack true k = k ∧ keyFits true (.str k) = true := by
  have htable : (keyNames.all fun k => !k.contains '\x85' && canBeSingleQuoted true k) = true := by
    cbv
  intro k hk
  have hnames := List.all_eq_true.mp htable k hk
  simp only [Bool.and_eq_true, Bool.not_eq_true', List.contains_eq_mem,
    decide_eq_false_iff_not] at hnames
  exact ⟨readBack_eq_self_iff.mpr fun hmem => absurd hmem hnames.1,
    keyFits_of_canBeSingleQuoted hnames.2⟩

theorem read_yaml (hstamp : r.scannedAt.stamp? = some stamp) (hshort : r.Short)
    (hwhole : ∀ record ∈ r.records, record.path.Whole) :
    ∃ t, r.serializeAs ("yaml" : Text) = .ok (RawText.ofText t) ∧
      Yaml.read t = .ok ((r.document stamp).value.readBack true) := by
  have hsimple : (r.document stamp).value.Simple := simple_document hshort
  have hform := Document.yamlForm_eq _ hsimple (whole_document hwhole)
  have hkeys : ∀ k ∈ (r.document stamp).value.keys, Yaml.readBack true k = k := fun k hk =>
    (keyNames_fit k (keys_document k hk)).1
  have hfit : (r.document stamp).value.keysFit true = true :=
    (keysFit_iff _ hsimple).mpr fun k hk => (keyNames_fit k (keys_document k hk)).2
  have hdepth : (r.document stamp).value.depth ≤ 6 := depth_document
  refine ⟨(r.document stamp).value.form.write true, ?_, ?_⟩
  · simp only [serializeAs, Format.ofName?, serialize, hstamp]
    rw [if_neg (by decide), Document.toYaml, hform]
    rfl
  · obtain ⟨e, hvalue⟩ : ∃ e, (r.document stamp).value = .map [e] := ⟨_, rfl⟩
    rw [hvalue] at hsimple hkeys hfit hdepth ⊢
    have hwidth : 2 * depthEntries [e] < Pen.width := by
      simp only [depth] at hdepth
      simp only [Pen.width]
      omega
    have hread := read_write true (List.cons_ne_nil e []) hsimple hwidth hkeys
    rwa [← keysFit, hfit] at hread

/-- The two artifacts say the same of a report if and only if none of its texts with a next-line
character can stand between single quotes. -/
theorem yaml_agrees_iff (hstamp : r.scannedAt.stamp? = some stamp) (hshort : r.Short)
    (hwhole : ∀ record ∈ r.records, record.path.Whole) :
    ∃ json yaml u v, r.serializeAs ("json" : Text) = .ok (RawText.ofText json) ∧
      r.serializeAs ("yaml" : Text) = .ok (RawText.ofText yaml) ∧
      Json.read json = .ok v ∧ Yaml.read yaml = .ok u ∧
      v = (r.document stamp).value ∧ u = v.readBack true ∧
      (u = v ↔ ∀ s, .str s ∈ (r.document stamp).leaves → '\x85' ∈ s.shown →
        canBeSingleQuoted true s.shown = false) := by
  obtain ⟨json, hjson, hv⟩ := read_json hstamp hshort hwhole
  obtain ⟨yaml, hyaml, hu⟩ := read_yaml hstamp hshort hwhole
  refine ⟨json, yaml, _, _, hjson, hyaml, hv, hu, rfl, rfl, ?_⟩
  rw [Document.readBack_value _ fun k hk => (keyNames_fit k (keys_document k hk)).1]
  simp only [readBack_eq_self_iff]

def nextLineReport : Report where
  files := []
  fileCount := 0
  scannedAt := ⟨⟨2024, 1, 2⟩, 3, 4, 5, 0, some 0⟩
  excludedPatterns := [['a', '\x85', 'b']]
  errors := []
  truncated := false
  timedOut := false

theorem yaml_agrees_iff_nextLine :
    nextLineReport.scannedAt.stamp? = some ("2024-01-02T03:04:05.000Z" : Text) ∧
      nextLineReport.Short ∧ (∀ record ∈ nextLineReport.records, record.path.Whole) ∧
      ∃ json yaml u v, nextLineReport.serializeAs ("json" : Text) = .ok (RawText.ofText json) ∧
        nextLineReport.serializeAs ("yaml" : Text) = .ok (RawText.ofText yaml) ∧
        Json.read json = .ok v ∧ Yaml.read yaml = .ok u ∧ u ≠ v := by
  have hstamp : nextLineReport.scannedAt.stamp? = some ("2024-01-02T03:04:05.000Z" : Text) := by
    decide
  have hshort : nextLineReport.Short :=
    ⟨short_of_lt (by decide), fun record hrecord => by simp [records, nextLineReport] at hrecord⟩
  have hwhole : ∀ record ∈ nextLineReport.records, record.path.Whole :=
    fun record hrecord => by simp [records, nextLineReport] at hrecord
  obtain ⟨json, yaml, u, v, hjson, hyaml, hv, hu, -, -, hiff⟩ :=
    yaml_agrees_iff hstamp hshort hwhole
  refine ⟨hstamp, hshort, hwhole, json, yaml, u, v, hjson, hyaml, hv, hu, fun heq => ?_⟩
  have hquoted := hiff.mp heq (RawText.ofText ['a', '\x85', 'b'])
    (by simp [document, Document.leaves, Document.leavesIn, Document.leavesOf, Document.texts,
      Document.text, nextLineReport]) (by decide)
  revert hquoted
  decide

end Report

end SourceScan
