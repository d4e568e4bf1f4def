import SourceScan.Proofs.Disk.Reach
import SourceScan.Report.Artifact

/-!
# Which reports have bytes

A document can be written if none of its numbers has too many digits.  As YAML it is written
in characters then, and as JSON it is if no text of it has a stray byte.
-/

namespace SourceScan

def RawText.Whole (s : RawText) : Prop := ∀ u ∈ s, u.char?.isSome = true

namespace RawText

variable {s t : RawText} {c : Char}

@[simp] theorem whole_nil : Whole [] := by simp [Whole]

@[simp] theorem whole_cons {u : TextUnit} : Whole (u :: s) ↔ u.char?.isSome = true ∧ s.Whole :=
  List.forall_mem_cons

@[simp] theorem whole_append : Whole (s ++ t) ↔ s.Whole ∧ t.Whole := List.forall_mem_append

@[simp] theorem whole_map (text : Text) : Whole (text.map .char) := by
  simp [Whole, TextUnit.char?]

@[simp] theorem whole_ofText (text : Text) : (ofText text).Whole := whole_map text

theorem whole_of_text? {text : Text} (h : s.text? = some text) : s.Whole := by
  rw [ofText_of_text? h]
  exact whole_ofText text

theorem exists_text? (h : s.Whole) : ∃ text, s.text? = some text := by
  induction s with
  | nil => exact ⟨[], rfl⟩
  | cons u s ih =>
      obtain ⟨hu, hs⟩ := whole_cons.1 h
      obtain ⟨text, htext⟩ := ih hs
      cases u with
      | char c => exact ⟨c :: text, by rw [text?, htext]; rfl⟩
      | stray b => cases hu

end RawText

theorem Utf8.exists_encodeStrict {s : RawText} (h : s.Whole) :
    ∃ bytes, Utf8.encodeStrict s = .ok bytes := by
  unfold Utf8.encodeStrict
  split
  · next before b after hcut =>
      obtain ⟨heq, -, -⟩ := Text.eq_of_cutWhere hcut
      have hstray := h (.stray b) (by simp [heq])
      cases hstray
  · exact ⟨_, rfl⟩

def Value.Short (i : Int) : Prop := i.natAbs < Nat.pow 10 Numeral.digitLimit

theorem Value.exists_intText_iff {i : Int} :
    (∃ s, Value.intText i = .ok s) ↔ Value.Short i := by
  unfold Value.intText Value.Short
  split
  · next h => exact iff_of_false (by simp) (Nat.not_lt.2 h)
  · next h => exact iff_of_true ⟨_, rfl⟩ (Nat.not_le.1 h)

namespace Document

mutual

def leaves : Document → List Document
  | .str s => [.str s]
  | .int i => [.int i]
  | .list items => leavesOf items
  | .object members => leavesIn members

def leavesOf : List Document → List Document
  | [] => []
  | d :: ds => leaves d ++ leavesOf ds

def leavesIn : List (Text × Document) → List Document
  | [] => []
  | (_, d) :: ds => leaves d ++ leavesIn ds

end

def Short (d : Document) : Prop := ∀ i, .int i ∈ d.leaves → Value.Short i

def Whole (d : Document) : Prop := ∀ s, .str s ∈ d.leaves → s.Whole

theorem mem_leavesOf {leaf : Document} {ds : List Document} :
    leaf ∈ leavesOf ds ↔ ∃ d ∈ ds, leaf ∈ d.leaves := by
  induction ds with
  | nil => simp [leavesOf]
  | cons d ds ih => simp [leavesOf, ih]

/-! ## Numbers with too many digits -/

mutual

theorem exists_jsonLayout_iff (d : Document) : (∃ l, d.jsonLayout = .ok l) ↔ d.Short := by
  cases d with
  | str s => simp [jsonLayout, Short, leaves]
  | int i =>
      rw [jsonLayout, exists_map_iff, Value.exists_intText_iff]
      simp [Short, leaves]
  | list items =>
      rw [jsonLayout, exists_map_iff, exists_jsonItems_iff]
      rfl
  | object members =>
      rw [jsonLayout, exists_map_iff, exists_jsonMembers_iff]
      rfl

theorem exists_jsonItems_iff (ds : List Document) :
    (∃ ls, jsonItems ds = .ok ls) ↔ ∀ i, .int i ∈ leavesOf ds → Value.Short i := by
  cases ds with
  | nil => simp [jsonItems, leavesOf]
  | cons d ds =>
      rw [jsonItems, exists_map₂_iff, exists_jsonLayout_iff, exists_jsonItems_iff]
      simp only [Short, leavesOf, List.mem_append, or_imp, forall_and]

theorem exists_jsonMembers_iff (ds : List (Text × Document)) :
    (∃ ls, jsonMembers ds = .ok ls) ↔ ∀ i, .int i ∈ leavesIn ds → Value.Short i := by
  cases ds with
  | nil => simp [jsonMembers, leavesIn]
  | cons e ds =>
      obtain ⟨key, d⟩ := e
      rw [jsonMembers, exists_map₂_iff, exists_jsonLayout_iff, exists_jsonMembers_iff]
      simp only [Short, leavesIn, List.mem_append, or_imp, forall_and]

end

mutual

theorem exists_yamlForm_iff (d : Document) : (∃ f, d.yamlForm = .ok f) ↔ d.Short := by
  cases d with
  | str s => simp [yamlForm, Short, leaves]
  | int i =>
      rw [yamlForm, exists_map_iff, Value.exists_intText_iff]
      simp [Short, leaves]
  | list items =>
      rw [yamlForm, exists_map_iff, exists_yamlItems_iff]
      rfl
  | object members =>
      rw [yamlForm, exists_map_iff, exists_yamlMembers_iff]
      rfl

theorem exists_yamlItems_iff (ds : List Document) :
    (∃ fs, yamlItems ds = .ok fs) ↔ ∀ i, .int i ∈ leavesOf ds → Value.Short i := by
  cases ds with
  | nil => simp [yamlItems, leavesOf]
  | cons d ds =>
      rw [yamlItems, exists_map₂_iff, exists_yamlForm_iff, exists_yamlItems_iff]
      simp only [Short, leavesOf, List.mem_append, or_imp, forall_and]

theorem exists_yamlMembers_iff (ds : List (Text × Document)) :
    (∃ fs, yamlMembers ds = .ok fs) ↔ ∀ i, .int i ∈ leavesIn ds → Value.Short i := by
  cases ds with
  | nil => simp [yamlMembers, leavesIn]
  | cons e ds =>
      obtain ⟨key, d⟩ := e
      rw [yamlMembers, exists_map₂_iff, exists_yamlForm_iff, exists_yamlMembers_iff]
      simp only [Short, leavesIn, List.mem_append, or_imp, forall_and]

end

/-! ## Texts with stray bytes -/

theorem whole_lineBreak (depth : Nat) : RawText.Whole (Json.Layout.lineBreak .char depth) := by
  simp [Json.Layout.lineBreak, RawText.Whole, TextUnit.char?]

theorem whole_wideString {s : RawText} (h : s.Whole) : (Json.wideString s).Whole := by
  simp only [Json.wideString, List.cons_append, RawText.whole_cons, RawText.whole_append]
  refine ⟨rfl, fun u hu => ?_, rfl, RawText.whole_nil⟩
  obtain ⟨v, hv, hu⟩ := List.mem_flatMap.1 hu
  cases v with
  | char c => exact RawText.whole_map _ u hu
  | stray b => cases h _ hv

mutual

theorem whole_pretty {d : Document} (h : d.Whole) {l : Json.Layout TextUnit}
    (hl : d.jsonLayout = .ok l) (depth : Nat) : RawText.Whole (l.pretty .char depth) := by
  cases d with
  | str s =>
      cases hl
      exact whole_wideString (h s (by simp [leaves]))
  | int i =>
      obtain ⟨text, -, hl⟩ := ok_of_bind hl
      cases hl
      exact RawText.whole_ofText text
  | list items =>
      obtain ⟨ls, hls, hl⟩ := ok_of_bind hl
      cases hl
      have hitems := whole_prettyItems h hls (depth + 1)
      cases ls with
      | nil => simp [Json.Layout.pretty, TextUnit.char?]
      | cons l ls =>
          simp_all [Json.Layout.prettyItems, Json.Layout.pretty, whole_lineBreak, TextUnit.char?]
  | object members =>
      obtain ⟨ls, hls, hl⟩ := ok_of_bind hl
      cases hl
      have hmembers := whole_prettyMembers h hls (depth + 1)
      cases ls with
      | nil => simp [Json.Layout.pretty, TextUnit.char?]
      | cons l ls =>
          simp_all [Json.Layout.prettyMembers, Json.Layout.pretty, whole_lineBreak,
            TextUnit.char?]

theorem whole_prettyItems {ds : List Document} (h : ∀ s, .str s ∈ leavesOf ds → s.Whole)
    {ls : List (Json.Layout TextUnit)} (hls : jsonItems ds = .ok ls) (depth : Nat) :
    RawText.Whole (Json.Layout.prettyItems .char depth ls) := by
  cases ds with
  | nil =>
      cases hls
      exact RawText.whole_nil
  | cons d ds =>
      obtain ⟨l, hl, hls⟩ := ok_of_bind hls
      obtain ⟨more, hmore, hls⟩ := ok_of_bind hls
      cases hls
      simp only [leavesOf, List.mem_append, or_imp, forall_and] at h
      simp [Json.Layout.prettyItems, whole_lineBreak, whole_pretty h.1 hl,
        whole_prettyItems h.2 hmore, TextUnit.char?]

theorem whole_prettyMembers {ds : List (Text × Document)}
    (h : ∀ s, .str s ∈ leavesIn ds → s.Whole)
    {ls : List (RawText × Json.Layout TextUnit)} (hls : jsonMembers ds = .ok ls) (depth : Nat) :
    RawText.Whole (Json.Layout.prettyMembers .char depth ls) := by
  cases ds with
  | nil =>
      cases hls
      exact RawText.whole_nil
  | cons e ds =>
      obtain ⟨key, d⟩ := e
      obtain ⟨l, hl, hls⟩ := ok_of_bind hls
      obtain ⟨more, hmore, hls⟩ := ok_of_bind hls
      cases hls
      simp only [leavesIn, List.mem_append, or_imp, forall_and] at h
      simp [Json.Layout.prettyMembers, whole_lineBreak, whole_pretty h.1 hl,
        whole_prettyMembers h.2 hmore, whole_wideString, TextUnit.char?]

end

end Document

namespace Report

variable {r : Report} {target : Path} {stamp : Text}

/-- The numbers of a report have no more digits than can be written. -/
structure Short (r : Report) : Prop where
  fileCount : Value.Short r.fileCount
  sizes : ∀ record ∈ r.records, Value.Short record.size

theorem not_int_mem_texts (l : List Text) (i : Int) : .int i ∉ (Document.texts l).leaves := by
  rw [Document.texts, Document.leaves, Document.mem_leavesOf]
  rintro ⟨d, hd, hmem⟩
  obtain ⟨text, -, rfl⟩ := List.mem_map.1 hd
  simp [Document.text, Document.leaves] at hmem

theorem whole_of_mem_texts {l : List Text} {s : RawText}
    (h : .str s ∈ (Document.texts l).leaves) : s.Whole := by
  rw [Document.texts, Document.leaves, Document.mem_leavesOf] at h
  obtain ⟨d, hd, hmem⟩ := h
  obtain ⟨text, -, rfl⟩ := List.mem_map.1 hd
  simp only [Document.text, Document.leaves, List.mem_singleton, Document.str.injEq] at hmem
  rw [hmem]
  exact RawText.whole_ofText text

theorem int_mem_entry {e : Entry} {i : Int} :
    .int i ∈ (entryDocument e).leaves ↔ ∃ record, e = .record record ∧ i = record.size := by
  cases e with
  | record record =>
      simp [entryDocument, Document.leaves, Document.leavesIn, Document.text, not_int_mem_texts]
  | warning text => simp [entryDocument, Document.leaves, Document.leavesIn, Document.text]

theorem whole_of_mem_entry {e : Entry} {s : RawText}
    (h : ∀ record, e = .record record → record.path.Whole)
    (hs : .str s ∈ (entryDocument e).leaves) : s.Whole := by
  cases e with
  | record record =>
      simp only [entryDocument, Document.leaves, Document.leavesIn, Document.text,
        List.mem_append, List.mem_singleton, Document.str.injEq, reduceCtorEq, false_or,
        List.not_mem_nil, or_false] at hs
      rcases hs with rfl | rfl | hs | hs
      · exact h record rfl
      · exact RawText.whole_ofText _
      · exact whole_of_mem_texts hs
      · exact whole_of_mem_texts hs
  | warning text =>
      simp only [entryDocument, Document.leaves, Document.leavesIn, Document.text,
        List.mem_append, List.mem_singleton, Document.str.injEq, List.not_mem_nil,
        or_false] at hs
      rw [hs]
      exact RawText.whole_ofText text

theorem mem_records_iff {record : FileRecord} :
    record ∈ r.records ↔ .record record ∈ r.files := by
  simp only [records, List.mem_filterMap]
  constructor
  · rintro ⟨e, he, hrecord⟩
    cases e with
    | record other =>
        cases hrecord
        exact he
    | warning text => cases hrecord
  · intro h
    exact ⟨_, h, rfl⟩

theorem short_document_iff : (r.document stamp).Short ↔ r.Short := by
  have hfiles : (∀ i, .int i ∈ Document.leavesOf (r.files.map entryDocument) →
      Value.Short i) ↔ ∀ record ∈ r.records, Value.Short record.size := by
    simp only [Document.mem_leavesOf, List.mem_map, mem_records_iff]
    constructor
    · intro h record hrecord
      exact h _ ⟨_, ⟨_, hrecord, rfl⟩, int_mem_entry.2 ⟨record, rfl, rfl⟩⟩
    · rintro h i ⟨d, ⟨e, he, rfl⟩, hi⟩
      obtain ⟨record, rfl, rfl⟩ := int_mem_entry.1 hi
      exact h record he
  rw [Document.Short, document]
  simp only [Document.leaves, Document.leavesIn, Document.text, List.append_nil,
    List.mem_append, or_imp, forall_and, hfiles, not_int_mem_texts, List.mem_singleton,
    Document.int.injEq, forall_eq, reduceCtorEq, false_imp_iff, and_true]
  exact ⟨fun h => ⟨h.2, h.1⟩, fun h => ⟨h.sizes, h.fileCount⟩⟩

theorem whole_document (h : ∀ record ∈ r.records, record.path.Whole) :
    (r.document stamp).Whole := by
  intro s hs
  rw [document] at hs
  simp only [Document.leaves, Document.leavesIn, Document.text, List.append_nil,
    List.mem_append, List.mem_singleton, Document.str.injEq, reduceCtorEq, false_or] at hs
  rcases hs with hs | rfl | hs
  · obtain ⟨d, hd, hs⟩ := Document.mem_leavesOf.1 hs
    obtain ⟨e, he, rfl⟩ := List.mem_map.1 hd
    refine whole_of_mem_entry (fun record heq => h record ?_) hs
    rw [mem_records_iff, ← heq]
    exact he
  · exact RawText.whole_ofText stamp
  · exact whole_of_mem_texts hs

theorem short_of_payload {bytes : Bytes} (h : r.payload target = .ok bytes) : r.Short := by
  unfold payload at h
  cases hs : r.serialize (Format.ofPath target) with
  | error e =>
      rw [hs] at h
      cases e <;> cases h
  | ok s =>
      unfold serialize at hs
      split at hs
      · cases hs
      · next stamp _ =>
          refine short_document_iff.1 (?_ : (r.document stamp).Short)
          have hs := ok_of_mapError hs
          split at hs
          · obtain ⟨l, hl, -⟩ := ok_of_bind hs
            exact (Document.exists_jsonLayout_iff _).1 ⟨l, hl⟩
          · obtain ⟨f, hf, -⟩ := ok_of_bind hs
            exact (Document.exists_yamlForm_iff _).1 ⟨f, hf⟩

/-- A report has bytes if its time and its numbers can be written and its paths are texts. -/
theorem exists_payload (target : Path) (hstamp : r.scannedAt.stamp?.isSome = true)
    (hshort : r.Short) (hwhole : ∀ record ∈ r.records, record.path.Whole) :
    ∃ bytes, r.payload target = .ok bytes := by
  obtain ⟨stamp, hstamp⟩ := Option.isSome_iff_exists.1 hstamp
  have hdocument : (r.document stamp).Short := short_document_iff.2 hshort
  have hserialize : ∃ s, r.serialize (Format.ofPath target) = .ok s ∧ RawText.Whole s := by
    unfold serialize
    rw [hstamp]
    dsimp only
    cases Format.ofPath target with
    | json =>
        obtain ⟨l, hl⟩ := (Document.exists_jsonLayout_iff _).2 hdocument
        refine ⟨l.pretty .char 0 ++ [.char '\n'], ?_, ?_⟩
        · simp [Document.toJson, hl, bind, Except.bind, pure, Except.pure, Except.mapError]
        · simp [Document.whole_pretty (whole_document hwhole) hl, TextUnit.char?]
    | yaml =>
        obtain ⟨f, hf⟩ := (Document.exists_yamlForm_iff _).2 hdocument
        refine ⟨RawText.ofText (f.write true), ?_, RawText.whole_ofText _⟩
        simp [Document.toYaml, hf, bind, Except.bind, pure, Except.pure, Except.mapError]
  obtain ⟨s, hs, hclean⟩ := hserialize
  obtain ⟨bytes, hbytes⟩ := Utf8.exists_encodeStrict hclean
  refine ⟨bytes, ?_⟩
  unfold payload
  rw [hs]
  simp only [hbytes, Except.mapError]

end Report

end SourceScan
