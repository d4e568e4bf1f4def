import SourceScan.Proofs.Path
import SourceScan.Proofs.Walk.Report

/-!
# Which files are recorded

`Recordable` speaks of one path of a tree and of nothing that happened before the walk
came to it.  If nothing is refused and there is room for all of them, the walk records
each recordable file once, and no other file.
-/

namespace SourceScan.Walk

open FileTree Disk

variable {walker : Walker} {d : Disk} {plan : Plan} {clock : Clock}
  {now : Calendar.DateTime} {w : Walk} {limit budget : Int}

/-- The file is accepted, small enough and can be read as text, and so are the directories
above it, no two of which are the same. -/
structure Recordable (w : Walk) (limit : Int) (dir : List FileName) (name : FileName)
    (content : Bytes) (text : Text) : Prop where
  enters : w.Enters dir
  named : isEntryName name = true
  accepted : ∃ place, w.Accepts (dir ++ [name]) place (.file content)
  small : (content.length : Int) ≤ limit
  decoded : Utf8.decode content = .ok text

def fileRecord (w : Walk) (dir : List FileName) (name : FileName) (content : Bytes)
    (text : Text) : FileRecord :=
  let registry := w.walker.registry
  let language := registry.classify (Path.nameSuffix name).shown
  { path := Path.joined (dir ++ [name])
    type := language.name
    size := content.length
    dependencies := registry.extractDependencies text language
    declarations :=
      registry.extractDeclarations w.walker.declarationLimit text language }

theorem recordOf_snoc (dir : List FileName) (name : FileName) (content : Bytes)
    (text : Text) :
    w.recordOf (dir ++ [name]) content.length text = w.fileRecord dir name content text := by
  have hname : (w.pathOf (dir ++ [name])).name = name := by
    simp [pathOf, Path.name]
  simp only [recordOf, fileRecord, Registry.classifyPath, Path.suffix, hname]

/-! ## Records of a walk -/

theorem mem_recordsOf_iff {x : Sight} {r : FileRecord} :
    r ∈ recordsOf (w.outcome limit x) ↔ ∃ (names : List FileName) (size : Nat),
      x = .file names size ∧ (size : Int) ≤ limit ∧ w.reading names size = .ok r := by
  cases x with
  | file names size =>
      by_cases hsize : (size : Int) ≤ limit
      · simp only [outcome, hsize, if_true]
        cases hreading : w.reading names size with
        | error fault => simp [recordsOf, hreading]
        | ok record => simp [recordsOf, hreading, hsize, eq_comm]
      · simp [outcome, hsize, recordsOf]
  | listing dir => simp [outcome, recordsOf]
  | turn names => simp [outcome, recordsOf]
  | misnamed names => simp [outcome, recordsOf]
  | failure names e => simp [outcome, recordsOf]

theorem mem_records_iff {xs : List Sight} {r : FileRecord} :
    r ∈ w.records limit xs ↔ ∃ (names : List FileName) (size : Nat),
      .file names size ∈ xs ∧ (size : Int) ≤ limit ∧ w.reading names size = .ok r := by
  simp only [records, List.mem_flatMap, mem_recordsOf_iff]
  constructor
  · rintro ⟨x, hx, names, size, rfl, h⟩
    exact ⟨names, size, hx, h⟩
  · rintro ⟨names, size, hx, h⟩
    exact ⟨_, hx, names, size, rfl, h⟩

theorem reading_path {names : List FileName} {size : Nat} {r : FileRecord}
    (h : w.reading names size = .ok r) : r.path = Path.joined names := by
  unfold reading at h
  split at h
  · cases h
  · split at h
    · cases h
    · cases h
      rfl

theorem rank_of_isEntry {x : Sight} (h : x.isEntry = true) : x.rank = 1 := by
  cases x with
  | misnamed names => rfl
  | file names size => rfl
  | _ => cases h

theorem pairwise_of_length_le_one {α : Type} {R : α → α → Prop} {l : List α}
    (h : l.length ≤ 1) : l.Pairwise R := by
  match l with
  | [] => exact .nil
  | [a] => exact List.pairwise_singleton R a
  | _ :: _ :: _ => simp at h

theorem paths_nodup (hd : w.disk.tree.wellFormed = true) (hroot : w.Opens []) {α : Type}
    (f : Sight → List α) (path : α → RawText) (hone : ∀ x, (f x).length ≤ 1)
    (hpath : ∀ x, ∀ a ∈ f x, x.isEntry = true ∧ path a = Path.joined x.names) :
    ((w.sights.flatMap f).map path).Nodup := by
  rw [List.Nodup, List.pairwise_map, List.pairwise_flatMap]
  constructor
  · intro x _
    exact pairwise_of_length_le_one (hone x)
  · -- Two sights with the same names cannot both be entries.
    refine (sights_pairwise hd).imp_of_mem ?_
    intro x y hx hy hxy a ha b hb heq
    obtain ⟨hentry, hpatha⟩ := hpath x a ha
    obtain ⟨hentry', hpathb⟩ := hpath y b hb
    obtain ⟨hne, hnamed⟩ := named_of_entry hd hroot hx hentry
    obtain ⟨hne', hnamed'⟩ := named_of_entry hd hroot hy hentry'
    rw [hpatha, hpathb] at heq
    have hsame := Path.joined_injective hnamed hnamed' hne hne' heq
    rcases hxy with hlt | ⟨-, hlt⟩
    · exact NamesBefore.irrefl _ (hsame ▸ hlt)
    · rw [rank_of_isEntry hentry, rank_of_isEntry hentry'] at hlt
      exact Nat.lt_irrefl _ hlt

theorem records_paths_nodup (hd : w.disk.tree.wellFormed = true) (hroot : w.Opens []) :
    ((w.records limit w.sights).map (·.path)).Nodup := by
  refine paths_nodup hd hroot _ _ (fun x => length_recordsOf_le _) fun x r hr => ?_
  obtain ⟨names, size, rfl, -, hreading⟩ := mem_recordsOf_iff.1 hr
  exact ⟨rfl, reading_path hreading⟩

/-! ## Walks without refusals -/

section Free

variable (hfree : w.disk.refusals = [])
include hfree

theorem refused?_of_free (access : Access) (p : Path) : w.disk.refused? access p = none := by
  unfold Disk.refused?
  rw [hfree]
  rfl

theorem not_refused_of_free {dir : List FileName} (h : w.Opens dir) : ¬w.Refused dir := by
  rintro ⟨e, he⟩
  obtain ⟨place, children, hreach, -⟩ := h
  rw [hreach.list (refused?_of_free hfree .list _)] at he
  cases he

theorem not_lost_of_free (hd : w.disk.tree.wellFormed = true) (hroot : w.Opens [])
    {dir : List FileName} (h : w.Opens dir) : ¬w.Lost dir := by
  rintro (hrefused | ⟨other, hother, -, hrefused, -⟩)
  · exact not_refused_of_free hfree h hrefused
  · have hopens := ((listing_mem_iff hd hroot).1 hother).1.opens other (List.prefix_refl _)
    exact not_refused_of_free hfree hopens hrefused

theorem reading_of_accepts {names : List FileName} {place : Place} {content : Bytes}
    (h : w.Accepts names place (.file content)) {r : FileRecord} :
    w.reading names content.length = .ok r ↔
      ∃ text, Utf8.decode content = .ok text ∧ r = w.recordOf names content.length text := by
  have hread : w.disk.readFile (w.pathOf names) = .ok content := by
    unfold Disk.readFile
    rw [refused?_of_free hfree, h.reaches.stat]
  unfold reading
  simp only [hread]
  cases Utf8.decode content with
  | error e => simp
  | ok text => simp [eq_comm]

/-- Without refusals the records are those of the recordable files. -/
theorem mem_records_of_free (hd : w.disk.tree.wellFormed = true) (hroot : w.Opens [])
    {r : FileRecord} :
    r ∈ w.records limit w.sights ↔ ∃ dir name content text,
      w.Recordable limit dir name content text ∧ r = w.fileRecord dir name content text := by
  rw [mem_records_iff]
  constructor
  · rintro ⟨names, size, hx, hsize, hreading⟩
    obtain ⟨dir, name, heq, -⟩ := entry_names hd hroot hx rfl
    obtain rfl : names = dir ++ [name] := heq
    obtain ⟨⟨henters, -⟩, hname, place, content, haccepts, rfl⟩ :=
      (file_mem_iff hd hroot).1 hx
    obtain ⟨text, htext, rfl⟩ := (reading_of_accepts hfree haccepts).1 hreading
    exact ⟨dir, name, content, text, ⟨henters, hname, ⟨place, haccepts⟩, hsize, htext⟩,
      recordOf_snoc dir name content text⟩
  · rintro ⟨dir, name, content, text, ⟨henters, hname, ⟨place, haccepts⟩, hsize, htext⟩, rfl⟩
    refine ⟨dir ++ [name], content.length, ?_, hsize, ?_⟩
    · exact (file_mem_iff hd hroot).2 ⟨⟨henters, fun above habove =>
        not_lost_of_free hfree hd hroot (henters.opens above habove)⟩, hname, place, content,
        haccepts, rfl⟩
    · exact (reading_of_accepts hfree haccepts).2
        ⟨text, htext, (recordOf_snoc dir name content text).symm⟩

end Free

theorem encard_of_nodup {α : Type} {l : List α} (hl : l.Nodup) :
    {x | x ∈ l}.encard = l.length := by
  classical
  rw [← List.coe_toFinset, Set.encard_coe_eq_coe_finsetCard, List.toFinset_card_of_nodup hl]

def recordable (w : Walk) (limit : Int) : Set (List FileName) :=
  {names | ∃ dir name content text, w.Recordable limit dir name content text ∧
    names = dir ++ [name]}

theorem recordable_names {names : List FileName} (h : names ∈ w.recordable limit) :
    names ≠ [] ∧ ∀ name ∈ names, isEntryName name = true := by
  obtain ⟨dir, name, content, text, hrecordable, rfl⟩ := h
  refine ⟨by simp, fun entry hentry => ?_⟩
  rcases List.mem_append.1 hentry with hentry | hentry
  · exact hrecordable.enters.named entry hentry
  · rw [List.mem_singleton.1 hentry]
    exact hrecordable.named

/-- Without refusals as many files are recorded as can be. -/
theorem encard_recordable (hd : w.disk.tree.wellFormed = true)
    (hfree : w.disk.refusals = []) (hroot : w.Opens []) :
    (w.recordable limit).encard = (w.records limit w.sights).length := by
  -- Recordable names and records are matched by their paths.
  have himage : Path.joined '' w.recordable limit =
      {p | p ∈ (w.records limit w.sights).map (·.path)} := by
    ext p
    simp only [Set.mem_image, Set.mem_ofPred_eq, List.mem_map,
      mem_records_of_free hfree hd hroot]
    constructor
    · rintro ⟨-, ⟨dir, name, content, text, h, rfl⟩, rfl⟩
      exact ⟨_, ⟨dir, name, content, text, h, rfl⟩, rfl⟩
    · rintro ⟨-, ⟨dir, name, content, text, h, rfl⟩, rfl⟩
      exact ⟨_, ⟨dir, name, content, text, h, rfl⟩, rfl⟩
  have hinj : Set.InjOn Path.joined (w.recordable limit) := by
    intro names h names' h' heq
    obtain ⟨hne, hnamed⟩ := recordable_names h
    obtain ⟨hne', hnamed'⟩ := recordable_names h'
    exact Path.joined_injective hnamed hnamed' hne hne' heq
  calc (w.recordable limit).encard = (Path.joined '' w.recordable limit).encard :=
        hinj.encard_image.symm
    _ = ((w.records limit w.sights).map (·.path)).length := by
        rw [himage, encard_of_nodup (records_paths_nodup hd hroot)]
    _ = (w.records limit w.sights).length := by rw [List.length_map]

/-- A walk that is refused nothing and may take down more files than there are to record
takes down each recordable file once, and no other.  It fails only if something stands in
its way from the start. -/
theorem walk_records (hd : d.tree.wellFormed = true) (hfree : d.refusals = [])
    (hsize : plan.maxFileSize = .int limit) (hfiles : plan.maxFiles = .int budget)
    (huntimed : plan.scanTimeout = .null) :
    match ofPlan walker d plan clock with
    | .error e => walker.walk d plan clock now = .error e ∧ Hindered d plan
    | .ok w => (w.recordable limit).encard < budget.toNat →
        ∃ report, walker.walk d plan clock now = .ok report ∧
          (report.records.map (·.path)).Nodup ∧
          ∀ r, r ∈ report.records ↔ ∃ dir name content text,
            w.Recordable limit dir name content text ∧
              r = w.fileRecord dir name content text := by
  cases hw : ofPlan walker d plan clock with
  | error e => exact ⟨walk_of_ofPlan_error hw, hindered_of_ofPlan_error hd huntimed hw⟩
  | ok w =>
      intro hbudget
      have hprepared := prepared_of_ofPlan hw
      have hroot := hprepared.opens_root
      have hdw : w.disk.tree.wellFormed = true := hprepared.sameDisk ▸ hd
      have hfreew : w.disk.refusals = [] := hprepared.sameDisk ▸ hfree
      have hlength : (w.records limit w.sights).length < budget.toNat := by
        rw [encard_recordable hdw hfreew hroot] at hbudget
        exact_mod_cast hbudget
      have hroom : w.Room limit budget 0 w.sights := room_of_lt (by omega)
      obtain ⟨place, children, hreach, -⟩ := id hroot
      have hlist := hreach.list (refused?_of_free hfreew .list _)
      refine ⟨_, walk_of_room hd hw (hprepared.counts hsize hfiles huntimed) hlist hroom, ?_, ?_⟩
      · rw [report_add_records]
        exact records_paths_nodup hdw hroot
      · intro r
        rw [report_add_records]
        exact mem_records_of_free hfreew hdw hroot

theorem encard_recordable_mixed : (mixedWalk.recordable 100).encard < (4 : Int).toNat := by
  rw [encard_recordable (by decide) rfl opens_mixed, records_mixed]
  decide

/-- The file in the directory is recorded under both names of the directory.  What the rule leaves
out is not recordable, nor is the file whose name is no text. -/
theorem walk_records_mixed : ∃ report,
    mixedWalker.walk mixedDisk mixedPlan stillClock default = .ok report ∧
      report.records = [mixedWalk.fileRecord [subName] innerName [0x69, 0x0A] innerText,
        mixedWalk.fileRecord [] topName [0x69, 0x20, 0x78, 0x0A, 0x2E] topText,
        mixedWalk.fileRecord [linkName] innerName [0x69, 0x0A] innerText] ∧
      (report.records.map (·.path)).Nodup ∧
      ¬mixedWalk.Recordable 100 [shutName] topName [] [] ∧
      ¬mixedWalk.Recordable 100 [] oddName [] [] := by
  have h := @walk_records mixedWalker mixedDisk mixedPlan stillClock default 100 4
    (by decide) rfl rfl rfl rfl
  rw [ofPlan_mixed] at h
  obtain ⟨report, hwalk, hnodup, hrecords⟩ := h encard_recordable_mixed
  have hreport : report.records = mixedRecords := by
    rw [Except.ok.inj (hwalk.symm.trans walk_mixed)]
    exact records_mixedReport
  have hpath : ∀ {dir name content text}, mixedWalk.Recordable 100 dir name content text →
      Path.joined (dir ++ [name]) ∈ mixedRecords.map (·.path) := by
    intro dir name content text hrecordable
    rw [← hreport]
    exact List.mem_map_of_mem ((hrecords _).2 ⟨dir, name, content, text, hrecordable, rfl⟩)
  have hpaths : mixedRecords.map (·.path) = [Path.joined [subName, innerName],
      Path.joined [topName], Path.joined [linkName, innerName]] := rfl
  refine ⟨report, hwalk, ?_, hnodup, fun hrecordable => ?_, fun hrecordable => ?_⟩
  · rw [hreport, mixedRecords, ← recordOf_snoc, ← recordOf_snoc, ← recordOf_snoc]
    rfl
  · exact absurd (hpaths ▸ hpath hrecordable) (by decide)
  · exact absurd (hpaths ▸ hpath hrecordable) (by decide)

end SourceScan.Walk
