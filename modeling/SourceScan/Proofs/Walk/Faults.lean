import SourceScan.Proofs.Walk.Records

/-!
# Refused paths

A walk that is refused some paths is compared with the walk of the same tree that is
refused nothing.  A refused file only turns its own record into a fault.  A directory
that cannot be listed takes away what is below it, but it also stays among the visited
ones.  So what is below the same directory under a later name is missing as well.
-/

namespace SourceScan

def Disk.withoutRefusals (d : Disk) : Disk := { d with refusals := [] }

def namesIn (path : RawText) : List FileName := (Path.parse path).names

namespace Walk

open FileTree Disk

variable {walker : Walker} {d : Disk} {plan : Plan} {clock : Clock}
  {now : Calendar.DateTime} {w : Walk} {limit budget : Int}

def withoutRefusals (w : Walk) : Walk := { w with disk := w.disk.withoutRefusals }

def Spared (w : Walk) (names : List FileName) : Prop :=
  ∀ above, above <+: names → above ≠ names → ¬w.Refused above

def Kept (w : Walk) (names : List FileName) : Prop :=
  ∀ above, above <+: names → above ≠ names → ¬w.Lost above

def Unreadable (w : Walk) (names : List FileName) : Prop :=
  (w.disk.refused? .read (w.pathOf names)).isSome = true

theorem Kept.spared {names : List FileName} (h : w.Kept names) : w.Spared names :=
  fun above habove hne hrefused => h above habove hne (.inl hrefused)

/-! ## What refusals do not change -/

theorem anyFile_withoutRefusals (d : Disk) (root : Path) (markers : List Text) :
    ProjectKind.anyFile d.withoutRefusals root markers =
      ProjectKind.anyFile d root markers := by
  induction markers with
  | nil => rfl
  | cons marker markers ih =>
      unfold ProjectKind.anyFile
      rw [ih]
      rfl

theorem rulesAt_withoutRefusals (d : Disk) (root : Path) :
    ProjectKind.rulesAt d.withoutRefusals root = ProjectKind.rulesAt d root := by
  simp only [ProjectKind.rulesAt, ProjectKind.detect, anyFile_withoutRefusals]

theorem ofPlan_withoutRefusals (walker : Walker) (d : Disk) (plan : Plan) (clock : Clock) :
    ofPlan walker d.withoutRefusals plan clock =
      (ofPlan walker d plan clock).map (·.withoutRefusals) :=
  ofPlan_map rfl (fun root _ => rulesAt_withoutRefusals d root) (fun _ => rfl)
    (fun _ => rfl) rfl fun _ _ _ _ _ _ _ => rfl

theorem accepts_withoutRefusals {names : List FileName} {place : Place} {t : FileTree} :
    w.withoutRefusals.Accepts names place t ↔ w.Accepts names place t :=
  ⟨fun h => ⟨h.reaches, h.inside, h.kept⟩, fun h => ⟨h.reaches, h.inside, h.kept⟩⟩

theorem opens_withoutRefusals {dir : List FileName} :
    w.withoutRefusals.Opens dir ↔ w.Opens dir := by
  unfold Opens
  simp only [accepts_withoutRefusals]
  rfl

theorem enters_withoutRefusals {dir : List FileName} :
    w.withoutRefusals.Enters dir ↔ w.Enters dir := by
  constructor
  · intro h
    exact ⟨h.named, fun above habove => opens_withoutRefusals.1 (h.opens above habove), h.apart⟩
  · intro h
    exact ⟨h.named, fun above habove => opens_withoutRefusals.2 (h.opens above habove), h.apart⟩

theorem recordable_withoutRefusals :
    w.withoutRefusals.recordable limit = w.recordable limit := by
  ext names
  constructor
  · rintro ⟨dir, name, content, text, h, rfl⟩
    obtain ⟨place, haccepts⟩ := h.accepted
    exact ⟨dir, name, content, text, ⟨enters_withoutRefusals.1 h.enters, h.named,
      ⟨place, accepts_withoutRefusals.1 haccepts⟩, h.small, h.decoded⟩, rfl⟩
  · rintro ⟨dir, name, content, text, h, rfl⟩
    obtain ⟨place, haccepts⟩ := h.accepted
    exact ⟨dir, name, content, text, ⟨enters_withoutRefusals.2 h.enters, h.named,
      ⟨place, accepts_withoutRefusals.2 haccepts⟩, h.small, h.decoded⟩, rfl⟩

theorem reading_of_unreadable {names : List FileName} (h : w.Unreadable names)
    (size : Nat) : ∃ reason, w.reading names size = .error ⟨Path.joined names, reason⟩ := by
  obtain ⟨fault, hfault⟩ := Option.isSome_iff_exists.1 h
  unfold reading Disk.readFile
  rw [hfault]
  exact ⟨_, rfl⟩

theorem reading_of_readable {names : List FileName} (h : ¬w.Unreadable names)
    (size : Nat) : w.reading names size = w.withoutRefusals.reading names size := by
  have hnone : w.disk.refused? .read (w.pathOf names) = none := by
    simpa [Unreadable] using h
  have hread : w.withoutRefusals.disk.readFile (w.withoutRefusals.pathOf names) =
      w.disk.readFile (w.pathOf names) := by
    unfold Disk.readFile
    rw [hnone]
    rfl
  unfold reading
  rw [hread]
  rfl

/-! ## The entries that are left -/

section Entries

variable (hd : w.disk.tree.wellFormed = true) (hroot : w.Opens [])
include hd hroot

theorem not_lost_withoutRefusals {dir : List FileName} (h : w.Opens dir) :
    ¬w.withoutRefusals.Lost dir :=
  not_lost_of_free (w := w.withoutRefusals) rfl hd (opens_withoutRefusals.2 hroot)
    (opens_withoutRefusals.2 h)

/-- An entry comes up exactly if it does so without refusals and nothing above it is
lost. -/
theorem entry_mem_iff {x : Sight} (hentry : x.isEntry = true) :
    x ∈ w.sights ↔ x ∈ w.withoutRefusals.sights ∧ w.Kept x.names := by
  have hroot' : w.withoutRefusals.Opens [] := opens_withoutRefusals.2 hroot
  have hkept : ∀ dir name, w.Kept (dir ++ [name]) ↔
      ∀ above, above <+: dir → ¬w.Lost above := by
    intro dir name
    constructor
    · intro h above habove
      refine h above (habove.trans (List.prefix_append _ _)) ?_
      rintro rfl
      exact not_prefix_self habove
    · intro h above habove hne
      exact h above ((prefix_snoc_iff.1 habove).resolve_right hne)
  -- Without refusals nothing is lost on the way to a directory that is entered.
  have hfree : ∀ dir, w.Enters dir → ∀ above, above <+: dir →
      ¬w.withoutRefusals.Lost above := fun dir h above habove =>
    not_lost_withoutRefusals hd hroot (h.opens above habove)
  rcases List.eq_nil_or_concat' x.names with hnil | ⟨dir, name, hnames⟩
  · constructor
    · intro hx
      exact absurd hnil (named_of_entry hd hroot hx hentry).1
    · rintro ⟨hx, -⟩
      exact absurd hnil (named_of_entry (w := w.withoutRefusals) hd hroot' hx hentry).1
  cases x with
  | file names size =>
      obtain rfl : names = dir ++ [name] := hnames
      rw [file_mem_iff hd hroot, file_mem_iff (w := w.withoutRefusals) hd hroot',
        enters_withoutRefusals]
      simp only [Sight.names, hkept, accepts_withoutRefusals]
      constructor
      · rintro ⟨⟨henters, hlost⟩, hrest⟩
        exact ⟨⟨⟨henters, hfree dir henters⟩, hrest⟩, hlost⟩
      · rintro ⟨⟨⟨henters, -⟩, hrest⟩, hlost⟩
        exact ⟨⟨henters, hlost⟩, hrest⟩
  | misnamed names =>
      obtain rfl : names = dir ++ [name] := hnames
      rw [misnamed_mem_iff hd hroot, misnamed_mem_iff (w := w.withoutRefusals) hd hroot',
        enters_withoutRefusals]
      simp only [Sight.names, hkept]
      constructor
      · rintro ⟨⟨henters, hlost⟩, hrest⟩
        exact ⟨⟨⟨henters, hfree dir henters⟩, hrest⟩, hlost⟩
      · rintro ⟨⟨⟨henters, -⟩, hrest⟩, hlost⟩
        exact ⟨⟨henters, hlost⟩, hrest⟩
  | listing dir => cases hentry
  | turn names => cases hentry
  | failure names e => cases hentry

open scoped Classical in
theorem entries_eq_filter :
    w.sights.filter Sight.isEntry =
      (w.withoutRefusals.sights.filter Sight.isEntry).filter (w.Kept ·.names) := by
  -- Both lists are in the order of the names, so it is enough to compare their members.
  have hfirst := (sights_pairwise hd).filter Sight.isEntry
  have hsecond := ((sights_pairwise (w := w.withoutRefusals) hd).filter
    Sight.isEntry).filter (w.Kept ·.names)
  refine hfirst.eq_of_mem_iff hsecond fun x => ?_
  simp only [List.mem_filter, decide_eq_true_eq]
  constructor
  · rintro ⟨hx, hentry⟩
    obtain ⟨hfree, hkept⟩ := (entry_mem_iff hd hroot hentry).1 hx
    exact ⟨⟨hfree, hentry⟩, hkept⟩
  · rintro ⟨⟨hfree, hentry⟩, hkept⟩
    exact ⟨(entry_mem_iff hd hroot hentry).2 ⟨hfree, hkept⟩, hentry⟩

end Entries

/-! ## What is reported of them -/

theorem flatMap_filter {α β : Type} (p : α → Bool) (f : α → List β) (xs : List α) :
    (xs.filter p).flatMap f = xs.flatMap fun x => if p x then f x else [] := by
  induction xs with
  | nil => rfl
  | cons x xs ih =>
      rw [List.filter_cons, List.flatMap_cons]
      split
      · rw [List.flatMap_cons, ih]
      · rw [ih, List.nil_append]

theorem flatMap_entries {α : Type} {f : Sight → List α}
    (h : ∀ x, x.isEntry = false → f x = []) (xs : List Sight) :
    (xs.filter Sight.isEntry).flatMap f = xs.flatMap f := by
  rw [flatMap_filter]
  refine List.flatMap_congr fun x _ => ?_
  cases hx : x.isEntry with
  | true => rfl
  | false => exact (h x hx).symm

theorem outcome_of_not_entry {x : Sight} (h : x.isEntry = false) :
    w.outcome limit x = none := by
  cases x with
  | misnamed names => cases h
  | file names size => cases h
  | listing dir => rfl
  | turn names => rfl
  | failure names e => rfl

theorem namesIn_joined {names : List FileName} (hne : names ≠ [])
    (h : ∀ name ∈ names, isEntryName name = true) : namesIn (Path.joined names) = names := by
  rw [namesIn, Path.parse_joined h hne]

theorem length_faultsOf_le (r : Option (Except ReadFault FileRecord)) :
    (faultsOf r).length ≤ 1 := by
  unfold faultsOf
  split <;> simp

theorem path_of_reading_error {names : List FileName} {size : Nat} {fault : ReadFault}
    (h : w.reading names size = .error fault) : fault.path = Path.joined names := by
  unfold reading at h
  split at h
  · cases h
    rfl
  · split at h
    · cases h
      rfl
    · cases h

theorem path_of_mem_faultsOf {x : Sight} {fault : ReadFault}
    (h : fault ∈ faultsOf (w.outcome limit x)) :
    x.isEntry = true ∧ fault.path = Path.joined x.names := by
  cases x with
  | misnamed names =>
      obtain rfl := List.mem_singleton.1 h
      exact ⟨rfl, rfl⟩
  | file names size =>
      refine ⟨rfl, ?_⟩
      by_cases hsize : (size : Int) ≤ limit
      · cases hreading : w.reading names size with
        | ok r => simp [outcome, hsize, hreading, faultsOf] at h
        | error e =>
            simp only [outcome, hsize, if_true, hreading, faultsOf, List.mem_singleton] at h
            subst h
            exact path_of_reading_error hreading
      · simp [outcome, hsize, faultsOf] at h
  | listing dir => cases h
  | turn names => cases h
  | failure names e => cases h

theorem path_of_mem_recordsOf {x : Sight} {r : FileRecord}
    (h : r ∈ recordsOf (w.outcome limit x)) :
    x.isEntry = true ∧ r.path = Path.joined x.names := by
  obtain ⟨names, size, rfl, -, hreading⟩ := mem_recordsOf_iff.1 h
  exact ⟨rfl, reading_path hreading⟩

theorem mem_paths_iff {α : Type} {f : Sight → List α} {path : α → RawText}
    (hpath : ∀ x, ∀ a ∈ f x, x.isEntry = true ∧ path a = Path.joined x.names)
    {xs : List Sight} {p : RawText} :
    p ∈ (xs.flatMap f).map path ↔
      ∃ x ∈ xs, x.isEntry = true ∧ f x ≠ [] ∧ p = Path.joined x.names := by
  simp only [List.mem_map, List.mem_flatMap]
  constructor
  · rintro ⟨a, ⟨x, hx, ha⟩, rfl⟩
    obtain ⟨hentry, heq⟩ := hpath x a ha
    exact ⟨x, hx, hentry, List.ne_nil_of_mem ha, heq⟩
  · rintro ⟨x, hx, -, hne, rfl⟩
    obtain ⟨a, ha⟩ := List.exists_mem_of_ne_nil _ hne
    exact ⟨a, ⟨x, hx, ha⟩, (hpath x a ha).2⟩

theorem mem_fault_paths_iff {xs : List Sight} {p : RawText} :
    p ∈ (w.faults limit xs).map (·.path) ↔ ∃ x ∈ xs, x.isEntry = true ∧
      faultsOf (w.outcome limit x) ≠ [] ∧ p = Path.joined x.names :=
  mem_paths_iff fun _ _ => path_of_mem_faultsOf

theorem mem_record_paths_iff {xs : List Sight} {p : RawText} :
    p ∈ (w.records limit xs).map (·.path) ↔ ∃ x ∈ xs, x.isEntry = true ∧
      recordsOf (w.outcome limit x) ≠ [] ∧ p = Path.joined x.names :=
  mem_paths_iff fun _ _ => path_of_mem_recordsOf

/-- An entry is a fault if it is one without refusals, or if it is refused and would be
recorded. -/
theorem fails_iff {x : Sight} (hentry : x.isEntry = true) :
    faultsOf (w.outcome limit x) ≠ [] ↔
      faultsOf (w.withoutRefusals.outcome limit x) ≠ [] ∨
        w.Unreadable x.names ∧ recordsOf (w.withoutRefusals.outcome limit x) ≠ [] := by
  cases x with
  | misnamed names => simp [outcome, faultsOf]
  | file names size =>
      by_cases hsize : (size : Int) ≤ limit
      · by_cases hunreadable : w.Unreadable names
        · obtain ⟨reason, hreading⟩ := reading_of_unreadable hunreadable size
          simp only [outcome, hsize, if_true, hreading, Sight.names, hunreadable, true_and]
          cases w.withoutRefusals.reading names size <;> simp [faultsOf, recordsOf]
        · simp [outcome, hsize, reading_of_readable hunreadable, Sight.names, hunreadable]
      · simp [outcome, hsize, faultsOf, recordsOf]
  | listing dir => cases hentry
  | turn names => cases hentry
  | failure names e => cases hentry

section Reports

variable (hd : w.disk.tree.wellFormed = true) (hroot : w.Opens [])
include hd hroot

open scoped Classical in
theorem records_eq_filter :
    w.records limit w.sights = (w.withoutRefusals.records limit
      w.withoutRefusals.sights).filter fun r =>
        w.Kept (namesIn r.path) ∧ ¬w.Unreadable (namesIn r.path) := by
  have hnone : ∀ (v : Walk) (x : Sight), x.isEntry = false →
      recordsOf (v.outcome limit x) = [] := by
    intro v x hx
    rw [outcome_of_not_entry hx]
    rfl
  -- Each entry that is left contributes what it did, unless it cannot be read.
  rw [records, records, ← flatMap_entries (hnone w) w.sights, entries_eq_filter hd hroot,
    flatMap_filter, ← flatMap_entries (hnone w.withoutRefusals) w.withoutRefusals.sights,
    List.filter_flatMap]
  refine List.flatMap_congr fun x hx => ?_
  obtain ⟨hx, hentry⟩ := List.mem_filter.1 hx
  obtain ⟨hne, hnamed⟩ := named_of_entry (w := w.withoutRefusals) hd
    (opens_withoutRefusals.2 hroot) hx hentry
  have hnames : ∀ r ∈ recordsOf (w.withoutRefusals.outcome limit x),
      namesIn r.path = x.names := by
    intro r hr
    obtain ⟨names, size, rfl, -, hreading⟩ := mem_recordsOf_iff.1 hr
    rw [reading_path hreading]
    exact namesIn_joined hne hnamed
  have hfilter : (recordsOf (w.withoutRefusals.outcome limit x)).filter
      (fun r => w.Kept (namesIn r.path) ∧ ¬w.Unreadable (namesIn r.path)) =
        if w.Kept x.names ∧ ¬w.Unreadable x.names then
          recordsOf (w.withoutRefusals.outcome limit x) else [] := by
    split
    · next h =>
        refine List.filter_eq_self.2 fun r hr => ?_
        rw [hnames r hr]
        exact decide_eq_true h
    · next h =>
        refine List.filter_eq_nil_iff.2 fun r hr => ?_
        rw [hnames r hr]
        simpa using h
  rw [hfilter]
  by_cases hkept : w.Kept x.names
  · simp only [hkept, decide_true, if_true, true_and]
    cases x with
    | misnamed names => simp [outcome, recordsOf]
    | file names size =>
        by_cases hunreadable : w.Unreadable names
        · obtain ⟨reason, hreading⟩ := reading_of_unreadable hunreadable size
          simp only [outcome, hreading, Sight.names, hunreadable, not_true_eq_false,
            if_false]
          split <;> rfl
        · simp only [outcome, reading_of_readable hunreadable, Sight.names, hunreadable,
            not_false_eq_true, if_true]
    | listing dir => cases hentry
    | turn names => cases hentry
    | failure names e => cases hentry
  · simp only [hkept, decide_false, Bool.false_eq_true, if_false, false_and]

theorem fault_paths_nodup : ((w.faults limit w.sights).map (·.path)).Nodup := by
  refine paths_nodup hd hroot _ _ (fun x => length_faultsOf_le _) fun x fault hfault => ?_
  exact path_of_mem_faultsOf hfault

/-- The paths of the faults are those without refusals and those of the refused files,
except below lost directories. -/
theorem fault_path_iff {p : RawText} :
    p ∈ (w.faults limit w.sights).map (·.path) ↔ w.Kept (namesIn p) ∧
      (p ∈ (w.withoutRefusals.faults limit w.withoutRefusals.sights).map (·.path) ∨
        w.Unreadable (namesIn p) ∧
          p ∈ (w.withoutRefusals.records limit w.withoutRefusals.sights).map (·.path)) := by
  have hroot' : w.withoutRefusals.Opens [] := opens_withoutRefusals.2 hroot
  have hnames : ∀ x ∈ w.withoutRefusals.sights, x.isEntry = true →
      namesIn (Path.joined x.names) = x.names := by
    intro x hx hentry
    obtain ⟨hne, hnamed⟩ := named_of_entry (w := w.withoutRefusals) hd hroot' hx hentry
    exact namesIn_joined hne hnamed
  simp only [mem_fault_paths_iff, mem_record_paths_iff]
  constructor
  · rintro ⟨x, hx, hentry, hfails, rfl⟩
    obtain ⟨hfree, hkept⟩ := (entry_mem_iff hd hroot hentry).1 hx
    rw [hnames x hfree hentry]
    refine ⟨hkept, ((fails_iff hentry).1 hfails).imp (fun h => ⟨x, hfree, hentry, h, rfl⟩)
      fun h => ⟨h.1, x, hfree, hentry, h.2, rfl⟩⟩
  · rintro ⟨hkept, ⟨x, hx, hentry, hfails, rfl⟩ | ⟨hunreadable, x, hx, hentry, hrecords, rfl⟩⟩
    · rw [hnames x hx hentry] at hkept
      exact ⟨x, (entry_mem_iff hd hroot hentry).2 ⟨hx, hkept⟩, hentry,
        (fails_iff hentry).2 (.inl hfails), rfl⟩
    · rw [hnames x hx hentry] at hkept hunreadable
      exact ⟨x, (entry_mem_iff hd hroot hentry).2 ⟨hx, hkept⟩, hentry,
        (fails_iff hentry).2 (.inr ⟨hunreadable, hrecords⟩), rfl⟩

end Reports

/-! ## Walks with and without refusals -/

open scoped Classical in
/-- What is left of a report if only some paths come up and some of them cannot be
read. -/
structure Leaves (w : Walk) (comesUp : List FileName → Prop) (free report : Report) :
    Prop where
  records : report.records = free.records.filter fun r =>
    comesUp (namesIn r.path) ∧ ¬w.Unreadable (namesIn r.path)
  nodup : (report.errors.map (·.path)).Nodup
  errors : ∀ p, p ∈ report.errors.map (·.path) ↔ comesUp (namesIn p) ∧
    (p ∈ free.errors.map (·.path) ∨
      w.Unreadable (namesIn p) ∧ p ∈ free.records.map (·.path))

theorem leaves_kept (hd : w.disk.tree.wellFormed = true) (hroot : w.Opens []) :
    w.Leaves w.Kept
      (w.withoutRefusals.report now (w.withoutRefusals.start.add
        (w.withoutRefusals.records limit w.withoutRefusals.sights)
        (w.withoutRefusals.faults limit w.withoutRefusals.sights)))
      (w.report now (w.start.add (w.records limit w.sights) (w.faults limit w.sights))) := by
  refine ⟨?_, fault_paths_nodup hd hroot, fun p => ?_⟩
  · rw [report_add_records, report_add_records]
    exact records_eq_filter hd hroot
  · rw [report_add_records]
    exact fault_path_iff hd hroot

open scoped Classical in
/-- Two accounts of a report are the same if they agree on all that is reported without
refusals. -/
theorem Leaves.iff_of_imp {some more : List FileName → Prop} {free report : Report}
    (h : w.Leaves some free report) (himp : ∀ names, some names → more names) :
    w.Leaves more free report ↔
      ∀ p ∈ free.records.map (·.path) ++ free.errors.map (·.path),
        more (namesIn p) → some (namesIn p) := by
  constructor
  · intro h' p hp hmore
    -- What is left out of the errors is left out as a record, or nothing was to be said.
    by_cases hfault : p ∈ report.errors.map (·.path)
    · exact ((h.errors p).1 hfault).1
    · have hnot : ¬(p ∈ free.errors.map (·.path) ∨
          w.Unreadable (namesIn p) ∧ p ∈ free.records.map (·.path)) :=
        fun hor => hfault ((h'.errors p).2 ⟨hmore, hor⟩)
      rcases List.mem_append.1 hp with hp | hp
      · obtain ⟨r, hr, rfl⟩ := List.mem_map.1 hp
        have hkept : r ∈ report.records := by
          rw [h'.records, List.mem_filter]
          refine ⟨hr, decide_eq_true ⟨hmore, fun hunreadable => ?_⟩⟩
          exact hnot (.inr ⟨hunreadable, hp⟩)
        rw [h.records, List.mem_filter] at hkept
        exact (of_decide_eq_true hkept.2).1
      · exact absurd (.inl hp) hnot
  · intro hall
    refine ⟨?_, h.nodup, fun p => ?_⟩
    · rw [h.records]
      refine List.filter_congr fun r hr => decide_eq_decide.2 ?_
      have hpath : r.path ∈ free.records.map (·.path) ++ free.errors.map (·.path) :=
        List.mem_append_left _ (List.mem_map_of_mem hr)
      exact and_congr_left' ⟨himp _, hall _ hpath⟩
    · rw [h.errors]
      constructor
      · rintro ⟨hsome, hor⟩
        exact ⟨himp _ hsome, hor⟩
      · rintro ⟨hmore, hor⟩
        refine ⟨hall p ?_ hmore, hor⟩
        rcases hor with hp | ⟨-, hp⟩
        · exact List.mem_append_right _ hp
        · exact List.mem_append_left _ hp

/-- A walk with refusals reports what the walk without them does, except what is below
lost directories, with the refused files turned into faults.  So every refusal takes
away only what is at or below its own path, exactly if nothing that would be reported is
below another name of a directory that was denied before. -/
theorem walk_refusals (hd : d.tree.wellFormed = true)
    (hsize : plan.maxFileSize = .int limit) (hfiles : plan.maxFiles = .int budget)
    (huntimed : plan.scanTimeout = .null) :
    match ofPlan walker d plan clock with
    | .error e => walker.walk d plan clock now = .error e ∧
        walker.walk d.withoutRefusals plan clock now = .error e ∧ Hindered d plan
    | .ok w => w.disk.refused? .list w.root = none →
        (w.recordable limit).encard < budget.toNat →
        ∃ free report, walker.walk d.withoutRefusals plan clock now = .ok free ∧
          walker.walk d plan clock now = .ok report ∧
          w.Leaves w.Kept free report ∧
          (w.Leaves w.Spared free report ↔
            ∀ p ∈ free.records.map (·.path) ++ free.errors.map (·.path),
              w.Spared (namesIn p) → w.Kept (namesIn p)) := by
  cases hw : ofPlan walker d plan clock with
  | error e =>
      have hplan : ofPlan walker d.withoutRefusals plan clock = .error e := by
        rw [ofPlan_withoutRefusals, hw]
        rfl
      exact ⟨walk_of_ofPlan_error hw, walk_of_ofPlan_error hplan,
        hindered_of_ofPlan_error hd huntimed hw⟩
  | ok w =>
      intro hlisted hbudget
      have hplan : ofPlan walker d.withoutRefusals plan clock = .ok w.withoutRefusals := by
        rw [ofPlan_withoutRefusals, hw]
        rfl
      have hprepared := prepared_of_ofPlan hw
      have hroot := hprepared.opens_root
      have hdw : w.disk.tree.wellFormed = true := hprepared.sameDisk ▸ hd
      -- There is room for all records without refusals, and refusals add none.
      have hlength : (w.withoutRefusals.records limit w.withoutRefusals.sights).length <
          budget.toNat := by
        rw [← recordable_withoutRefusals, encard_recordable (w := w.withoutRefusals) hdw rfl
          (opens_withoutRefusals.2 hroot)] at hbudget
        exact_mod_cast hbudget
      have hshorter : (w.records limit w.sights).length < budget.toNat := by
        rw [records_eq_filter hdw hroot]
        exact (List.length_filter_le _ _).trans_lt hlength
      obtain ⟨place, children, hreach, -⟩ := id hroot
      have hlist := hreach.list (pathOf_nil w ▸ hlisted)
      have hlist' : w.withoutRefusals.disk.list (w.withoutRefusals.pathOf []) =
          .ok (children.map (·.1)) :=
        Reaches.list (d := w.withoutRefusals.disk) hreach rfl
      have hfree : walker.walk d.withoutRefusals plan clock now = .ok _ :=
        walk_of_room (d := d.withoutRefusals) hd hplan
          ((prepared_of_ofPlan hplan).counts hsize hfiles huntimed) hlist'
          (room_of_lt (by omega))
      have hreport : walker.walk d plan clock now = .ok _ :=
        walk_of_room hd hw (hprepared.counts hsize hfiles huntimed) hlist
          (room_of_lt (by omega))
      refine ⟨_, _, hfree, hreport, leaves_kept hdw hroot, ?_⟩
      exact (leaves_kept hdw hroot).iff_of_imp fun _ => Kept.spared

theorem namesIn_mixed :
    namesIn (mixedWalk.recordOf [subName, innerName] 2 innerText).path = [subName, innerName] ∧
      namesIn (mixedWalk.recordOf [topName] 5 topText).path = [topName] ∧
      namesIn (mixedWalk.recordOf [linkName, innerName] 2 innerText).path =
        [linkName, innerName] := by
  decide

def deniedDisk : Disk :=
  { mixedDisk with refusals := [⟨.list, ⟨1, [subName]⟩, .noPermission⟩] }

def deniedWalk : Walk := { mixedWalk with disk := deniedDisk }

theorem sights_denied : deniedWalk.sights = [.listing [], .turn [subName], .listing [subName],
    .turn [topName], .file [topName] 5, .turn [spoiltName], .file [spoiltName] 1,
    .turn [linkName], .turn [shutName], .turn [oddName], .misnamed [oddName]] := by
  have hreal : deniedWalk.disk.resolve (deniedWalk.pathOf []) = .ok ⟨1, []⟩ := by cbv
  have hrealSub : deniedWalk.disk.resolve (deniedWalk.pathOf [subName]) =
      .ok ⟨1, [subName]⟩ := by cbv
  have hrealLink : deniedWalk.disk.resolve (deniedWalk.pathOf [linkName]) =
      .ok ⟨1, [subName]⟩ := by cbv
  have hlist : deniedWalk.disk.list (deniedWalk.pathOf []) =
      .ok [subName, topName, spoiltName, linkName, shutName, oddName] := by cbv
  have hdenied : deniedWalk.disk.list (deniedWalk.pathOf [subName]) =
      .error ⟨.noPermission, ⟨1, [subName]⟩, none⟩ := by cbv
  have hsort : sortNames [subName, topName, spoiltName, linkName, shutName, oddName] =
      [subName, topName, spoiltName, linkName, shutName, oddName] := by cbv
  have hlook : deniedWalk.disk.look (deniedWalk.pathOf [topName]) =
      .ok (some (.file [0x69, 0x20, 0x78, 0x0A, 0x2E])) := by cbv
  have hlookSpoilt : deniedWalk.disk.look (deniedWalk.pathOf [spoiltName]) =
      .ok (some (.file [0xFF])) := by cbv
  -- What is denied has no part in what is admitted.
  have hadmits : ∀ names text, deniedWalk.admits (deniedWalk.pathOf names) text =
      mixedWalk.admits (mixedWalk.pathOf names) text := fun _ _ => rfl
  have hcount : deniedWalk.disk.tree.dirCount = 3 := rfl
  rw [sights, hcount]
  simp [dirSights, entriesSights, entrySights, sightsAt, hadmits, admits_mixed, text?_mixed,
    hreal, hrealSub, hrealLink, hlist, hdenied, hsort, hlook, hlookSpoilt]

theorem refused_denied : deniedWalk.Refused [subName] := by
  refine ⟨⟨.noPermission, ⟨1, [subName]⟩, none⟩, ?_⟩
  cbv

theorem not_refused_denied : ¬deniedWalk.Refused [] ∧ ¬deniedWalk.Refused [linkName] := by
  have hroot : deniedWalk.disk.list (deniedWalk.pathOf []) =
      .ok [subName, topName, spoiltName, linkName, shutName, oddName] := by cbv
  have hlink : deniedWalk.disk.list (deniedWalk.pathOf [linkName]) = .ok [innerName] := by cbv
  constructor
  · rintro ⟨e, he⟩
    rw [hroot] at he
    cases he
  · rintro ⟨e, he⟩
    rw [hlink] at he
    cases he

theorem spared_denied : deniedWalk.Spared [linkName, innerName] := by
  intro above habove hne
  rw [← List.mem_inits] at habove
  fin_cases habove
  · exact not_refused_denied.1
  · exact not_refused_denied.2
  · exact absurd rfl hne

theorem not_kept_denied : ¬deniedWalk.Kept [subName, innerName] ∧
    ¬deniedWalk.Kept [linkName, innerName] := by
  constructor
  · intro hkept
    exact hkept [subName] (List.prefix_append [subName] [innerName]) (by decide)
      (.inl refused_denied)
  · intro hkept
    refine hkept [linkName] (List.prefix_append [linkName] [innerName]) (by decide)
      (.inr ⟨[subName], ?_, ?_, refused_denied, ?_⟩)
    · rw [sights_denied]
      simp
    · exact .rel (nameBefore_iff.2 (by decide))
    · cbv

theorem kept_denied : deniedWalk.Kept [topName] := by
  intro above habove hne
  rw [← List.mem_inits] at habove
  fin_cases habove
  · rintro (hrefused | ⟨other, -, hlt, -, -⟩)
    · exact not_refused_denied.1 hrefused
    · cases hlt
  · exact absurd rfl hne

/-- Only one name of the directory is denied, and what is below the other is lost with it. -/
theorem walk_refusals_denied : ∃ free report,
    mixedWalker.walk mixedDisk mixedPlan stillClock default = .ok free ∧
      mixedWalker.walk deniedDisk mixedPlan stillClock default = .ok report ∧
      deniedWalk.Leaves deniedWalk.Kept free report ∧
      free.records = mixedRecords ∧
      report.records = [mixedWalk.recordOf [topName] 5 topText] ∧
      deniedWalk.Spared [linkName, innerName] := by
  have hw : ofPlan mixedWalker deniedDisk mixedPlan stillClock = .ok deniedWalk := by cbv
  have hbudget : (deniedWalk.recordable 100).encard < (4 : Int).toNat := by
    rw [← recordable_withoutRefusals]
    exact encard_recordable_mixed
  have h := @walk_refusals mixedWalker deniedDisk mixedPlan stillClock default 100 4
    (by decide) rfl rfl rfl
  rw [hw] at h
  obtain ⟨free, report, hfree, hreport, hleaves, -⟩ := h rfl hbudget
  have hrecords : free.records = mixedRecords := by
    rw [Except.ok.inj (hfree.symm.trans walk_mixed)]
    exact records_mixedReport
  have hreadable : ¬deniedWalk.Unreadable [topName] := by
    unfold Unreadable
    decide
  refine ⟨free, report, hfree, hreport, hleaves, hrecords, ?_, spared_denied⟩
  rw [hleaves.records, hrecords, mixedRecords]
  simp [namesIn_mixed, not_kept_denied, kept_denied, hreadable]

end Walk

end SourceScan
