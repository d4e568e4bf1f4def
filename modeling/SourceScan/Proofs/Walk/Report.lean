import SourceScan.Proofs.Walk.Enters
import SourceScan.Proofs.Walk.Meeting

/-!
# What a walk reports

In a well-formed tree a walk without a deadline fails only if the root cannot be listed.
As long as there is room for all files it reports what its sights add, in their order.
-/

namespace SourceScan.Walk

open FileTree Disk

variable {walker : Walker} {d : Disk} {plan : Plan} {clock : Clock}
  {now : Calendar.DateTime} {w : Walk} {limit budget : Int}

theorem walk_of_ofPlan (h : ofPlan walker d plan clock = .ok w) :
    walker.walk d plan clock now =
      (w.meetAll w.sights w.start).map (w.report now) := by
  rw [walk_eq_meetAll, h]
  rfl

theorem walk_of_ofPlan_error {e : ScanError} (h : ofPlan walker d plan clock = .error e) :
    walker.walk d plan clock now = .error e := by
  rw [walk_eq_meetAll, h]
  rfl

theorem walk_eq_of_map {d' : Disk} {plan' : Plan} {clock' : Clock} {now' : Calendar.DateTime}
    {f : Walk → Walk}
    (hplans : ofPlan walker d' plan' clock' = (ofPlan walker d plan clock).map f)
    (h : ∀ w, ofPlan walker d plan clock = .ok w → ofPlan walker d' plan' clock' = .ok (f w) →
      walker.walk d' plan' clock' now' = walker.walk d plan clock now) :
    walker.walk d' plan' clock' now' = walker.walk d plan clock now := by
  cases hw : ofPlan walker d plan clock with
  | error e =>
      rw [hw] at hplans
      rw [walk_of_ofPlan_error hw, walk_of_ofPlan_error hplans]
  | ok w =>
      rw [hw] at hplans
      exact h w hw hplans

theorem walk_of_refused_root (hd : d.tree.wellFormed = true)
    (h : ofPlan walker d plan clock = .ok w) {cause : DiskError}
    (hlist : w.disk.list (w.pathOf []) = .error cause) :
    walker.walk d plan clock now = .error (.rootUnreadable cause) := by
  have hw := prepared_of_ofPlan h
  rw [walk_of_ofPlan h, sights_of_refused_root (hw.sameDisk ▸ hd) hw.opens_root hlist]
  rfl

theorem no_failure (hd : d.tree.wellFormed = true)
    (h : ofPlan walker d plan clock = .ok w) {entries : List FileName}
    (hlist : w.disk.list (w.pathOf []) = .ok entries) (names : List FileName)
    (e : ScanError) : .failure names e ∉ w.sights := by
  have hw := prepared_of_ofPlan h
  rw [failure_mem_iff (hw.sameDisk ▸ hd) hw.opens_root]
  rintro ⟨-, cause, hcause, -⟩
  rw [hlist] at hcause
  cases hcause

theorem Prepared.counts (h : w.Prepared walker d plan clock)
    (hsize : plan.maxFileSize = .int limit) (hfiles : plan.maxFiles = .int budget)
    (huntimed : plan.scanTimeout = .null) : w.Counts limit budget := by
  refine ⟨h.samePlan ▸ hsize, h.samePlan ▸ hfiles, ?_⟩
  have hdeadline := h.deadline
  rw [huntimed] at hdeadline
  exact (Except.ok.inj hdeadline).symm

/-! ## Where records come from -/

theorem record_of_meet {s t : Progress} {x : Sight} {r : FileRecord}
    (h : w.meet s x = .ok t) (hr : .record r ∈ t.files) :
    .record r ∈ s.files ∨ ∃ names size, x = .file names size ∧ w.reading names size = .ok r := by
  rcases meet_cases h with rfl | ⟨-, ⟨names, rfl, rfl⟩ | ⟨names, size, rfl, rfl⟩ |
    ⟨result, hnoted, rfl⟩⟩
  · exact .inl hr
  · exact .inl (w.checkDeadline_files s ▸ hr)
  · exact .inl (by simpa [Progress.full] using hr)
  · cases result with
    | error fault => exact .inl hr
    | ok record =>
        rcases List.mem_append.1 hr with hr | hr
        · exact .inl hr
        · cases List.mem_singleton.1 hr
          cases x with
          | file names size => exact .inr ⟨names, size, rfl, Option.some.inj hnoted⟩
          | _ => cases hnoted

theorem record_of_meetAll {s t : Progress} {xs : List Sight} {r : FileRecord}
    (h : w.meetAll xs s = .ok t) (hr : .record r ∈ t.files) :
    .record r ∈ s.files ∨
      ∃ names size, .file names size ∈ xs ∧ w.reading names size = .ok r := by
  refine keeps_of_foldlM_ok (I := fun t => .record r ∈ t.files → .record r ∈ s.files ∨
    ∃ names size, .file names size ∈ xs ∧ w.reading names size = .ok r)
    (fun hx hearlier hmeet hr => ?_) .inl h hr
  rcases record_of_meet hmeet hr with hr | ⟨names, size, rfl, hreading⟩
  · exact hearlier hr
  · exact .inr ⟨names, size, hx, hreading⟩

theorem progress_of_walk {report : Report} (h : walker.walk d plan clock now = .ok report) :
    ∃ w t, ofPlan walker d plan clock = .ok w ∧ w.meetAll w.sights w.start = .ok t ∧
      w.report now t = report := by
  rw [walk_eq_meetAll] at h
  obtain ⟨w, hw, h⟩ := ok_of_bind h
  cases hmeet : w.meetAll w.sights w.start with
  | error e =>
      rw [hmeet] at h
      cases h
  | ok t =>
      rw [hmeet] at h
      exact ⟨w, t, hw, hmeet, Except.ok.inj h⟩

theorem scannedAt_of_walk {report : Report} (h : walker.walk d plan clock now = .ok report) :
    report.scannedAt = now := by
  obtain ⟨w, t, -, -, rfl⟩ := progress_of_walk h
  rfl

/-- Whatever deadline and budgets there are, a record is the reading of a file that the
walk came across. -/
theorem record_of_walk {report : Report} {r : FileRecord}
    (h : ofPlan walker d plan clock = .ok w)
    (hwalk : walker.walk d plan clock now = .ok report) (hr : r ∈ report.records) :
    ∃ names size, .file names size ∈ w.sights ∧ w.reading names size = .ok r := by
  obtain ⟨walk, t, hw, hmeet, rfl⟩ := progress_of_walk hwalk
  obtain rfl : w = walk := Except.ok.inj (h.symm.trans hw)
  obtain ⟨entry, hentry, hrecord⟩ := List.mem_filterMap.1 hr
  cases entry with
  | warning text => cases hrecord
  | record record =>
      cases hrecord
      exact (record_of_meetAll hmeet hentry).resolve_left (by simp [start])

/-! ## The same sights on another disk -/

theorem meetAll_onDisk {xs : List Sight} (h : ∀ names size, .file names size ∈ xs →
      (w.onDisk d).reading names size = w.reading names size) (s : Progress) :
    (w.onDisk d).meetAll xs s = w.meetAll xs s := by
  induction xs generalizing s with
  | nil => rfl
  | cons x xs ih =>
      have hfirst : (w.onDisk d).meet s x = w.meet s x := by
        unfold meet
        split
        · rfl
        · cases x with
          | file names size =>
              have hpath : (w.onDisk d).pathOf names = w.pathOf names := rfl
              simp only [hpath, visitFile, readFile_eq_note]
              rw [← hpath, readFile_eq_note, h names size List.mem_cons_self]
              rfl
          | listing dir => rfl
          | turn names => rfl
          | misnamed names => rfl
          | failure names e => rfl
      rw [meetAll_cons, meetAll_cons, hfirst]
      cases w.meet s x with
      | error e => rfl
      | ok t => exact ih (fun names size hmem => h names size (List.mem_cons_of_mem _ hmem)) t

/-! ## Reports -/

section Report

variable {records : List FileRecord} {faults : List ReadFault}

theorem filterMap_record? (records : List FileRecord) :
    (records.map Entry.record).filterMap Entry.record? = records := by
  induction records with
  | nil => rfl
  | cons r records ih => simp [Entry.record?, ih]

theorem report_fileCount (s : Progress) :
    (w.report now s).fileCount = (w.report now s).records.length := rfl

theorem report_add_files : (w.report now (w.start.add records faults)).files =
    records.map .record := rfl

theorem report_add_records : (w.report now (w.start.add records faults)).records =
    records := by
  rw [Report.records, report_add_files, filterMap_record?]

theorem report_full_files : (w.report now (w.start.add records faults).full).files =
    records.map .record ++ [.warning tooManyFiles] := rfl

theorem report_full_records : (w.report now (w.start.add records faults).full).records =
    records := by
  rw [Report.records, report_full_files, List.filterMap_append, filterMap_record?]
  exact List.append_nil records

end Report

theorem room_of_lt {count : Nat} {xs : List Sight}
    (h : (count + (w.records limit xs).length : Int) < budget) :
    w.Room limit budget count xs := by
  intro before x after heq _
  rw [heq, records_append, List.length_append] at h
  push_cast at h ⊢
  omega

theorem walk_of_room (hd : d.tree.wellFormed = true)
    (h : ofPlan walker d plan clock = .ok w) (hcounts : w.Counts limit budget)
    {entries : List FileName} (hlist : w.disk.list (w.pathOf []) = .ok entries)
    (hroom : w.Room limit budget 0 w.sights) :
    walker.walk d plan clock now = .ok (w.report now
      (w.start.add (w.records limit w.sights) (w.faults limit w.sights))) := by
  have hmeet := meetAll_of_room hcounts (s := w.start) rfl (no_failure hd h hlist) hroom
  rw [walk_of_ofPlan h, hmeet]
  rfl

theorem walk_of_full (hd : d.tree.wellFormed = true)
    (h : ofPlan walker d plan clock = .ok w) (hcounts : w.Counts limit budget)
    {entries : List FileName} (hlist : w.disk.list (w.pathOf []) = .ok entries)
    {before after : List Sight} {x : Sight} (heq : w.sights = before ++ x :: after)
    (hroom : w.Room limit budget 0 before) (hx : x.Fits limit)
    (hfull : budget ≤ (w.records limit before).length) :
    walker.walk d plan clock now = .ok (w.report now
      (w.start.add (w.records limit before) (w.faults limit before)).full) := by
  have hfails : ∀ names e, .failure names e ∉ before := by
    intro names e hmem
    refine no_failure hd h hlist names e ?_
    rw [heq]
    exact List.mem_append_left _ hmem
  have hmeet : w.meetAll w.sights w.start =
      .ok (w.start.add (w.records limit before) (w.faults limit before)).full := by
    rw [heq]
    refine meetAll_of_full hcounts rfl hfails hroom hx ?_
    simpa [start] using hfull
  rw [walk_of_ofPlan h, hmeet]
  rfl

theorem exists_report (now : Calendar.DateTime) (hd : d.tree.wellFormed = true)
    (h : ofPlan walker d plan clock = .ok w) (hcounts : w.Counts limit budget)
    {entries : List FileName} (hlist : w.disk.list (w.pathOf []) = .ok entries) :
    ∃ report before, walker.walk d plan clock now = .ok report ∧ before <+: w.sights ∧
      report.records = w.records limit before ∧ report.fileCount = report.records.length := by
  rcases w.room_or_full limit budget 0 w.sights with
    hroom | ⟨before, x, after, heq, hroom, hx, hfull⟩
  · exact ⟨_, w.sights, walk_of_room hd h hcounts hlist hroom, List.prefix_refl _,
      report_add_records, report_fileCount _⟩
  · rw [Int.natCast_zero, Int.zero_add] at hfull
    exact ⟨_, before, walk_of_full hd h hcounts hlist heq hroom hx hfull, ⟨_, heq.symm⟩,
      report_full_records, report_fileCount _⟩

/-! ## A disk with something of each kind -/

def subName : FileName := [.char 'a']

def innerName : FileName := [.char 'b']

def topName : FileName := [.char 'a', .char '.', .char 'c']

def spoiltName : FileName := [.char 'e']

def linkName : FileName := [.char 'l']

def shutName : FileName := [.char 's']

def oddName : FileName := [.stray 0xFF]

def innerText : Text := ['i', '\n']

def topText : Text := ['i', ' ', 'x', '\n', '.']

def mixedFaults : List ReadFault :=
  [⟨spoiltName, "decode error: invalid start byte"⟩, ⟨oddName, "path is not valid UTF-8"⟩]

/-- A directory, a file that comes after it although its path is the smaller text, a file that is no
text, another name of the directory, a directory that a rule leaves out, and a name that is no
text. -/
def mixedDisk : Disk :=
  ⟨.dir [(subName, .dir [(innerName, .file [0x69, 0x0A])]),
    (topName, .file [0x69, 0x20, 0x78, 0x0A, 0x2E]), (spoiltName, .file [0xFF]),
    (linkName, .link subName), (shutName, .dir [(topName, .file [])]), (oddName, .file [])],
    [], [], []⟩

def sampleRegistry : Registry :=
  ⟨[("c", .cFamily)], [(.cFamily, ["c"])],
    [(.cFamily, ⟨some ⟨"i", false, .set ⟨false, [.range 0x69 0x69], false, false⟩⟩, none⟩)]⟩

def mixedWalker : Walker := ⟨.standard, sampleRegistry, 10⟩

def mixedPlan : Plan :=
  ⟨⟨1, []⟩, .int 100, .int 4, [⟨"s/", .explicit⟩], none, .bool true, .null⟩

def stillClock : Clock := fun _ => default

def mixedWalk : Walk :=
  ⟨mixedWalker, mixedDisk, mixedPlan, ⟨1, []⟩, mixedPlan.rules, none, stillClock, none⟩

theorem ofPlan_mixed : ofPlan mixedWalker mixedDisk mixedPlan stillClock = .ok mixedWalk := by
  cbv

theorem text?_mixed : (Path.joined [subName]).text? = some ['a'] ∧
    (Path.joined [subName, innerName]).text? = some ['a', '/', 'b'] ∧
    (Path.joined [topName]).text? = some ['a', '.', 'c'] ∧
    (Path.joined [spoiltName]).text? = some ['e'] ∧
    (Path.joined [linkName]).text? = some ['l'] ∧
    (Path.joined [linkName, innerName]).text? = some ['l', '/', 'b'] ∧
    (Path.joined [shutName]).text? = some ['s'] ∧ (Path.joined [oddName]).text? = none := by
  decide

theorem admits_mixed :
    mixedWalk.admits (mixedWalk.pathOf [subName]) ['a'] = .ok (some true) ∧
      mixedWalk.admits (mixedWalk.pathOf [subName, innerName]) ['a', '/', 'b'] =
        .ok (some false) ∧
      mixedWalk.admits (mixedWalk.pathOf [topName]) ['a', '.', 'c'] = .ok (some false) ∧
      mixedWalk.admits (mixedWalk.pathOf [spoiltName]) ['e'] = .ok (some false) ∧
      mixedWalk.admits (mixedWalk.pathOf [linkName]) ['l'] = .ok (some true) ∧
      mixedWalk.admits (mixedWalk.pathOf [linkName, innerName]) ['l', '/', 'b'] =
        .ok (some false) ∧
      mixedWalk.admits (mixedWalk.pathOf [shutName]) ['s'] = .ok none := by
  refine ⟨?_, ?_, ?_, ?_, ?_, ?_, ?_⟩
  · rw [admits_eq_of true (.inl (by cbv)) (by cbv)]
    decide
  · rw [admits_eq_of false (.inl (by cbv)) (by cbv)]
    decide
  · rw [admits_eq_of false (.inl (by cbv)) (by cbv)]
    decide
  · rw [admits_eq_of false (.inl (by cbv)) (by cbv)]
    decide
  · rw [admits_eq_of true (.inr (by cbv)) (by cbv)]
    decide
  · rw [admits_eq_of false (.inl (by cbv)) (by cbv)]
    decide
  · rw [admits_eq_of true (.inl (by cbv)) (by cbv)]
    decide

theorem list_mixed :
    mixedDisk.list ⟨1, []⟩ =
      .ok [subName, topName, spoiltName, linkName, shutName, oddName] := by
  cbv

theorem sights_mixed : mixedWalk.sights = [.listing [], .turn [subName], .listing [subName],
    .turn [subName, innerName], .file [subName, innerName] 2, .turn [topName], .file [topName] 5,
    .turn [spoiltName], .file [spoiltName] 1, .turn [linkName], .listing [linkName],
    .turn [linkName, innerName], .file [linkName, innerName] 2, .turn [shutName], .turn [oddName],
    .misnamed [oddName]] := by
  have hreal : mixedWalk.disk.resolve (mixedWalk.pathOf []) = .ok ⟨1, []⟩ := by cbv
  have hrealSub : mixedWalk.disk.resolve (mixedWalk.pathOf [subName]) = .ok ⟨1, [subName]⟩ := by
    cbv
  have hrealLink : mixedWalk.disk.resolve (mixedWalk.pathOf [linkName]) = .ok ⟨1, [subName]⟩ := by
    cbv
  have hlist : mixedWalk.disk.list (mixedWalk.pathOf []) =
      .ok [subName, topName, spoiltName, linkName, shutName, oddName] := list_mixed
  have hlistSub : mixedWalk.disk.list (mixedWalk.pathOf [subName]) = .ok [innerName] := by cbv
  have hlistLink : mixedWalk.disk.list (mixedWalk.pathOf [linkName]) = .ok [innerName] := by cbv
  have hsort : sortNames [subName, topName, spoiltName, linkName, shutName, oddName] =
      [subName, topName, spoiltName, linkName, shutName, oddName] := by cbv
  have hsortSub : sortNames [innerName] = [innerName] := by cbv
  have hlookSub : mixedWalk.disk.look (mixedWalk.pathOf [subName, innerName]) =
      .ok (some (.file [0x69, 0x0A])) := by cbv
  have hlookTop : mixedWalk.disk.look (mixedWalk.pathOf [topName]) =
      .ok (some (.file [0x69, 0x20, 0x78, 0x0A, 0x2E])) := by cbv
  have hlookSpoilt : mixedWalk.disk.look (mixedWalk.pathOf [spoiltName]) =
      .ok (some (.file [0xFF])) := by cbv
  have hlookLink : mixedWalk.disk.look (mixedWalk.pathOf [linkName, innerName]) =
      .ok (some (.file [0x69, 0x0A])) := by cbv
  have hcount : mixedWalk.disk.tree.dirCount = 3 := rfl
  rw [sights, hcount]
  simp [dirSights, entriesSights, entrySights, sightsAt, admits_mixed, text?_mixed, hreal,
    hrealSub, hrealLink, hlist, hlistSub, hlistLink, hsort, hsortSub, hlookSub, hlookTop,
    hlookSpoilt, hlookLink]

theorem reading_mixed :
    mixedWalk.reading [subName, innerName] 2 =
        .ok (mixedWalk.recordOf [subName, innerName] 2 innerText) ∧
      mixedWalk.reading [topName] 5 = .ok (mixedWalk.recordOf [topName] 5 topText) ∧
      mixedWalk.reading [spoiltName] 1 =
        .error ⟨spoiltName, "decode error: invalid start byte"⟩ ∧
      mixedWalk.reading [linkName, innerName] 2 =
        .ok (mixedWalk.recordOf [linkName, innerName] 2 innerText) := by
  have hinner : Utf8.decode [0x69, 0x0A] = .ok innerText := by cbv
  have htop : Utf8.decode [0x69, 0x20, 0x78, 0x0A, 0x2E] = .ok topText := by cbv
  have hspoilt : Utf8.decode [0xFF] = .error ⟨.badStart, 0xFF, 0, 1⟩ := by cbv
  refine ⟨?_, ?_, ?_, ?_⟩
  · rw [reading, show mixedWalk.disk.readFile _ = .ok [0x69, 0x0A] by cbv]
    simp only [hinner]
  · rw [reading, show mixedWalk.disk.readFile _ = .ok [0x69, 0x20, 0x78, 0x0A, 0x2E] by cbv]
    simp only [htop]
  · rw [reading, show mixedWalk.disk.readFile _ = .ok [0xFF] by cbv]
    simp only [hspoilt]
    rfl
  · rw [reading, show mixedWalk.disk.readFile _ = .ok [0x69, 0x0A] by cbv]
    simp only [hinner]

def mixedRecords : List FileRecord :=
  [mixedWalk.recordOf [subName, innerName] 2 innerText, mixedWalk.recordOf [topName] 5 topText,
    mixedWalk.recordOf [linkName, innerName] 2 innerText]

theorem records_mixed : mixedWalk.records 100 mixedWalk.sights = mixedRecords := by
  rw [sights_mixed]
  simp [records_cons, outcome, recordsOf, reading_mixed, mixedRecords]

theorem faults_mixed : mixedWalk.faults 100 mixedWalk.sights = mixedFaults := by
  rw [sights_mixed]
  simp [faults_cons, outcome, faultsOf, reading_mixed, Path.joined_singleton, mixedFaults]

def mixedReport (now : Calendar.DateTime) : Report :=
  mixedWalk.report now (mixedWalk.start.add mixedRecords mixedFaults)

theorem walk_mixed :
    mixedWalker.walk mixedDisk mixedPlan stillClock now = .ok (mixedReport now) := by
  have hcounts : mixedWalk.Counts 100 4 :=
    (prepared_of_ofPlan ofPlan_mixed).counts rfl rfl rfl
  rw [walk_of_room (by decide) ofPlan_mixed hcounts list_mixed (room_of_lt ?_), records_mixed,
    faults_mixed]
  · rfl
  · rw [records_mixed]
    decide

theorem records_mixedReport : (mixedReport now).records = mixedRecords := report_add_records

theorem opens_mixed : mixedWalk.Opens [] := (prepared_of_ofPlan ofPlan_mixed).opens_root

/-! ## A disk without links and with a report in it -/

def plainDiskWith (children : List (FileName × FileTree)) : Disk :=
  ⟨.dir [(subName, .dir children), (topName, .file [0x69, 0x20, 0x78, 0x0A, 0x2E]),
    (shutName, .dir [(topName, .file [])]), (oddName, .file [])], [], [], []⟩

def plainDisk : Disk := plainDiskWith [(innerName, .file [0x69, 0x0A])]

/-- The file in the directory is a report, and the next one is to take its place. -/
def selfPlan : Plan := { mixedPlan with outputTarget := some ⟨1, [subName, innerName]⟩ }

def selfWalk : Walk :=
  ⟨mixedWalker, plainDisk, selfPlan, ⟨1, []⟩, ⟨"a/b", .builtin⟩ :: selfPlan.rules, none,
    stillClock, none⟩

theorem ofPlan_self : ofPlan mixedWalker plainDisk selfPlan stillClock = .ok selfWalk := by
  cbv

theorem admits_self :
    selfWalk.admits (selfWalk.pathOf [subName]) ['a'] = .ok (some true) ∧
      selfWalk.admits (selfWalk.pathOf [subName, innerName]) ['a', '/', 'b'] = .ok none ∧
      selfWalk.admits (selfWalk.pathOf [topName]) ['a', '.', 'c'] = .ok (some false) ∧
      selfWalk.admits (selfWalk.pathOf [shutName]) ['s'] = .ok none := by
  refine ⟨?_, ?_, ?_, ?_⟩
  · rw [admits_eq_of true (.inl (by cbv)) (by cbv)]
    decide
  · rw [admits_eq_of false (.inl (by cbv)) (by cbv)]
    decide
  · rw [admits_eq_of false (.inl (by cbv)) (by cbv)]
    decide
  · rw [admits_eq_of true (.inl (by cbv)) (by cbv)]
    decide

theorem list_plain : plainDisk.list ⟨1, []⟩ = .ok [subName, topName, shutName, oddName] := by
  cbv

theorem sights_self : selfWalk.sights = [.listing [], .turn [subName], .listing [subName],
    .turn [subName, innerName], .turn [topName], .file [topName] 5, .turn [shutName],
    .turn [oddName], .misnamed [oddName]] := by
  have hreal : selfWalk.disk.resolve (selfWalk.pathOf []) = .ok ⟨1, []⟩ := by cbv
  have hrealSub : selfWalk.disk.resolve (selfWalk.pathOf [subName]) = .ok ⟨1, [subName]⟩ := by
    cbv
  have hlist : selfWalk.disk.list (selfWalk.pathOf []) =
      .ok [subName, topName, shutName, oddName] := list_plain
  have hlistSub : selfWalk.disk.list (selfWalk.pathOf [subName]) = .ok [innerName] := by cbv
  have hsort : sortNames [subName, topName, shutName, oddName] =
      [subName, topName, shutName, oddName] := by cbv
  have hsortSub : sortNames [innerName] = [innerName] := by cbv
  have hlook : selfWalk.disk.look (selfWalk.pathOf [topName]) =
      .ok (some (.file [0x69, 0x20, 0x78, 0x0A, 0x2E])) := by cbv
  have hcount : selfWalk.disk.tree.dirCount = 3 := rfl
  rw [sights, hcount]
  simp [dirSights, entriesSights, entrySights, sightsAt, admits_self, text?_mixed, hreal,
    hrealSub, hlist, hlistSub, hsort, hsortSub, hlook]

theorem reading_self :
    selfWalk.reading [topName] 5 = .ok (mixedWalk.recordOf [topName] 5 topText) := by
  have htop : Utf8.decode [0x69, 0x20, 0x78, 0x0A, 0x2E] = .ok topText := by cbv
  rw [reading, show selfWalk.disk.readFile _ = .ok [0x69, 0x20, 0x78, 0x0A, 0x2E] by cbv]
  simp only [htop]
  rfl

theorem records_self : selfWalk.records 100 selfWalk.sights =
    [mixedWalk.recordOf [topName] 5 topText] := by
  rw [sights_self]
  simp [records_cons, outcome, recordsOf, reading_self]

theorem faults_self : selfWalk.faults 100 selfWalk.sights =
    [⟨oddName, "path is not valid UTF-8"⟩] := by
  rw [sights_self]
  simp [faults_cons, outcome, faultsOf, reading_self, Path.joined_singleton]

def selfReport (now : Calendar.DateTime) : Report :=
  selfWalk.report now (selfWalk.start.add [mixedWalk.recordOf [topName] 5 topText]
    [⟨oddName, "path is not valid UTF-8"⟩])

theorem walk_self :
    mixedWalker.walk plainDisk selfPlan stillClock now = .ok (selfReport now) := by
  have hcounts : selfWalk.Counts 100 4 := (prepared_of_ofPlan ofPlan_self).counts rfl rfl rfl
  rw [walk_of_room (by decide) ofPlan_self hcounts list_plain (room_of_lt ?_), records_self,
    faults_self]
  · rfl
  · rw [records_self]
    decide

theorem records_selfReport :
    (selfReport now).records = [mixedWalk.recordOf [topName] 5 topText] :=
  report_add_records

end SourceScan.Walk
