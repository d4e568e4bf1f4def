import SourceScan.Proofs.Walk.Report

/-!
# The budget of files

A walk with a budget is the walk without one up to a certain file: the first one that is
not too large after the budget is used up.  There the list of files ends with a warning.
-/

namespace SourceScan

def Plan.withMaxFiles (plan : Plan) (budget : Int) : Plan :=
  { plan with maxFiles := .int budget }

namespace Walk

open FileTree Disk

def withMaxFiles (w : Walk) (budget : Int) : Walk :=
  { w with plan := w.plan.withMaxFiles budget }

/-! ## The walk of a plan -/

variable {walker : Walker} {d : Disk} {plan : Plan} {clock : Clock}
  {now : Calendar.DateTime} {w : Walk} {limit budget : Int}

theorem ofPlan_withMaxFiles (walker : Walker) (d : Disk) (plan : Plan) (clock : Clock)
    (budget : Int) :
    ofPlan walker d (plan.withMaxFiles budget) clock =
      (ofPlan walker d plan clock).map (·.withMaxFiles budget) :=
  ofPlan_map rfl (fun _ _ => rfl) (fun _ => rfl) (fun _ => rfl) rfl fun _ _ _ _ _ _ _ => rfl

theorem sights_withMaxFiles (w : Walk) (budget : Int) :
    (w.withMaxFiles budget).sights = w.sights :=
  SameView.sights_eq ⟨rfl, rfl, rfl, rfl, rfl, rfl⟩

/-! ## Cutting a walk short -/

/-- After the sights before it comes the first file that fits and finds the number of
records used up. -/
structure StopsAfter (w : Walk) (limit : Int) (count : Nat) (before : List Sight) :
    Prop where
  next : ∃ x after, w.sights = before ++ x :: after ∧ x.Fits limit
  full : (w.records limit before).length = count
  first : ∀ earlier x later, before = earlier ++ x :: later → x.Fits limit →
    (w.records limit earlier).length < count

/-- The report of a walk with a budget, compared with that of a walk without. -/
structure Cut (w : Walk) (limit budget : Int) (all report : Report) : Prop where
  records : report.records = all.records.take budget.toNat
  fileCount : report.fileCount = report.records.length
  /-- The walk stops exactly if another file fits after the budget is used up. -/
  truncated_iff : report.truncated = true ↔ ∃ before x after,
    w.sights = before ++ x :: after ∧ x.Fits limit ∧
      (w.records limit before).length = budget.toNat
  cut : report.truncated = true →
    report.files = report.records.map .record ++ [.warning tooManyFiles] ∧
      ∃ before, w.StopsAfter limit budget.toNat before ∧
        report.errors = w.faults limit before ∧ all.errors = w.faults limit w.sights
  whole : report.truncated = false → report.files = all.files ∧
    report.errors = all.errors ∧ ∀ text, .warning text ∉ report.files

section Cut

variable {u v : Walk}

theorem cut_of_room (hroom : w.Room limit budget 0 w.sights) :
    w.Cut limit budget
      (u.report now (u.start.add (w.records limit w.sights) (w.faults limit w.sights)))
      (v.report now (v.start.add (w.records limit w.sights) (w.faults limit w.sights))) := by
  have hle := hroom.length_le
  refine ⟨?_, report_fileCount _, ?_, ?_, fun _ => ⟨rfl, rfl, ?_⟩⟩
  · rw [report_add_records, report_add_records, List.take_of_length_le]
    omega
  · constructor
    · intro h
      cases h
    · rintro ⟨before, x, after, heq, hx, hfull⟩
      have := hroom before x after heq hx
      omega
  · intro h
    cases h
  · intro text h
    rw [report_add_files] at h
    simp at h

theorem cut_of_full {before after : List Sight} {x : Sight}
    (heq : w.sights = before ++ x :: after) (hroom : w.Room limit budget 0 before)
    (hx : x.Fits limit) (hfull : budget ≤ (w.records limit before).length) :
    w.Cut limit budget
      (u.report now (u.start.add (w.records limit w.sights) (w.faults limit w.sights)))
      (v.report now
        (v.start.add (w.records limit before) (w.faults limit before)).full) := by
  have hle := hroom.length_le
  have hcount : (w.records limit before).length = budget.toNat := by
    omega
  refine ⟨?_, report_fileCount _, ?_, fun _ => ⟨?_, before, ⟨⟨x, after, heq, hx⟩, hcount, ?_⟩,
    rfl, rfl⟩, ?_⟩
  · rw [report_full_records, report_add_records, heq, records_append, ← hcount,
      List.take_left]
  · exact ⟨fun _ => ⟨before, x, after, heq, hx, hcount⟩, fun _ => rfl⟩
  · rw [report_full_files, report_full_records]
  · intro earlier y later hsplit hy
    have := hroom earlier y later hsplit hy
    omega
  · intro h
    cases h

end Cut

/-- A walk with a budget of files reports what a walk without one reports up to the first
file that fits after the budget is used up. -/
theorem walk_maxFiles {ample : Int} (hd : d.tree.wellFormed = true)
    (hsize : plan.maxFileSize = .int limit) (huntimed : plan.scanTimeout = .null)
    (hample : ∀ w, ofPlan walker d plan clock = .ok w →
      ((w.records limit w.sights).length : Int) < ample) :
    match walker.walk d (plan.withMaxFiles ample) clock now with
    | .error e => walker.walk d (plan.withMaxFiles budget) clock now = .error e ∧
        (Hindered d plan ∨ ∃ w cause, ofPlan walker d plan clock = .ok w ∧
          w.disk.list w.root = .error cause)
    | .ok all => ∃ w report, ofPlan walker d plan clock = .ok w ∧
        walker.walk d (plan.withMaxFiles budget) clock now = .ok report ∧
        w.Cut limit budget all report := by
  have hplan := fun n => ofPlan_withMaxFiles walker d plan clock n
  cases hw : ofPlan walker d plan clock with
  | error e =>
      have herror : ∀ n, walker.walk d (plan.withMaxFiles n) clock now = .error e := by
        intro n
        refine walk_of_ofPlan_error ?_
        rw [hplan n, hw]
        rfl
      rw [herror ample]
      exact ⟨herror budget, .inl (hindered_of_ofPlan_error hd huntimed hw)⟩
  | ok w =>
      have hok : ∀ n, ofPlan walker d (plan.withMaxFiles n) clock =
          .ok (w.withMaxFiles n) := by
        intro n
        rw [hplan n, hw]
        rfl
      have hcounts : ∀ n, (w.withMaxFiles n).Counts limit n := fun n =>
        (prepared_of_ofPlan (hok n)).counts hsize rfl huntimed
      cases hlist : w.disk.list (w.pathOf []) with
      | error cause =>
          have hfails : ∀ n, walker.walk d (plan.withMaxFiles n) clock now =
              .error (.rootUnreadable cause) := fun n =>
            walk_of_refused_root hd (hok n) hlist
          rw [hfails ample]
          exact ⟨hfails budget, .inr ⟨w, cause, rfl, pathOf_nil w ▸ hlist⟩⟩
      | ok entries =>
          have hwhole : ∀ n, w.Room limit n 0 w.sights →
              walker.walk d (plan.withMaxFiles n) clock now =
                .ok ((w.withMaxFiles n).report now ((w.withMaxFiles n).start.add
                  (w.records limit w.sights) (w.faults limit w.sights))) := by
            intro n hroom
            refine (walk_of_room hd (hok n) (hcounts n) hlist ?_).trans ?_
            · rw [sights_withMaxFiles]
              exact hroom
            · rw [sights_withMaxFiles]
              rfl
          -- The sights are the same for both budgets; only where they stop being met differs.
          rw [hwhole ample (room_of_lt (by simpa using hample w hw))]
          rcases w.room_or_full limit budget 0 w.sights with
            hroom | ⟨before, x, after, heq, hroom, hx, hfull⟩
          · exact ⟨w, _, rfl, hwhole budget hroom, cut_of_room hroom⟩
          · rw [Int.natCast_zero, Int.zero_add] at hfull
            have hshort : walker.walk d (plan.withMaxFiles budget) clock now =
                .ok ((w.withMaxFiles budget).report now ((w.withMaxFiles budget).start.add
                  (w.records limit before) (w.faults limit before)).full) :=
              walk_of_full hd (hok budget) (hcounts budget) hlist
                ((sights_withMaxFiles w budget).trans heq) hroom hx hfull
            exact ⟨w, _, rfl, hshort, cut_of_full heq hroom hx hfull⟩

/-- Room for two files is used up by the first two, and the third cuts the walk off. -/
theorem walk_maxFiles_two : ∃ report,
    mixedWalker.walk mixedDisk (mixedPlan.withMaxFiles 2) stillClock default = .ok report ∧
      report.files = (mixedRecords.take 2).map .record ++ [.warning tooManyFiles] ∧
      mixedRecords.length = 3 ∧ report.truncated = true := by
  have hample : ∀ w, ofPlan mixedWalker mixedDisk mixedPlan stillClock = .ok w →
      ((w.records 100 w.sights).length : Int) < 4 := by
    intro w hw
    rw [ofPlan_mixed] at hw
    cases hw
    rw [records_mixed]
    decide
  have h := @walk_maxFiles mixedWalker mixedDisk mixedPlan stillClock default 100 2 4
    (by decide) rfl rfl hample
  rw [show mixedPlan.withMaxFiles 4 = mixedPlan from rfl, walk_mixed] at h
  obtain ⟨w, report, hw, hwalk, hcut⟩ := h
  rw [ofPlan_mixed] at hw
  cases hw
  have htruncated : report.truncated = true := by
    refine hcut.truncated_iff.2 ⟨[.listing [], .turn [subName], .listing [subName],
      .turn [subName, innerName], .file [subName, innerName] 2, .turn [topName],
      .file [topName] 5, .turn [spoiltName], .file [spoiltName] 1, .turn [linkName],
      .listing [linkName], .turn [linkName, innerName]],
      .file [linkName, innerName] 2, _, sights_mixed, by simp [Sight.Fits], ?_⟩
    simp [records_cons, outcome, recordsOf, reading_mixed]
  have hrecords : report.records = mixedRecords.take 2 := by
    rw [hcut.records, mixedReport, report_add_records]
    rfl
  refine ⟨report, hwalk, ?_, rfl, htruncated⟩
  rw [(hcut.cut htruncated).1, hrecords]

end Walk

end SourceScan
