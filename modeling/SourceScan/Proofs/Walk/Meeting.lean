import SourceScan.Proofs.Steps
import SourceScan.Proofs.Walk.Sight

/-!
# What a walk takes down

Without a deadline each sight adds to the report on its own: a record, a fault, or
nothing.  The number of files is the only thing that the sights have in common, and
`Room` says that it leaves room for all of them.
-/

namespace SourceScan

/-! ## Whole numbers as bounds -/

theorem Value.isExceededBy_int (bound : Int) (n : Nat) :
    (Value.int bound).isExceededBy n = .ok (decide (bound < n)) := by
  have horder : Value.orderOf ['>'] n (.int bound) = .ok (some (compare (n : Int) bound)) :=
    rfl
  unfold isExceededBy
  rw [horder]
  change Except.ok (decide (some (compare (n : Int) bound) = some .gt)) = _
  simp only [Option.some.injEq, Int.compare_eq_gt]

theorem Value.isReachedBy_int (bound : Int) (n : Nat) :
    (Value.int bound).isReachedBy n = .ok (decide (bound ≤ n)) := by
  have horder : Value.orderOf ['>', '='] n (.int bound) =
      .ok (some (compare (n : Int) bound)) := rfl
  unfold isReachedBy
  rw [horder]
  change Except.ok (decide (some (compare (n : Int) bound) = some .gt) ||
    decide (some (compare (n : Int) bound) = some .eq)) = _
  rw [← Bool.decide_or]
  congr 1
  simp only [Option.some.injEq, Int.compare_eq_gt, Int.compare_eq_eq]
  refine decide_eq_decide.2 ?_
  omega

/-! ## What a sight adds -/

def Sight.Fits (limit : Int) : Sight → Prop
  | .file _ size => size ≤ limit
  | _ => False

namespace Walk

def outcome (w : Walk) (limit : Int) : Sight → Option (Except ReadFault FileRecord)
  | .misnamed names =>
      some (.error ⟨Path.joined names, "path is not valid UTF-8"⟩)
  | .file names size => if size ≤ limit then some (w.reading names size) else none
  | _ => none

def recordsOf (outcome : Option (Except ReadFault FileRecord)) : List FileRecord :=
  match outcome with
  | some (.ok record) => [record]
  | _ => []

def faultsOf (outcome : Option (Except ReadFault FileRecord)) : List ReadFault :=
  match outcome with
  | some (.error fault) => [fault]
  | _ => []

def records (w : Walk) (limit : Int) (xs : List Sight) : List FileRecord :=
  xs.flatMap fun x => recordsOf (w.outcome limit x)

def faults (w : Walk) (limit : Int) (xs : List Sight) : List ReadFault :=
  xs.flatMap fun x => faultsOf (w.outcome limit x)

variable {w : Walk} {limit budget : Int}

@[simp] theorem records_nil : w.records limit [] = [] := rfl

@[simp] theorem faults_nil : w.faults limit [] = [] := rfl

theorem records_cons (x : Sight) (xs : List Sight) :
    w.records limit (x :: xs) = recordsOf (w.outcome limit x) ++ w.records limit xs :=
  List.flatMap_cons

theorem faults_cons (x : Sight) (xs : List Sight) :
    w.faults limit (x :: xs) = faultsOf (w.outcome limit x) ++ w.faults limit xs :=
  List.flatMap_cons

theorem records_append (xs ys : List Sight) :
    w.records limit (xs ++ ys) = w.records limit xs ++ w.records limit ys :=
  List.flatMap_append

theorem length_recordsOf_le (r : Option (Except ReadFault FileRecord)) :
    (recordsOf r).length ≤ 1 := by
  unfold recordsOf
  split <;> simp

theorem fits_of_recordsOf {x : Sight} (h : recordsOf (w.outcome limit x) ≠ []) :
    x.Fits limit := by
  cases x with
  | file names size =>
      by_cases hsize : (size : Int) ≤ limit
      · exact hsize
      · simp [outcome, hsize, recordsOf] at h
  | listing dir => simp [outcome, recordsOf] at h
  | turn names => simp [outcome, recordsOf] at h
  | misnamed names => simp [outcome, recordsOf] at h
  | failure names e => simp [outcome, recordsOf] at h

end Walk

def Progress.add (s : Progress) (records : List FileRecord) (faults : List ReadFault) :
    Progress :=
  { s with
    files := s.files ++ records.map .record
    errors := s.errors ++ faults }

theorem Progress.add_nil (s : Progress) : s.add [] [] = s := by
  simp [Progress.add]

theorem Progress.add_add (s : Progress) (rs rs' : List FileRecord)
    (es es' : List ReadFault) :
    (s.add rs es).add rs' es' = s.add (rs ++ rs') (es ++ es') := by
  simp [Progress.add]

def Progress.full (s : Progress) : Progress :=
  { s with
    files := s.files ++ [.warning tooManyFiles]
    truncated := true
    stopped := true }

namespace Walk

structure Counts (w : Walk) (limit budget : Int) : Prop where
  size : w.plan.maxFileSize = .int limit
  files : w.plan.maxFiles = .int budget
  untimed : w.deadline = none

variable {w : Walk} {limit budget : Int}

theorem note_eq_add (s : Progress) (r : Except ReadFault FileRecord) :
    note s r = s.add (recordsOf (some r)) (faultsOf (some r)) := by
  cases r with
  | error fault => simp [note, Progress.add, recordsOf, faultsOf]
  | ok record => simp [note, addEntry, Progress.add, recordsOf, faultsOf]

/-! ## Meeting one sight -/

theorem meet_running {s : Progress} (hs : s.stopped = false) (x : Sight) :
    w.meet s x =
      match x with
      | .listing _ => .ok s
      | .turn _ => .ok (w.checkDeadline s)
      | .misnamed names => .ok (note s (.error ⟨Path.joined names, "path is not valid UTF-8"⟩))
      | .file names size => do
          if ← (w.plan.maxFileSize.isExceededBy size).mapError ScanError.misuse then return s
          if ← (w.plan.maxFiles.isReachedBy s.files.length).mapError ScanError.misuse then
            return s.full
          return note s (w.reading names size)
      | .failure _ e => .error e := by
  unfold meet
  rw [hs, if_neg Bool.false_ne_true]
  cases x with
  | file names size =>
      simp only [visitFile, readFile_eq_note]
      rfl
  | _ => rfl

theorem meet_of_room (hw : w.Counts limit budget) {s : Progress}
    (hs : s.stopped = false) {x : Sight} (hx : ∀ names e, x ≠ .failure names e)
    (hroom : x.Fits limit → (s.files.length : Int) < budget) :
    w.meet s x = .ok (s.add (recordsOf (w.outcome limit x))
      (faultsOf (w.outcome limit x))) := by
  rw [meet_running hs]
  cases x with
  | listing dir => exact congrArg Except.ok s.add_nil.symm
  | turn names =>
      have hcheck : w.checkDeadline s = s := by
        unfold checkDeadline
        rw [hw.untimed]
      dsimp only
      rw [hcheck]
      exact congrArg Except.ok s.add_nil.symm
  | misnamed names => exact congrArg Except.ok (note_eq_add s (.error _))
  | file names size =>
      simp only [hw.size, hw.files, Value.isExceededBy_int, Value.isReachedBy_int, outcome]
      by_cases hsize : (size : Int) ≤ limit
      · have hfull : ¬budget ≤ s.files.length := Int.not_le.2 (hroom hsize)
        simp only [hsize, if_true, Int.not_lt.2 hsize, hfull, note_eq_add, decide_false]
        rfl
      · simp only [hsize, if_false, Int.not_le.1 hsize, decide_true]
        exact congrArg Except.ok s.add_nil.symm
  | failure names e => exact absurd rfl (hx names e)

theorem meet_of_full (hw : w.Counts limit budget) {s : Progress}
    (hs : s.stopped = false) {x : Sight} (hx : x.Fits limit)
    (hfull : budget ≤ (s.files.length : Int)) : w.meet s x = .ok s.full := by
  cases x with
  | file names size =>
      have hsize : (size : Int) ≤ limit := hx
      rw [meet_running hs]
      simp only [hw.size, hw.files, Value.isExceededBy_int, Value.isReachedBy_int,
        Int.not_lt.2 hsize, hfull, decide_true, decide_false]
      rfl
  | listing dir => exact absurd hx id
  | turn names => exact absurd hx id
  | misnamed names => exact absurd hx id
  | failure names e => exact absurd hx id

/-! ## Meeting all sights -/

/-- The walk has enough room for each of the sights, if it has so many records already. -/
def Room (w : Walk) (limit budget : Int) (count : Nat) (xs : List Sight) : Prop :=
  ∀ before x after, xs = before ++ x :: after → x.Fits limit →
    (count + (w.records limit before).length : Int) < budget

theorem room_cons {count : Nat} {x : Sight} {xs : List Sight} :
    w.Room limit budget count (x :: xs) ↔
      (x.Fits limit → (count : Int) < budget) ∧
        w.Room limit budget (count + (recordsOf (w.outcome limit x)).length) xs := by
  constructor
  · intro h
    constructor
    · intro hx
      simpa using h [] x xs rfl hx
    · rintro before y after rfl hy
      have := h (x :: before) y after rfl hy
      rw [records_cons, List.length_append] at this
      push_cast at this ⊢
      omega
  · rintro ⟨hx, hxs⟩ before y after heq hy
    cases before with
    | nil =>
        cases heq
        simpa using hx hy
    | cons z before =>
        cases heq
        have := hxs before y after rfl hy
        rw [records_cons, List.length_append]
        push_cast at this ⊢
        omega

theorem meetAll_of_room (hw : w.Counts limit budget) {s : Progress}
    (hs : s.stopped = false) {xs : List Sight}
    (hxs : ∀ names e, .failure names e ∉ xs)
    (hroom : w.Room limit budget s.files.length xs) :
    w.meetAll xs s = .ok (s.add (w.records limit xs) (w.faults limit xs)) := by
  induction xs generalizing s with
  | nil => simp [Progress.add_nil]
  | cons x xs ih =>
      obtain ⟨hx, hroom⟩ := room_cons.1 hroom
      have hfirst := meet_of_room hw hs (x := x) (fun names e h => hxs names e (by simp [h])) hx
      rw [meetAll_cons, hfirst]
      have hlength : (s.add (recordsOf (w.outcome limit x))
          (faultsOf (w.outcome limit x))).files.length =
            s.files.length + (recordsOf (w.outcome limit x)).length := by
        simp [Progress.add]
      have hrest := ih (s := s.add (recordsOf (w.outcome limit x))
        (faultsOf (w.outcome limit x))) hs (fun names e h => hxs names e (by simp [h]))
        (by rw [hlength]; exact hroom)
      rw [Progress.add_add, ← records_cons, ← faults_cons] at hrest
      exact hrest

/-! ## Where a walk has enough files -/

theorem Room.length_le {count : Nat} {xs : List Sight}
    (h : w.Room limit budget count xs) :
    (count + (w.records limit xs).length : Int) ≤ max (count : Int) budget := by
  induction xs generalizing count with
  | nil =>
      rw [records_nil, List.length_nil]
      omega
  | cons x xs ih =>
      obtain ⟨hx, hxs⟩ := room_cons.1 h
      have hrest := ih hxs
      have hle := length_recordsOf_le (w.outcome limit x)
      rw [records_cons, List.length_append]
      cases hrecords : recordsOf (w.outcome limit x) with
      | nil =>
          simp only [hrecords, List.length_nil] at hrest ⊢
          push_cast at hrest ⊢
          omega
      | cons r rs =>
          -- Only a sight that fits adds a record, so there was room before.
          have hlt := hx (fits_of_recordsOf (by rw [hrecords]; simp))
          rw [hrecords] at hle hrest
          simp only [List.length_cons] at hle hrest ⊢
          push_cast at hrest ⊢
          omega

theorem room_or_full (w : Walk) (limit budget : Int) (count : Nat) (xs : List Sight) :
    w.Room limit budget count xs ∨
      ∃ before x after, xs = before ++ x :: after ∧ w.Room limit budget count before ∧
        x.Fits limit ∧ budget ≤ (count + (w.records limit before).length : Int) := by
  induction xs generalizing count with
  | nil =>
      left
      intro before x after h
      simp at h
  | cons x xs ih =>
      by_cases hx : x.Fits limit → (count : Int) < budget
      · rcases ih (count + (recordsOf (w.outcome limit x)).length) with
          h | ⟨before, y, after, rfl, hroom, hy, hfull⟩
        · exact .inl (room_cons.2 ⟨hx, h⟩)
        · refine .inr ⟨x :: before, y, after, rfl, room_cons.2 ⟨hx, hroom⟩, hy, ?_⟩
          rw [records_cons, List.length_append]
          push_cast at hfull ⊢
          omega
      · refine .inr ⟨[], x, xs, rfl, fun before y after h => by simp at h, ?_, ?_⟩
        · exact (Classical.not_imp.1 hx).1
        · simpa using (Classical.not_imp.1 hx).2

theorem meetAll_of_full (hw : w.Counts limit budget) {s : Progress}
    (hs : s.stopped = false) {before after : List Sight} {x : Sight}
    (hbefore : ∀ names e, .failure names e ∉ before)
    (hroom : w.Room limit budget s.files.length before) (hx : x.Fits limit)
    (hfull : budget ≤ (s.files.length + (w.records limit before).length : Int)) :
    w.meetAll (before ++ x :: after) s =
      .ok (s.add (w.records limit before) (w.faults limit before)).full := by
  have hmeet : w.meet (s.add (w.records limit before) (w.faults limit before)) x =
      .ok (s.add (w.records limit before) (w.faults limit before)).full := by
    have hopen : (s.add (w.records limit before) (w.faults limit before)).stopped =
        false := hs
    refine meet_of_full hw hopen hx ?_
    simpa [Progress.add] using hfull
  rw [meetAll_append, meetAll_of_room hw hs hbefore hroom]
  change w.meetAll (x :: after) _ = _
  rw [meetAll_cons, hmeet]
  exact w.meetAll_stopped rfl after

/-! ## What a sight can do -/

def noted (w : Walk) : Sight → Option (Except ReadFault FileRecord)
  | .misnamed names => some (.error ⟨Path.joined names, "path is not valid UTF-8"⟩)
  | .file names size => some (w.reading names size)
  | _ => none

theorem checkDeadline_cases (w : Walk) (s : Progress) : ∃ readings,
    w.checkDeadline s = { s with readings } ∨
      w.deadline.isSome = true ∧
        w.checkDeadline s = { s with readings, timedOut := true, stopped := true } := by
  unfold checkDeadline
  cases w.deadline with
  | none => exact ⟨s.readings, .inl rfl⟩
  | some deadline =>
      dsimp only
      split
      · exact ⟨_, .inl rfl⟩
      · exact ⟨_, .inr ⟨rfl, rfl⟩⟩

theorem checkDeadline_files (w : Walk) (s : Progress) :
    (w.checkDeadline s).files = s.files := by
  obtain ⟨_, heq | ⟨-, heq⟩⟩ := w.checkDeadline_cases s <;> rw [heq]

theorem checkDeadline_errors (w : Walk) (s : Progress) :
    (w.checkDeadline s).errors = s.errors := by
  obtain ⟨_, heq | ⟨-, heq⟩⟩ := w.checkDeadline_cases s <;> rw [heq]

/-- All that a sight can do to a walk: nothing, a look at the clock, a stop for want of room,
or something to take down. -/
theorem meet_cases {s t : Progress} {x : Sight} (h : w.meet s x = .ok t) :
    t = s ∨ s.stopped = false ∧
      ((∃ names, x = .turn names ∧ t = w.checkDeadline s) ∨
        (∃ names size, x = .file names size ∧ t = s.full) ∨
        ∃ r, w.noted x = some r ∧ t = note s r) := by
  cases hs : s.stopped with
  | true =>
      rw [w.meet_stopped hs] at h
      exact .inl (Except.ok.inj h).symm
  | false =>
      rw [meet_running hs] at h
      cases x with
      | listing dir => exact .inl (Except.ok.inj h).symm
      | turn names => exact .inr ⟨rfl, .inl ⟨names, rfl, (Except.ok.inj h).symm⟩⟩
      | misnamed names => exact .inr ⟨rfl, .inr (.inr ⟨_, rfl, (Except.ok.inj h).symm⟩)⟩
      | failure names e => cases h
      | file names size =>
          obtain ⟨large, -, h⟩ := ok_of_bind h
          cases large with
          | true => exact .inl (Except.ok.inj h).symm
          | false =>
              obtain ⟨enough, -, h⟩ := ok_of_bind h
              cases enough with
              | true =>
                  exact .inr ⟨rfl, .inr (.inl ⟨names, size, rfl, (Except.ok.inj h).symm⟩)⟩
              | false => exact .inr ⟨rfl, .inr (.inr ⟨_, rfl, (Except.ok.inj h).symm⟩)⟩

end Walk

end SourceScan
