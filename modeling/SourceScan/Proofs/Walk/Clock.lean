import SourceScan.Proofs.Walk.Report

/-!
# Readings of the clock

A walk with a deadline reads the clock once for each entry.  Only the readings that it
takes make a difference to it, and it may as well begin to count them later.
-/

namespace SourceScan

def Clock.skip (clock : Clock) (n : Nat) : Clock :=
  fun k => if k < n then clock k else clock (k + 1)

def Clock.Runs (clock : Clock) : Prop :=
  ∀ n time, (clock (n + 1)).lt time = true → (clock n).lt time = true

def Progress.later (s : Progress) (more : Nat) : Progress :=
  { s with readings := s.readings + more }

def Sight.isTurn : Sight → Bool
  | .turn _ => true
  | _ => false

def Report.untimed (r : Report) : Report := { r with timedOut := false }

namespace Walk

variable {walker : Walker} {d : Disk} {plan : Plan} {clock other : Clock}
  {w : Walk} {s t : Progress} {x : Sight} {xs : List Sight} {more : Nat}

def withClock (w : Walk) (clock : Clock) : Walk := { w with clock }

theorem clock_of_ofPlan (h : ofPlan walker d plan clock = .ok w) : clock = w.clock := by
  obtain ⟨root, project, output, deadline, -, -, -, -, rfl⟩ := ofPlan_eq_ok_iff.1 h
  rfl

theorem ofPlan_withClock
    (h : deadlineOf other plan.scanTimeout = deadlineOf clock plan.scanTimeout) :
    ofPlan walker d plan other = (ofPlan walker d plan clock).map (·.withClock other) :=
  ofPlan_map rfl (fun _ _ => rfl) (fun _ => rfl) (fun _ => rfl) h fun _ _ _ _ _ _ _ => rfl

theorem deadlineOf_congr (h : other 0 = clock 0) (timeout : Value) :
    deadlineOf other timeout = deadlineOf clock timeout := by
  unfold deadlineOf
  rw [h]

theorem sights_withClock (w : Walk) (clock : Clock) :
    (w.withClock clock).sights = w.sights :=
  SameView.sights_eq ⟨rfl, rfl, rfl, rfl, rfl, rfl⟩

/-! ## Meeting sights at other times -/

theorem meet_turn (hs : s.stopped = false) (names : List FileName) :
    w.meet s (.turn names) = .ok (w.checkDeadline s) :=
  meet_running hs _

theorem checkDeadline_of_lt {deadline : Binary64} (hdeadline : w.deadline = some deadline)
    (h : (w.clock s.readings).lt deadline = true) : w.checkDeadline s = s.later 1 := by
  unfold checkDeadline
  rw [hdeadline]
  exact if_pos h

theorem checkDeadline_of_not_lt {deadline : Binary64} (hdeadline : w.deadline = some deadline)
    (h : ¬(w.clock s.readings).lt deadline = true) :
    w.checkDeadline s = { s.later 1 with timedOut := true, stopped := true } := by
  unfold checkDeadline
  rw [hdeadline]
  exact if_neg h

theorem checkDeadline_later (h : other s.readings = w.clock (s.readings + more)) :
    w.checkDeadline (s.later more) = ((w.withClock other).checkDeadline s).later more := by
  have hdeadline : (w.withClock other).deadline = w.deadline := rfl
  unfold checkDeadline
  rw [hdeadline]
  cases w.deadline with
  | none => rfl
  | some deadline =>
      simp only [withClock, Progress.later, Nat.add_sub_cancel, h]
      split <;> simp only [Nat.add_right_comm]

theorem visitFile_later (names : List FileName) (size : Nat) (s : Progress) :
    w.visitFile (w.pathOf names) (Path.joined names) size (s.later more) =
      ((w.withClock other).visitFile (w.pathOf names) (Path.joined names) size s).map
        (·.later more) := by
  have hread : ∀ s, (w.withClock other).readFile (w.pathOf names) (Path.joined names) size s =
      note s (w.reading names size) := (w.withClock other).readFile_eq_note names size
  simp only [visitFile, hread, readFile_eq_note]
  rw [show (w.withClock other).plan = w.plan from rfl]
  cases (w.plan.maxFileSize.isExceededBy size).mapError ScanError.misuse with
  | error e => rfl
  | ok large =>
      cases large with
      | true => rfl
      | false =>
          simp only [Progress.later]
          cases (w.plan.maxFiles.isReachedBy s.files.length).mapError ScanError.misuse with
          | error e => rfl
          | ok enough =>
              cases enough with
              | true => rfl
              | false => cases w.reading names size <;> rfl

theorem meet_later (h : x.isTurn = true → other s.readings = w.clock (s.readings + more)) :
    w.meet (s.later more) x = ((w.withClock other).meet s x).map (·.later more) := by
  unfold meet
  rw [show (s.later more).stopped = s.stopped from rfl]
  split
  · rfl
  · cases x with
    | listing dir => rfl
    | turn names => exact congrArg Except.ok (checkDeadline_later (h rfl))
    | misnamed names => rfl
    | file names size => exact visitFile_later names size s
    | failure names e => rfl

theorem checkDeadline_readings (w : Walk) (s : Progress) : (w.checkDeadline s).readings =
    s.readings + if w.deadline.isSome then 1 else 0 := by
  unfold checkDeadline
  cases w.deadline with
  | none => rfl
  | some deadline =>
      dsimp only
      split <;> rfl

theorem readings_of_meet (hs : s.stopped = false) (h : w.meet s x = .ok t) :
    t.readings = s.readings + if x.isTurn && w.deadline.isSome then 1 else 0 := by
  rw [meet_running hs] at h
  cases x with
  | listing dir =>
      cases h
      rfl
  | turn names =>
      cases h
      exact w.checkDeadline_readings s
  | misnamed names =>
      cases h
      rfl
  | file names size =>
      obtain ⟨large, -, h⟩ := ok_of_bind h
      cases large with
      | true =>
          cases h
          rfl
      | false =>
          obtain ⟨enough, -, h⟩ := ok_of_bind h
          cases enough with
          | true =>
              cases h
              rfl
          | false =>
              cases h
              cases w.reading names size <;> rfl
  | failure names e => cases h

theorem readings_le_of_meet (h : w.meet s x = .ok t) :
    s.readings ≤ t.readings ∧ t.readings ≤ s.readings + if x.isTurn then 1 else 0 := by
  cases hs : s.stopped with
  | true =>
      rw [w.meet_stopped hs] at h
      cases h
      omega
  | false =>
      rw [readings_of_meet hs h]
      cases x.isTurn <;> cases w.deadline.isSome <;> simp

theorem meetAll_later (h : ∀ k, s.readings ≤ k → k < s.readings + xs.countP Sight.isTurn →
      other k = w.clock (k + more)) :
    w.meetAll xs (s.later more) = ((w.withClock other).meetAll xs s).map (·.later more) := by
  induction xs generalizing s with
  | nil => rfl
  | cons x xs ih =>
      have hfirst : x.isTurn = true → other s.readings = w.clock (s.readings + more) := by
        intro hx
        refine h _ le_rfl ?_
        rw [List.countP_cons, if_pos hx]
        omega
      rw [meetAll_cons, meetAll_cons, meet_later hfirst]
      cases hmeet : (w.withClock other).meet s x with
      | error e => rfl
      | ok t =>
          obtain ⟨hle, hge⟩ := readings_le_of_meet hmeet
          refine ih fun k hk hlt => h k (hle.trans hk) ?_
          rw [List.countP_cons]
          omega

theorem meetAll_of_skip {n : Nat} (h : s.readings + xs.countP Sight.isTurn ≤ n) :
    (w.withClock (w.clock.skip n)).meetAll xs s = w.meetAll xs s := by
  have hsame : w.meetAll xs (s.later 0) =
      ((w.withClock (w.clock.skip n)).meetAll xs s).map (·.later 0) := by
    refine meetAll_later fun k _ hk => ?_
    rw [Clock.skip, if_pos (hk.trans_le h), Nat.add_zero]
  rw [show s.later 0 = s from rfl] at hsame
  rw [hsame]
  cases (w.withClock (w.clock.skip n)).meetAll xs s with
  | error e => rfl
  | ok t => rfl

theorem readings_of_meetAll (hdeadline : w.deadline.isSome = true)
    (h : w.meetAll xs s = .ok t) (ht : t.stopped = false) :
    t.readings = s.readings + xs.countP Sight.isTurn := by
  induction xs generalizing s with
  | nil =>
      cases h
      rfl
  | cons x xs ih =>
      rw [meetAll_cons] at h
      obtain ⟨u, hfirst, hrest⟩ := ok_of_bind h
      have hs : s.stopped = false := by
        cases hs : s.stopped with
        | false => rfl
        | true =>
            rw [w.meet_stopped hs] at hfirst
            cases hfirst
            rw [w.meetAll_stopped hs] at hrest
            cases hrest
            exact hs.symm.trans ht
      rw [ih hrest, readings_of_meet hs hfirst, hdeadline, Bool.and_true, List.countP_cons]
      omega

/-! ## Walks without a deadline -/

theorem meetAll_withClock (huntimed : w.deadline = none) (xs : List Sight) (s : Progress) :
    (w.withClock other).meetAll xs s = w.meetAll xs s := by
  induction xs generalizing s with
  | nil => rfl
  | cons x xs ih =>
      have hfirst : (w.withClock other).meet s x = w.meet s x := by
        unfold meet
        cases x with
        | turn names =>
            unfold checkDeadline
            rw [show (w.withClock other).deadline = w.deadline from rfl, huntimed]
        | listing dir => rfl
        | misnamed names => rfl
        | file names size => rfl
        | failure names e => rfl
      rw [meetAll_cons, meetAll_cons, hfirst]
      exact congrArg _ (funext ih)

/-- A walk without a deadline is the same at all times but for the time in the report. -/
theorem walk_of_untimed (huntimed : plan.scanTimeout = .null) {now later : Calendar.DateTime} :
    walker.walk d plan other later =
      (walker.walk d plan clock now).map fun r => { r with scannedAt := later } := by
  have hplan := @ofPlan_withClock walker d plan clock other (by rw [huntimed]; rfl)
  cases hw : ofPlan walker d plan clock with
  | error e =>
      rw [hw] at hplan
      rw [walk_of_ofPlan_error hw, walk_of_ofPlan_error hplan]
      rfl
  | ok w =>
      rw [hw] at hplan
      have hdeadline := (prepared_of_ofPlan hw).deadline
      rw [huntimed] at hdeadline
      have hnone : w.deadline = none := (Except.ok.inj hdeadline).symm
      rw [walk_of_ofPlan hw, walk_of_ofPlan hplan, sights_withClock, meetAll_withClock hnone,
        show (w.withClock other).start = w.start from rfl]
      cases w.meetAll w.sights w.start with
      | error e => rfl
      | ok t => rfl

end Walk

end SourceScan
