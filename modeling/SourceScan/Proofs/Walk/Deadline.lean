import SourceScan.Proofs.Number.Exact
import SourceScan.Proofs.Walk.Clock

/-!
# The deadline of a walk

A walk with a timeout is the walk without one up to the first entry whose reading of the
clock is no longer before the deadline.  What it has taken down by then is its report.
-/

namespace SourceScan

def Plan.withTimeout (plan : Plan) (timeout : Value) : Plan :=
  { plan with scanTimeout := timeout }

/-- The reading number `n` is before the deadline that the first reading and the timeout set. -/
def Clock.Early (clock : Clock) (timeout : Binary64) (n : Nat) : Prop :=
  (clock n).lt ((clock 0).add timeout) = true

/-- With exact numbers a reading is early if it is less than the sum of the first reading and
the timeout. -/
theorem Clock.early_iff {clock : Clock} {timeout : Binary64} {n : Nat} {reading first span : ℚ}
    (hreading : (clock n).toRat? = some reading) (hfirst : (clock 0).toRat? = some first)
    (hspan : timeout.toRat? = some span) (hsum : Binary64.Representable (first + span)) :
    clock.Early timeout n ↔ reading < first + span :=
  Binary64.lt_iff hreading (Binary64.toRat?_add hfirst hspan hsum)

def Progress.unread (s : Progress) : Progress := { s with readings := 0 }

namespace Walk

variable {walker : Walker} {d : Disk} {plan : Plan} {clock : Clock}
  {now : Calendar.DateTime} {w : Walk} {s t : Progress} {x : Sight} {xs : List Sight}
  {deadline : Binary64}

def withTimeout (w : Walk) (timeout : Value) (deadline : Option Binary64) : Walk :=
  { w with plan := w.plan.withTimeout timeout, deadline }

theorem ofPlan_withTimeout (walker : Walker) (d : Disk) (plan : Plan) (clock : Clock)
    (timeout : Value) :
    ofPlan walker d (plan.withTimeout timeout) clock =
      (ofPlan walker d (plan.withTimeout .null) clock >>= fun w =>
        ((deadlineOf clock timeout).mapError ScanError.misuse).map (w.withTimeout timeout)) := by
  unfold ofPlan Plan.withTimeout
  dsimp only
  cases Plan.rootOf d plan.root with
  | error e => rfl
  | ok root =>
  simp only [bind, Except.bind]
  cases (ProjectKind.rulesAt d root).mapError ScanError.disk with
  | error e => rfl
  | ok project =>
  simp only
  cases outputRule d root plan.outputTarget with
  | error e => rfl
  | ok output =>
  simp only [deadlineOf]
  cases (deadlineOf clock timeout).mapError ScanError.misuse with
  | error e => rfl
  | ok deadline => rfl

theorem sights_withTimeout (w : Walk) (timeout : Value) (deadline : Option Binary64) :
    (w.withTimeout timeout deadline).sights = w.sights :=
  SameView.sights_eq ⟨rfl, rfl, rfl, rfl, rfl, rfl⟩

/-! ## Meeting sights with and without a deadline -/

theorem meet_withTimeout {timeout : Value} {deadline : Option Binary64}
    (hx : x.isTurn = false) :
    (w.withTimeout timeout deadline).meet s x = w.meet s x := by
  unfold meet
  cases x with
  | turn names => cases hx
  | listing dir => rfl
  | misnamed names => rfl
  | file names size => rfl
  | failure names e => rfl

theorem meet_turn_of_untimed (huntimed : w.deadline = none) (hs : s.stopped = false)
    (names : List FileName) : w.meet s (.turn names) = .ok s := by
  rw [meet_turn hs, checkDeadline, huntimed]

/-- A walk without a deadline goes on in the same way however often the clock was read. -/
theorem meetAll_later_of_untimed (huntimed : w.deadline = none) (more : Nat) :
    w.meetAll xs (s.later more) = (w.meetAll xs s).map (·.later more) := by
  have hlater := @meetAll_later (fun k => w.clock (k + more)) w s xs more fun _ _ _ => rfl
  rwa [meetAll_withClock huntimed] at hlater

section Timed

variable {timeout : Value} (huntimed : w.deadline = none)
include huntimed

/-- As long as every reading is before the deadline it makes no difference. -/
theorem meetAll_of_early (hs : s.stopped = false)
    (hearly : ∀ before names after t, xs = before ++ .turn names :: after →
      w.meetAll before s = .ok t → t.stopped = false →
      (w.clock (s.readings + before.countP Sight.isTurn)).lt deadline = true) :
    ((w.withTimeout timeout (some deadline)).meetAll xs s).map Progress.unread =
      (w.meetAll xs s).map Progress.unread := by
  induction xs generalizing s with
  | nil => rfl
  | cons x xs ih =>
      rw [meetAll_cons, meetAll_cons]
      cases hx : x.isTurn with
      | false =>
          -- Both walks do the same, unless it is the turn of an entry.
          rw [meet_withTimeout hx]
          cases hmeet : w.meet s x with
          | error e => rfl
          | ok t =>
              change (meetAll _ xs t).map _ = (w.meetAll xs t).map _
              cases ht : t.stopped with
              | true => rw [meetAll_stopped _ ht, meetAll_stopped _ ht]
              | false =>
                  have hreadings := readings_of_meet hs hmeet
                  rw [hx, Bool.false_and, if_neg Bool.false_ne_true, Nat.add_zero] at hreadings
                  refine ih ht fun before names after u hsplit hbefore hu => ?_
                  have hlater := hearly (x :: before) names after u (by rw [hsplit]; rfl)
                    (by rw [meetAll_cons, hmeet]; exact hbefore) hu
                  rwa [List.countP_cons_of_neg (by rw [hx]; exact Bool.false_ne_true),
                    ← hreadings] at hlater
      | true =>
          obtain ⟨names, rfl⟩ : ∃ names, x = .turn names := by
            cases x with
            | turn names => exact ⟨names, rfl⟩
            | _ => cases hx
          -- The clock is read in one of the walks only.
          have hturn : w.meet s (.turn names) = .ok s := meet_turn_of_untimed huntimed hs names
          have hfirst : (w.withTimeout timeout (some deadline)).meet s (.turn names) =
              .ok (s.later 1) := by
            have hfirst : (w.clock s.readings).lt deadline = true := hearly [] names xs s rfl rfl hs
            rw [meet_turn hs]
            exact congrArg Except.ok (checkDeadline_of_lt rfl hfirst)
          rw [hfirst, hturn]
          change (meetAll _ xs (s.later 1)).map _ = (w.meetAll xs s).map _
          have hrest : ((w.withTimeout timeout (some deadline)).meetAll xs (s.later 1)).map
              Progress.unread = (w.meetAll xs (s.later 1)).map Progress.unread := by
            refine ih hs fun before names' after u hsplit hbefore hu => ?_
            rw [meetAll_later_of_untimed huntimed] at hbefore
            obtain ⟨u', hu', rfl⟩ := ok_of_map hbefore
            have hlater := hearly (.turn names :: before) names' after u' (by rw [hsplit]; rfl)
              (by rw [meetAll_cons, hturn]; exact hu') hu
            rwa [List.countP_cons_of_pos rfl, Nat.add_comm _ 1, ← Nat.add_assoc] at hlater
          rw [hrest, meetAll_later_of_untimed huntimed]
          cases w.meetAll xs s <;> rfl

theorem meetAll_of_late (hs : s.stopped = false) {before after : List Sight}
    {names : List FileName} (hmeet : w.meetAll before s = .ok t) (ht : t.stopped = false)
    (hearly : ∀ earlier names' later u, before = earlier ++ .turn names' :: later →
      w.meetAll earlier s = .ok u → u.stopped = false →
      (w.clock (s.readings + earlier.countP Sight.isTurn)).lt deadline = true)
    (hlate : ¬(w.clock (s.readings + before.countP Sight.isTurn)).lt deadline = true) :
    ((w.withTimeout timeout (some deadline)).meetAll (before ++ .turn names :: after) s).map
        Progress.unread =
      .ok { t.unread with timedOut := true, stopped := true } := by
  have hbefore := @meetAll_of_early w s before deadline timeout huntimed hs hearly
  rw [hmeet] at hbefore
  obtain ⟨u, hu, hsame⟩ := ok_of_map hbefore
  have hopen : u.stopped = false := by
    have hstopped := congrArg Progress.stopped hsame
    exact hstopped.symm.trans ht
  have hreadings : u.readings = s.readings + before.countP Sight.isTurn :=
    readings_of_meetAll rfl hu hopen
  have hturn : (w.withTimeout timeout (some deadline)).meet u (.turn names) =
      .ok { u.later 1 with timedOut := true, stopped := true } := by
    rw [← hreadings] at hlate
    rw [meet_turn hopen]
    exact congrArg Except.ok (checkDeadline_of_not_lt rfl hlate)
  rw [meetAll_append, hu]
  change (meetAll _ (.turn names :: after) u).map _ = _
  rw [meetAll_cons, hturn]
  change (meetAll _ after _).map _ = _
  rw [meetAll_stopped _ rfl]
  change Except.ok { u.unread with timedOut := true, stopped := true } = _
  rw [hsame]

end Timed

/-! ## What holds all along -/

/-- A walk stops for one of two reasons, and only one of them comes with a warning. -/
structure Settled (w : Walk) (s : Progress) : Prop where
  stopped : s.stopped = (s.truncated || s.timedOut)
  single : ¬(s.truncated = true ∧ s.timedOut = true)
  warned : ∀ text, .warning text ∈ s.files → s.truncated = true
  timed : s.timedOut = true → w.deadline.isSome = true

theorem Settled.running (hs : w.Settled s) (h : s.stopped = false) :
    s.truncated = false ∧ s.timedOut = false := by
  rw [hs.stopped] at h
  exact Bool.or_eq_false_iff.1 h

theorem settled_start (w : Walk) : w.Settled w.start :=
  ⟨rfl, by simp [start], by simp [start], by simp [start]⟩

theorem Settled.checkDeadline (hs : w.Settled s) (h : s.stopped = false) :
    w.Settled (w.checkDeadline s) := by
  obtain ⟨readings, heq | ⟨hdeadline, heq⟩⟩ := w.checkDeadline_cases s
  · rw [heq]
    exact ⟨hs.stopped, hs.single, hs.warned, hs.timed⟩
  · have huncut := (hs.running h).1
    rw [heq]
    refine ⟨?_, fun hboth => ?_, hs.warned, fun _ => hdeadline⟩
    · exact (Bool.or_true s.truncated).symm
    · exact Bool.false_ne_true (huncut.symm.trans hboth.1)

theorem Settled.full (hs : w.Settled s) (h : s.stopped = false) : w.Settled s.full := by
  have huntimed := (hs.running h).2
  refine ⟨rfl, fun hboth => ?_, fun _ _ => rfl, hs.timed⟩
  exact Bool.false_ne_true (huntimed.symm.trans hboth.2)

theorem Settled.note (hs : w.Settled s) (r : Except ReadFault FileRecord) :
    w.Settled (note s r) := by
  cases r with
  | error fault => exact ⟨hs.stopped, hs.single, hs.warned, hs.timed⟩
  | ok record =>
      refine ⟨hs.stopped, hs.single, fun text hmem => hs.warned text ?_, hs.timed⟩
      exact (List.mem_append.1 hmem).resolve_right (by simp)

theorem Settled.meet (hs : w.Settled s) (h : w.meet s x = .ok t) : w.Settled t := by
  rcases meet_cases h with rfl | ⟨hopen, ⟨names, -, rfl⟩ | ⟨names, size, -, rfl⟩ | ⟨r, -, rfl⟩⟩
  · exact hs
  · exact hs.checkDeadline hopen
  · exact hs.full hopen
  · exact hs.note r

theorem Settled.meetAll (hs : w.Settled s) (h : w.meetAll xs s = .ok t) : w.Settled t :=
  keeps_of_foldlM_ok (fun _ => Settled.meet) hs h

theorem grows_of_meet (h : w.meet s x = .ok t) : s.files <+: t.files ∧ s.errors <+: t.errors := by
  rcases meet_cases h with rfl | ⟨-, ⟨names, -, rfl⟩ | ⟨names, size, -, rfl⟩ | ⟨r, -, rfl⟩⟩
  · exact ⟨List.prefix_refl _, List.prefix_refl _⟩
  · rw [checkDeadline_files, checkDeadline_errors]
    exact ⟨List.prefix_refl _, List.prefix_refl _⟩
  · exact ⟨List.prefix_append _ _, List.prefix_refl _⟩
  · rw [note_eq_add]
    exact ⟨List.prefix_append _ _, List.prefix_append _ _⟩

theorem grows_of_meetAll (h : w.meetAll xs s = .ok t) :
    s.files <+: t.files ∧ s.errors <+: t.errors := by
  refine keeps_of_foldlM_ok (I := fun t => s.files <+: t.files ∧ s.errors <+: t.errors)
    (fun _ hearlier hmeet => ?_) ⟨List.prefix_refl _, List.prefix_refl _⟩ h
  have hgrows := grows_of_meet hmeet
  exact ⟨hearlier.1.trans hgrows.1, hearlier.2.trans hgrows.2⟩

/-! ## The walk of a plan with a timeout -/

/-- After `k` other entries it is the turn of one more, and the walk goes on with `s`. -/
def ComesTo (w : Walk) (k : Nat) (s : Progress) : Prop :=
  ∃ before names after, w.sights = before ++ .turn names :: after ∧
    before.countP Sight.isTurn = k ∧ w.meetAll before w.start = .ok s ∧ s.stopped = false

/-- The report of a walk that has `s` when its time is over, and `all` is the report that it
would have had otherwise. -/
structure CutAt (w : Walk) (now : Calendar.DateTime) (s : Progress)
    (all : Except ScanError Report) (report : Report) : Prop where
  report_eq : report = { w.report now s with timedOut := true }
  files : report.files = s.files
  errors : report.errors = s.errors
  timedOut : report.timedOut = true
  truncated : report.truncated = false
  unwarned : ∀ text, .warning text ∉ report.files
  initial : ∀ whole, all = .ok whole →
    report.files <+: whole.files ∧ report.errors <+: whole.errors

theorem deadlineOf_number {timeout : Value} {span : Binary64}
    (h : timeout.number .notAddable = .ok span) :
    deadlineOf clock timeout = .ok (some ((clock 0).add span)) := by
  unfold deadlineOf
  split
  · cases h
  · rw [h]
    rfl

theorem map_report_of_unread {x y : Except ScanError Progress}
    (h : x.map Progress.unread = y.map Progress.unread) :
    x.map (w.report now) = y.map (w.report now) := by
  have hsame : ∀ z : Except ScanError Progress,
      z.map (w.report now) = (z.map Progress.unread).map (w.report now) := by
    intro z
    cases z <;> rfl
  rw [hsame x, hsame y, h]

section Timeout

variable {timeout : Binary64} (htimeout : plan.scanTimeout.number .notAddable = .ok timeout)
include htimeout

theorem ofPlan_of_timeout : ofPlan walker d plan clock =
    (ofPlan walker d (plan.withTimeout .null) clock).map
      (·.withTimeout plan.scanTimeout (some ((clock 0).add timeout))) := by
  have hplan := ofPlan_withTimeout walker d plan clock plan.scanTimeout
  rw [show plan.withTimeout plan.scanTimeout = plan from rfl, deadlineOf_number htimeout] at hplan
  rw [hplan]
  cases ofPlan walker d (plan.withTimeout .null) clock <;> rfl

variable (hw : ofPlan walker d (plan.withTimeout .null) clock = .ok w)
include hw

omit htimeout in
theorem untimed_of_ofPlan : w.deadline = none := by
  have hdeadline := (prepared_of_ofPlan hw).deadline
  exact (Except.ok.inj hdeadline).symm

theorem walk_of_timeout : walker.walk d plan clock now =
    ((w.withTimeout plan.scanTimeout (some ((clock 0).add timeout))).meetAll w.sights
      (w.start.later 1)).map (w.report now) := by
  have hplan := @ofPlan_of_timeout walker d plan clock timeout htimeout
  rw [hw] at hplan
  rw [walk_of_ofPlan hplan, sights_withTimeout]
  have hstart : w.start.later 1 =
      (w.withTimeout plan.scanTimeout (some ((clock 0).add timeout))).start := by
    rw [start, untimed_of_ofPlan hw]
    rfl
  rw [hstart]
  rfl

omit htimeout in
theorem comesTo_of_meetAll {before after : List Sight} {names : List FileName}
    (hsplit : w.sights = before ++ .turn names :: after)
    (hmeet : w.meetAll before (w.start.later 1) = .ok t) (ht : t.stopped = false) :
    ∃ s, w.ComesTo (before.countP Sight.isTurn) s ∧
      w.clock ((w.start.later 1).readings + before.countP Sight.isTurn) =
        clock (before.countP Sight.isTurn + 1) := by
  rw [meetAll_later_of_untimed (untimed_of_ofPlan hw)] at hmeet
  obtain ⟨s, hs, rfl⟩ := ok_of_map hmeet
  refine ⟨s, ⟨before, names, after, hsplit, rfl, hs, ht⟩, ?_⟩
  have hfirst : (w.start.later 1).readings = 1 := by
    rw [Progress.later, start, untimed_of_ofPlan hw]
    rfl
  rw [hfirst, Nat.add_comm, clock_of_ofPlan hw]

/-- Timely readings make no difference to the report. -/
theorem walk_of_early (hearly : ∀ k s, w.ComesTo k s → clock.Early timeout (k + 1)) :
    walker.walk d plan clock now = walker.walk d (plan.withTimeout .null) clock now := by
  have huntimed := untimed_of_ofPlan hw
  rw [walk_of_timeout htimeout hw, walk_of_ofPlan hw]
  refine map_report_of_unread ?_
  rw [meetAll_of_early huntimed rfl, meetAll_later_of_untimed huntimed]
  · cases w.meetAll w.sights w.start <;> rfl
  · intro before names after t hsplit hmeet ht
    obtain ⟨s, hcomes, hclock⟩ := comesTo_of_meetAll hw hsplit hmeet ht
    rw [hclock]
    exact hearly _ s hcomes

theorem walk_of_late {k : Nat} (hcomes : w.ComesTo k s)
    (hearly : ∀ j < k, clock.Early timeout (j + 1)) (hlate : ¬clock.Early timeout (k + 1)) :
    walker.walk d plan clock now = .ok { w.report now s with timedOut := true } := by
  have huntimed := untimed_of_ofPlan hw
  obtain ⟨before, names, after, hsplit, rfl, hmeet, hs⟩ := hcomes
  have hlater : w.meetAll before (w.start.later 1) = .ok (s.later 1) := by
    rw [meetAll_later_of_untimed huntimed, hmeet]
    rfl
  have hcheck : ∀ earlier names' later t, before = earlier ++ .turn names' :: later →
      w.meetAll earlier (w.start.later 1) = .ok t → t.stopped = false →
      (w.clock ((w.start.later 1).readings + earlier.countP Sight.isTurn)).lt
        ((clock 0).add timeout) = true := by
    intro earlier names' later t hbefore hearlier ht
    rw [hbefore, List.append_assoc] at hsplit
    obtain ⟨_, -, hclock⟩ := comesTo_of_meetAll hw hsplit hearlier ht
    rw [hclock]
    refine hearly _ ?_
    rw [hbefore, List.countP_append, List.countP_cons_of_pos rfl]
    omega
  have hover : ¬(w.clock ((w.start.later 1).readings + before.countP Sight.isTurn)).lt
      ((clock 0).add timeout) = true := by
    obtain ⟨_, -, hclock⟩ := comesTo_of_meetAll hw hsplit hlater hs
    rw [hclock]
    exact hlate
  have hstop := @meetAll_of_late w (w.start.later 1) (s.later 1) ((clock 0).add timeout)
    plan.scanTimeout huntimed rfl before after names hlater hs hcheck hover
  rw [walk_of_timeout htimeout hw, hsplit]
  exact map_report_of_unread (y := .ok { s with timedOut := true, stopped := true }) hstop

end Timeout

theorem cutAt_of_comesTo {k : Nat} (hcomes : w.ComesTo k s) :
    w.CutAt now s ((w.meetAll w.sights w.start).map (w.report now))
      { w.report now s with timedOut := true } := by
  obtain ⟨before, names, after, hsplit, -, hmeet, hs⟩ := hcomes
  have hsettled := w.settled_start.meetAll hmeet
  have huncut := (hsettled.running hs).1
  refine ⟨rfl, rfl, rfl, rfl, huncut, fun text hmem => ?_, fun whole hwhole => ?_⟩
  · exact Bool.false_ne_true (huncut.symm.trans (hsettled.warned text hmem))
  · rw [hsplit, meetAll_append, hmeet] at hwhole
    obtain ⟨t, ht, rfl⟩ := ok_of_map hwhole
    exact grows_of_meetAll ht

theorem settled_of_walk {report : Report} (h : walker.walk d plan clock now = .ok report) :
    ∃ w s, ofPlan walker d plan clock = .ok w ∧ w.Settled s ∧ report = w.report now s := by
  obtain ⟨w, s, hw, hmeet, rfl⟩ := progress_of_walk h
  exact ⟨w, s, hw, w.settled_start.meetAll hmeet, rfl⟩

/-- A walk with a timeout is the walk without one, cut short before the first entry whose
reading of the clock is not below the sum of the first reading and the timeout. -/
theorem walk_timeout {timeout : Binary64}
    (htimeout : plan.scanTimeout.number .notAddable = .ok timeout) :
    (∀ n reading first span, (clock n).toRat? = some reading → (clock 0).toRat? = some first →
      timeout.toRat? = some span → Binary64.Representable (first + span) →
        (clock.Early timeout n ↔ reading < first + span)) ∧
    match ofPlan walker d (plan.withTimeout .null) clock with
    | .error e => walker.walk d plan clock now = .error e ∧
        walker.walk d (plan.withTimeout .null) clock now = .error e
    | .ok u =>
        ((∀ k s, u.ComesTo k s → clock.Early timeout (k + 1)) →
          walker.walk d plan clock now = walker.walk d (plan.withTimeout .null) clock now) ∧
        (∀ k s, u.ComesTo k s → (∀ j < k, clock.Early timeout (j + 1)) →
          ¬clock.Early timeout (k + 1) → ∃ report,
            walker.walk d plan clock now = .ok report ∧
              u.CutAt now s (walker.walk d (plan.withTimeout .null) clock now) report) ∧
        (∀ all, walker.walk d (plan.withTimeout .null) clock now = .ok all →
          all.timedOut = false) ∧
        ∀ report, walker.walk d plan clock now = .ok report →
          ¬(report.timedOut = true ∧ report.truncated = true) := by
  refine ⟨fun n reading first span => Clock.early_iff, ?_⟩
  cases hw : ofPlan walker d (plan.withTimeout .null) clock with
  | error e =>
      refine ⟨walk_of_ofPlan_error ?_, walk_of_ofPlan_error hw⟩
      rw [ofPlan_of_timeout htimeout, hw]
      rfl
  | ok u =>
      have huntimed := untimed_of_ofPlan hw
      refine ⟨walk_of_early htimeout hw, fun k s hcomes hearly hlate => ?_, fun all hall => ?_,
        fun report hreport hboth => ?_⟩
      · refine ⟨_, walk_of_late htimeout hw hcomes hearly hlate, ?_⟩
        rw [walk_of_ofPlan hw]
        exact cutAt_of_comesTo hcomes
      · obtain ⟨w, s, hplan, hsettled, rfl⟩ := settled_of_walk hall
        obtain rfl : u = w := Except.ok.inj (hw.symm.trans hplan)
        cases htimed : s.timedOut with
        | false => exact htimed
        | true =>
            have hdeadline := hsettled.timed htimed
            rw [huntimed] at hdeadline
            cases hdeadline
      · obtain ⟨w, s, -, hsettled, rfl⟩ := settled_of_walk hreport
        exact hsettled.single ⟨hboth.2, hboth.1⟩

def ticking : Clock := fun n => .ofInt n

/-- What the walk has before it turns to the other name of the directory. -/
theorem comesTo_mixed : (mixedWalk.withClock ticking).ComesTo 4
    (mixedWalk.start.add (mixedRecords.take 2) (mixedFaults.take 1)) := by
  refine ⟨[.listing [], .turn [subName], .listing [subName], .turn [subName, innerName],
    .file [subName, innerName] 2, .turn [topName], .file [topName] 5, .turn [spoiltName],
    .file [spoiltName] 1], [linkName], _,
    (sights_withClock mixedWalk ticking).trans sights_mixed, rfl, ?_, rfl⟩
  have hcounts : mixedWalk.Counts 100 4 := (prepared_of_ofPlan ofPlan_mixed).counts rfl rfl rfl
  have hrecords : mixedWalk.records 100 [.listing [], .turn [subName], .listing [subName],
      .turn [subName, innerName], .file [subName, innerName] 2, .turn [topName],
      .file [topName] 5, .turn [spoiltName], .file [spoiltName] 1] = mixedRecords.take 2 := by
    simp [records_cons, outcome, recordsOf, reading_mixed, mixedRecords]
  have hfaults : mixedWalk.faults 100 [.listing [], .turn [subName], .listing [subName],
      .turn [subName, innerName], .file [subName, innerName] 2, .turn [topName],
      .file [topName] 5, .turn [spoiltName], .file [spoiltName] 1] = mixedFaults.take 1 := by
    simp [faults_cons, outcome, faultsOf, reading_mixed, mixedFaults]
  rw [meetAll_withClock rfl, show (mixedWalk.withClock ticking).start = mixedWalk.start from rfl,
    meetAll_of_room hcounts rfl (by simp) (room_of_lt (by rw [hrecords]; decide)), hrecords,
    hfaults]

/-- The clock reads five seconds at the fifth entry, which is too late. -/
theorem walk_timeout_ticking : ∃ report,
    mixedWalker.walk mixedDisk (mixedPlan.withTimeout (.int 5)) ticking default = .ok report ∧
      report.files = (mixedRecords.take 2).map .record ∧
      report.errors = mixedFaults.take 1 ∧ report.timedOut = true := by
  have hplan : ofPlan mixedWalker mixedDisk (mixedPlan.withTimeout .null) ticking =
      .ok (mixedWalk.withClock ticking) := by cbv
  obtain ⟨hexact, h⟩ := @walk_timeout mixedWalker mixedDisk (mixedPlan.withTimeout (.int 5))
    ticking default (.ofInt 5) (by decide)
  rw [show (mixedPlan.withTimeout (.int 5)).withTimeout .null = mixedPlan.withTimeout .null from
    rfl, hplan] at h
  have hreading : ∀ n < 6, (ticking n).toRat? = some (n : ℚ) := by decide +kernel
  have hsum : Binary64.Representable (0 + 5) :=
    ⟨false, 5, 0, by decide, by decide, by decide, by decide +kernel⟩
  have hearly : ∀ n < 6, (ticking.Early (.ofInt 5) n ↔ n < 5) := by
    intro n hn
    rw [hexact n n 0 5 (hreading n hn) (by decide +kernel) (by decide +kernel) hsum, zero_add]
    exact_mod_cast Iff.rfl
  obtain ⟨report, hwalk, hcut⟩ := h.2.1 4 _ comesTo_mixed
    (fun j hj => (hearly (j + 1) (by omega)).2 (by omega))
    ((hearly 5 (by omega)).not.2 (by omega))
  exact ⟨report, hwalk, hcut.files, hcut.errors, hcut.timedOut⟩

end Walk

end SourceScan
