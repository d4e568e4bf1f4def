import SourceScan.Proofs.Scan.Crash
import SourceScan.Proofs.Walk.Clock

/-!
# Walks that break off

A plan may hold bounds that are no numbers and a target whose links lead in a circle.
`Blocked` lists what keeps such a plan from its walk, and `Stumbles` says when a walk comes
to a bound that it cannot use.  Nothing else breaks a walk off but a root that cannot be
listed.
-/

namespace SourceScan

open FileTree Disk

/-! ## Bounds that are no numbers -/

namespace Value

variable {v : Value} {n : Nat} {symbol : Text} {other : Kind → Misuse}

def NotNumber (v : Value) : Prop := v.int? = none ∧ ∀ x, v ≠ .float x

inductive NoSpan (v : Value) : Prop
  | shape (shape : v.NotNumber)
  | large {i : Int} {negative : Bool} (whole : v.int? = some i)
      (large : Binary64.ofInt i = .infinite negative)

theorem exists_error_orderOf : (∃ e, orderOf symbol n v = .error e) ↔ v.NotNumber := by
  cases v <;> simp [orderOf, NotNumber, int?]

theorem exists_error_isExceededBy : (∃ e, v.isExceededBy n = .error e) ↔ v.NotNumber := by
  rw [← @exists_error_orderOf v n ['>']]
  unfold isExceededBy
  cases orderOf ['>'] n v <;> simp [bind, Except.bind, pure, Except.pure]

theorem exists_error_isReachedBy : (∃ e, v.isReachedBy n = .error e) ↔ v.NotNumber := by
  rw [← @exists_error_orderOf v n ['>', '=']]
  unfold isReachedBy
  cases orderOf ['>', '='] n v <;> simp [bind, Except.bind, pure, Except.pure]

theorem exists_error_roundInt {i : Int} : (∃ e, roundInt i = .error e) ↔
    ∃ negative, Binary64.ofInt i = .infinite negative := by
  unfold roundInt
  cases Binary64.ofInt i <;> simp

theorem exists_error_number : (∃ e, v.number other = .error e) ↔ v.NoSpan := by
  have hspan : v.NoSpan ↔ v.NotNumber ∨ ∃ i, v.int? = some i ∧ ∃ e, roundInt i = .error e := by
    simp only [exists_error_roundInt]
    constructor
    · rintro (hshape | ⟨hwhole, hlarge⟩)
      · exact .inl hshape
      · exact .inr ⟨_, hwhole, _, hlarge⟩
    · rintro (hshape | ⟨i, hwhole, negative, hlarge⟩)
      · exact .shape hshape
      · exact .large hwhole hlarge
  rw [hspan]
  cases v <;> simp [number, NotNumber, int?]

end Value

namespace ProjectKind

variable {d : Disk} {root : Path} {markers : List Text}

theorem exists_error_anyFile : (∃ e, anyFile d root markers = .error e) ↔
    ∃ before marker after, markers = before ++ marker :: after ∧
      (∀ other ∈ before, d.isFile (root.child (RawText.ofText other)) = .ok false) ∧
      d.TooLong (root.child (RawText.ofText marker)) := by
  induction markers with
  | nil => simp [anyFile, pure, Except.pure]
  | cons marker markers ih =>
      rw [anyFile]
      constructor
      · rintro ⟨e, h⟩
        cases hfile : d.isFile (root.child (RawText.ofText marker)) with
        | error e' =>
            exact ⟨[], marker, markers, rfl, List.forall_mem_nil _,
              exists_error_isFile.1 ⟨e', hfile⟩⟩
        | ok found =>
            rw [hfile] at h
            cases found with
            | true => cases h
            | false =>
                obtain ⟨before, other, after, rfl, hbefore, hlong⟩ := ih.1 ⟨e, h⟩
                exact ⟨marker :: before, other, after, rfl,
                  List.forall_mem_cons.2 ⟨hfile, hbefore⟩, hlong⟩
      · rintro ⟨before, other, after, heq, hbefore, hlong⟩
        cases before with
        | nil =>
            cases heq
            obtain ⟨e, he⟩ := exists_error_isFile.2 hlong
            exact ⟨e, by rw [he]; rfl⟩
        | cons first before =>
            cases heq
            obtain ⟨hfirst, hbefore⟩ := List.forall_mem_cons.1 hbefore
            rw [hfirst]
            exact ih.2 ⟨before, other, after, rfl, hbefore, hlong⟩

theorem exists_error_rulesAt : (∃ e, rulesAt d root = .error e) ↔
    ∃ kind ∈ all, ∃ e, anyFile d root kind.markers = .error e := by
  rw [← exists_filterM_error]
  change _ ↔ ∃ e, detect d root = .error e
  unfold rulesAt
  cases detect d root <;> simp [bind, Except.bind, pure, Except.pure]

end ProjectKind

namespace Walk

variable {walker : Walker} {d : Disk} {plan : Plan} {clock : Clock} {root : Path}
  {w : Walk} {s t : Progress} {xs : List Sight} {target : Option Path} {timeout : Value}

/-! ## Plans without a walk -/

theorem crashes_outputRule : Crashes (outputRule d root target) ↔
    ∃ p circle, target = some p ∧ d.resolve p = .error (.circle circle) := by
  unfold outputRule
  cases target with
  | none => simp [Crashes, pure, Except.pure]
  | some p =>
      dsimp only
      rcases hreal : d.resolve p with (cause | cause) | real <;>
        simp [hreal, Crashes, pure, Except.pure, throw, throwThe, MonadExceptOf.throw,
          ScanError.isExpected]

theorem abrupt_outputRule : Abrupt (outputRule d root target) := by
  intro e he
  unfold outputRule at he
  cases target with
  | none => cases he
  | some p =>
      dsimp only at he
      rcases hreal : d.resolve p with (cause | cause) | real <;> rw [hreal] at he <;> cases he
      rfl

theorem exists_error_deadlineOf : (∃ e, deadlineOf clock timeout = .error e) ↔
    timeout ≠ .null ∧ timeout.NoSpan := by
  unfold deadlineOf
  split
  · simp [pure, Except.pure]
  · next hgiven =>
      rw [← @Value.exists_error_number timeout Misuse.notAddable, and_iff_right hgiven]
      cases timeout.number .notAddable <;> simp [bind, Except.bind, pure, Except.pure]

/-- What keeps a plan from its walk although the root is a directory. -/
inductive Blocked (d : Disk) (root : Path) (plan : Plan) : Prop
  | marker {kind : ProjectKind} {before after : List Text} {marker : Text}
      (known : kind ∈ ProjectKind.all) (named : kind.markers = before ++ marker :: after)
      (missing : ∀ other ∈ before, d.isFile (root.child (RawText.ofText other)) = .ok false)
      (long : d.TooLong (root.child (RawText.ofText marker)))
  | target {target : Path} {circle : LinkCircle} (given : plan.outputTarget = some target)
      (round : d.resolve target = .error (.circle circle))
  | timeout (given : plan.scanTimeout ≠ .null) (shape : plan.scanTimeout.NoSpan)

theorem blocked_iff : Blocked d root plan ↔
    (∃ e, ProjectKind.rulesAt d root = .error e) ∨ Crashes (outputRule d root plan.outputTarget) ∨
      ∃ e, deadlineOf clock plan.scanTimeout = .error e := by
  simp only [ProjectKind.exists_error_rulesAt, ProjectKind.exists_error_anyFile,
    crashes_outputRule, exists_error_deadlineOf]
  constructor
  · rintro (⟨hknown, hnamed, hmissing, hlong⟩ | ⟨hgiven, hround⟩ | ⟨hgiven, hshape⟩)
    · exact .inl ⟨_, hknown, _, _, _, hnamed, hmissing, hlong⟩
    · exact .inr (.inl ⟨_, _, hgiven, hround⟩)
    · exact .inr (.inr ⟨hgiven, hshape⟩)
  · rintro (⟨kind, hknown, before, marker, after, hnamed, hmissing, hlong⟩ |
      ⟨p, circle, hgiven, hround⟩ | ⟨hgiven, hshape⟩)
    · exact .marker hknown hnamed hmissing hlong
    · exact .target hgiven hround
    · exact .timeout hgiven hshape

theorem crashes_ofPlan : Crashes (ofPlan walker d plan clock) ↔
    Plan.Unrooted d plan.root ∨
      ∃ root, Plan.rootOf d plan.root = .ok root ∧ Blocked d root plan := by
  unfold ofPlan
  rw [crashes_bind, Plan.crashes_rootOf]
  refine or_congr_right (exists_congr fun root => and_congr_right fun _ => ?_)
  rw [@blocked_iff d plan clock root, ← crashes_mapError (f := ScanError.disk) fun _ => rfl]
  refine (Abrupt.mapError fun _ => rfl).crashes_bind fun project _ => ?_
  refine abrupt_outputRule.crashes_bind fun output _ => ?_
  rw [← crashes_mapError (f := ScanError.misuse) fun _ => rfl]
  exact ((Abrupt.mapError fun _ => rfl).crashes_bind fun deadline _ =>
    iff_false_intro (not_crashes_ok _)).trans (or_iff_left id)

theorem orderly_ofPlan : Orderly (ofPlan walker d plan clock) := by
  unfold ofPlan
  refine Plan.orderly_rootOf.bind fun root _ => Abrupt.orderly ?_
  exact .bind (.mapError fun _ => rfl) fun project => .bind abrupt_outputRule fun output =>
    .bind (.mapError fun _ => rfl) fun deadline => .ok _

/-! ## Walks that come to a bound of the wrong kind -/

inductive Trips (w : Walk) (size : Nat) : Prop
  | size (shape : w.plan.maxFileSize.NotNumber)
  | files (fits : w.plan.maxFileSize.isExceededBy size = .ok false)
      (shape : w.plan.maxFiles.NotNumber)

/-- Before the time is over the walk comes to a file for which the bounds are of no use.  The
number counts the readings of the clock. -/
inductive Stumbles (w : Walk) : Nat → List Sight → Prop
  | here {n : Nat} {names : List FileName} {size : Nat} {xs : List Sight}
      (trips : w.Trips size) : Stumbles w n (.file names size :: xs)
  | past {n : Nat} {x : Sight} {xs : List Sight} (still : x.isTurn = false)
      (rest : Stumbles w n xs) : Stumbles w n (x :: xs)
  | turn {n : Nat} {names : List FileName} {xs : List Sight}
      (early : ∀ deadline, w.deadline = some deadline → (w.clock n).lt deadline = true)
      (rest : Stumbles w (n + 1) xs) : Stumbles w n (.turn names :: xs)

theorem Stumbles.exists_file {n : Nat} (h : w.Stumbles n xs) :
    ∃ names size, .file names size ∈ xs ∧ w.Trips size := by
  induction h with
  | here trips => exact ⟨_, _, List.mem_cons_self, trips⟩
  | past still rest ih =>
      obtain ⟨names, size, hmem, htrips⟩ := ih
      exact ⟨names, size, List.mem_cons_of_mem _ hmem, htrips⟩
  | turn early rest ih =>
      obtain ⟨names, size, hmem, htrips⟩ := ih
      exact ⟨names, size, List.mem_cons_of_mem _ hmem, htrips⟩

/-- A file breaks the walk off, leaves it running or stops it by a bound that is a number. -/
theorem meet_file_cases (hs : s.stopped = false) (names : List FileName) (size : Nat) :
    (w.Trips size ∧ ∃ e, w.meet s (.file names size) = .error (.misuse e)) ∨
      ¬w.Trips size ∧ ∃ t, w.meet s (.file names size) = .ok t ∧ t.readings = s.readings ∧
        (t.stopped = true → ∀ other, ¬w.Trips other) := by
  rw [meet_running hs]
  dsimp only
  cases hsize : w.plan.maxFileSize.isExceededBy size with
  | error e =>
      exact .inl ⟨.size (Value.exists_error_isExceededBy.1 ⟨e, hsize⟩), e, rfl⟩
  | ok large =>
  have hbound : ¬w.plan.maxFileSize.NotNumber := by
    rw [← @Value.exists_error_isExceededBy _ size, hsize]
    rintro ⟨e, ⟨⟩⟩
  cases large with
  | true =>
      refine .inr ⟨?_, s, rfl, rfl, fun hstop => absurd (hs.symm.trans hstop) Bool.false_ne_true⟩
      rintro (hshape | ⟨hfits, -⟩)
      · exact hbound hshape
      · rw [hsize] at hfits
        cases hfits
  | false =>
  cases hfiles : w.plan.maxFiles.isReachedBy s.files.length with
  | error e =>
      exact .inl ⟨.files hsize (Value.exists_error_isReachedBy.1 ⟨e, hfiles⟩), e, rfl⟩
  | ok enough =>
  have hbudget : ¬w.plan.maxFiles.NotNumber := by
    rw [← @Value.exists_error_isReachedBy _ s.files.length, hfiles]
    rintro ⟨e, ⟨⟩⟩
  -- Both bounds are numbers by now.
  have hnone : ∀ other, ¬w.Trips other := by
    rintro other (hshape | ⟨-, hshape⟩)
    · exact hbound hshape
    · exact hbudget hshape
  cases enough with
  | true => exact .inr ⟨hnone size, s.full, rfl, rfl, fun _ => hnone⟩
  | false =>
      refine .inr ⟨hnone size, note s (w.reading names size), rfl, ?_, fun _ => hnone⟩
      cases w.reading names size <;> rfl

theorem abrupt_meet {x : Sight} (hx : ∀ names e, x ≠ .failure names e) :
    Abrupt (w.meet s x) := by
  cases hs : s.stopped with
  | true =>
      rw [w.meet_stopped hs]
      exact .ok s
  | false =>
      rw [meet_running hs]
      cases x with
      | listing dir => exact .ok s
      | turn names => exact .ok _
      | misnamed names => exact .ok _
      | failure names e => exact absurd rfl (hx names e)
      | file names size =>
          refine .bind (.mapError fun _ => rfl) fun large => ?_
          cases large with
          | true => exact .ok s
          | false =>
              refine .bind (.mapError fun _ => rfl) fun enough => ?_
              cases enough with
              | true => exact .ok _
              | false => exact .ok _

theorem abrupt_meetAll (hxs : ∀ names e, .failure names e ∉ xs) : Abrupt (w.meetAll xs s) := by
  induction xs generalizing s with
  | nil => exact .ok s
  | cons x xs ih =>
      rw [meetAll_cons]
      refine .bind (abrupt_meet fun names e hx => ?_) fun t => ?_
      · exact hxs names e (hx ▸ List.mem_cons_self)
      · exact ih fun names e hmem => hxs names e (List.mem_cons_of_mem _ hmem)

def Foreseen (w : Walk) (xs : List Sight) : Prop :=
  ∀ (s : Progress) (n : Nat), s.stopped = false → (w.deadline.isSome = true → s.readings = n) →
    (Crashes (w.meetAll xs s) ↔ w.Stumbles n xs)

theorem foreseen_nil : w.Foreseen [] := by
  intro s n _ _
  refine iff_of_false (not_crashes_ok s) ?_
  rintro ⟨⟩

theorem Foreseen.idle {x : Sight} (hrest : w.Foreseen xs) (hturn : x.isTurn = false)
    (hfile : ∀ names size, x ≠ .file names size) (hx : ∀ names e, x ≠ .failure names e) :
    w.Foreseen (x :: xs) := by
  intro s n hs hn
  have hskip : w.Stumbles n (x :: xs) ↔ w.Stumbles n xs := by
    refine ⟨fun h => ?_, .past hturn⟩
    cases h with
    | here trips => exact absurd rfl (hfile _ _)
    | past still rest => exact rest
    | turn early rest => cases hturn
  have hmeet : ∃ t, w.meet s x = .ok t ∧ t.stopped = false ∧ t.readings = s.readings := by
    rw [meet_running hs]
    cases x with
    | listing dir => exact ⟨s, rfl, hs, rfl⟩
    | misnamed names => exact ⟨_, rfl, hs, rfl⟩
    | turn names => cases hturn
    | file names size => exact absurd rfl (hfile names size)
    | failure names e => exact absurd rfl (hx names e)
  obtain ⟨t, hmeet, ht, hreadings⟩ := hmeet
  rw [meetAll_cons, hmeet, hskip]
  exact hrest t n ht fun hsome => hreadings.trans (hn hsome)

theorem Foreseen.turn (hrest : w.Foreseen xs) (names : List FileName) :
    w.Foreseen (.turn names :: xs) := by
  intro s n hs hn
  have hturn : w.Stumbles n (.turn names :: xs) ↔
      (∀ deadline, w.deadline = some deadline → (w.clock n).lt deadline = true) ∧
        w.Stumbles (n + 1) xs := by
    refine ⟨fun h => ?_, fun h => .turn h.1 h.2⟩
    cases h with
    | past still rest => cases still
    | turn early rest => exact ⟨early, rest⟩
  rw [meetAll_cons, meet_turn hs, hturn]
  change Crashes (w.meetAll xs (w.checkDeadline s)) ↔ _
  cases hdeadline : w.deadline with
  | none =>
      have hcheck : w.checkDeadline s = s := by
        unfold checkDeadline
        rw [hdeadline]
      rw [hcheck, and_iff_right (by rintro deadline ⟨⟩)]
      refine hrest s _ hs fun hsome => ?_
      rw [hdeadline] at hsome
      cases hsome
  | some deadline =>
      obtain rfl := hn (by rw [hdeadline]; rfl)
      simp only [Option.some.injEq, forall_eq']
      by_cases hearly : (w.clock s.readings).lt deadline = true
      · rw [checkDeadline_of_lt hdeadline hearly, and_iff_right hearly]
        exact hrest _ _ hs fun _ => rfl
      · rw [checkDeadline_of_not_lt hdeadline hearly, w.meetAll_stopped rfl]
        exact iff_of_false (not_crashes_ok _) fun h => hearly h.1

theorem Foreseen.file (hrest : w.Foreseen xs) (names : List FileName) (size : Nat) :
    w.Foreseen (.file names size :: xs) := by
  intro s n hs hn
  rw [meetAll_cons]
  rcases meet_file_cases hs names size with
    ⟨htrips, e, hmeet⟩ | ⟨htrips, t, hmeet, hreadings, hstop⟩
  · rw [hmeet]
    exact iff_of_true ⟨_, rfl, rfl⟩ (.here htrips)
  · have hskip : w.Stumbles n (.file names size :: xs) ↔ w.Stumbles n xs := by
      refine ⟨fun h => ?_, .past rfl⟩
      cases h with
      | here trips => exact absurd trips htrips
      | past still rest => exact rest
    rw [hmeet, hskip]
    change Crashes (w.meetAll xs t) ↔ _
    cases ht : t.stopped with
    | false => exact hrest t n ht fun hsome => hreadings.trans (hn hsome)
    | true =>
        -- A bound that stops the walk is a number, and so is the other one.
        rw [w.meetAll_stopped ht]
        refine iff_of_false (not_crashes_ok t) fun h => ?_
        obtain ⟨-, other, -, hother⟩ := h.exists_file
        exact hstop ht other hother

theorem foreseen (hxs : ∀ names e, .failure names e ∉ xs) : w.Foreseen xs := by
  induction xs with
  | nil => exact foreseen_nil
  | cons x xs ih =>
      have hrest := ih fun names e hmem => hxs names e (List.mem_cons_of_mem _ hmem)
      cases x with
      | turn names => exact hrest.turn names
      | file names size => exact hrest.file names size
      | failure names e => exact absurd List.mem_cons_self (hxs names e)
      | listing dir => exact hrest.idle rfl nofun nofun
      | misnamed names => exact hrest.idle rfl nofun nofun

section Sights

variable (hd : d.tree.wellFormed = true) (h : ofPlan walker d plan clock = .ok w)
include hd h

theorem crashes_sights : Crashes (w.meetAll w.sights w.start) ↔ w.Stumbles 1 w.sights := by
  have hw := prepared_of_ofPlan h
  cases hlist : w.disk.list (w.pathOf []) with
  | ok entries =>
      refine foreseen (no_failure hd h hlist) w.start 1 rfl fun hsome => ?_
      rw [start, hsome]
      rfl
  | error cause =>
      rw [sights_of_refused_root (hw.sameDisk ▸ hd) hw.opens_root hlist]
      refine iff_of_false ?_ fun hstumbles => ?_
      · rintro ⟨-, ⟨⟩, ⟨⟩⟩
      · obtain ⟨names, size, hmem, -⟩ := hstumbles.exists_file
        simp at hmem

theorem orderly_sights : Orderly (w.meetAll w.sights w.start) := by
  have hw := prepared_of_ofPlan h
  cases hlist : w.disk.list (w.pathOf []) with
  | ok entries => exact (abrupt_meetAll (no_failure hd h hlist)).orderly
  | error cause =>
      rw [sights_of_refused_root (hw.sameDisk ▸ hd) hw.opens_root hlist]
      rintro - ⟨⟩
      exact .inl rfl

end Sights

end Walk

end SourceScan
