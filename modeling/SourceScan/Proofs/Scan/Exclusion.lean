import Mathlib.Logic.Function.Basic
import SourceScan.Proofs.Scan.Scanner

/-!
# Scanners that share a session

Scanners may share one session, and others may hold it for blocks of their own.  The steps of
their calls come in any order, and any step may fail, also in ways that are not those of a scan.
At most one call is past the guard of the session, and the calls that come meanwhile are sent
away before they have done anything.
-/

namespace SourceScan

/-- What a call comes to.  There is a report if a scanner was called, and `ε` is for exceptions
that are no errors of a scan. -/
abbrev Outcome (ε : Type) := Except (ScanError ⊕ ε) (Option Report)

/-- How far a caller has got.  A call within a call is one of another caller. -/
inductive Caller (ε : Type) where
  /-- It makes no call, and this is what the last one came to. -/
  | outside (last : Option (Outcome ε))
  /-- It runs a block of its own. -/
  | holding
  | entered (k : Nat)
  | planned (k : Nat) (plan : Plan)
  | walked (k : Nat) (plan : Plan) (report : Report)
  | leaving (outcome : Outcome ε)

namespace Caller

variable {ε : Type}

def inside : Caller ε → Bool
  | .outside _ => false
  | _ => true

def working : Caller ε → Bool
  | .outside _ | .leaving _ => false
  | _ => true

def refused : Caller ε := .outside (some (.error (.inl .inProgress)))

theorem inside_of_working {c : Caller ε} (h : c.working = true) : c.inside = true := by
  cases c with
  | outside last => cases h
  | _ => rfl

end Caller

def Plan.deliver (plan : Plan) (report : Report) (d : Disk) : Disk × Except ScanError Unit :=
  match plan.outputTarget with
  | none => (d, .ok ())
  | some target => report.write target d

structure SharedSession (τ ε : Type) where
  session : Session τ
  disk : Disk
  /-- The scanners.  It is the shared session that counts, not their own. -/
  scanners : Nat → Scanner τ
  callers : Nat → Caller ε
  /-- The reports that were written without an exception, the latest first, each with the scanner
  that wrote it. -/
  written : List (Nat × Report)

inductive Turn (τ ε : Type) where
  /-- A call of a scanner begins, or that of a block. -/
  | attempt (i : Nat) (k : Option Nat)
  | plan (i : Nat)
  | walk (i : Nat) (m : Moment)
  | write (i : Nat)
  | finish (i : Nat)
  /-- The step that the caller is at raises an exception. -/
  | raise (i : Nat) (cause : ScanError ⊕ ε)
  /-- The caller gets out of what is guarded. -/
  | leave (i : Nat)
  /-- Files change, and a timer is put into the slot or taken out of it. -/
  | around (disk : Disk) (timer : Option τ)

def Turn.caller? {τ ε : Type} : Turn τ ε → Option Nat
  | .attempt i _ | .plan i | .walk i _ | .write i | .finish i | .raise i _ | .leave i => some i
  | .around .. => none

namespace SharedSession

variable {τ ε : Type}

def make (session : Session τ) (disk : Disk) (scanners : Nat → Scanner τ) :
    SharedSession τ ε :=
  ⟨session, disk, scanners, fun _ => .outside none, []⟩

def move (l : SharedSession τ ε) (i : Nat) (c : Caller ε) : SharedSession τ ε :=
  { l with callers := Function.update l.callers i c }

def enter (l : SharedSession τ ε) (i : Nat) (c : Caller ε) : SharedSession τ ε :=
  { l.move i c with session := l.session.tryBegin.2 }

def depart (l : SharedSession τ ε) (i : Nat) (outcome : Outcome ε) : SharedSession τ ε :=
  { l.move i (.outside (some outcome)) with session := l.session.finish }

def note (l : SharedSession τ ε) (i k : Nat) (report : Report) : SharedSession τ ε :=
  { l.move i (.leaving (.ok (some report))) with
    scanners := Function.update l.scanners k { l.scanners k with lastReport := some report }
    written := (k, report) :: l.written }

def step (l : SharedSession τ ε) : Turn τ ε → Option (SharedSession τ ε)
  | .attempt i k =>
      match l.callers i with
      | .outside _ =>
          if l.session.tryBegin.1 then some (l.enter i (k.elim .holding .entered))
          else some (l.move i .refused)
      | _ => none
  | .plan i =>
      match l.callers i with
      | .entered k =>
          match (l.scanners k).plan l.disk with
          | .error e => some (l.move i (.leaving (.error (.inl e))))
          | .ok plan => some (l.move i (.planned k plan))
      | _ => none
  | .walk i m =>
      match l.callers i with
      | .planned k plan =>
          match (l.scanners k).walker.walk l.disk plan m.clock m.now with
          | .error e => some (l.move i (.leaving (.error (.inl e))))
          | .ok report => some (l.move i (.walked k plan report))
      | _ => none
  | .write i =>
      match l.callers i with
      | .walked k plan report =>
          match plan.deliver report l.disk with
          | (disk, .error e) => some { l.move i (.leaving (.error (.inl e))) with disk }
          | (disk, .ok ()) => some ({ l with disk }.note i k report)
      | _ => none
  | .finish i =>
      match l.callers i with
      | .holding => some (l.move i (.leaving (.ok none)))
      | _ => none
  | .raise i cause =>
      if (l.callers i).working then some (l.move i (.leaving (.error cause))) else none
  | .leave i =>
      match l.callers i with
      | .leaving outcome => some (l.depart i outcome)
      | _ => none
  | .around disk timer => some { l with disk, session := { l.session with timer } }

def run (l : SharedSession τ ε) (es : List (Turn τ ε)) : Option (SharedSession τ ε) :=
  es.foldlM step l

variable {l l' : SharedSession τ ε} {e : Turn τ ε} {es : List (Turn τ ε)} {i j k : Nat}
  {c : Caller ε}

@[simp] theorem callers_move_self (l : SharedSession τ ε) (i : Nat) (c : Caller ε) :
    (l.move i c).callers i = c :=
  Function.update_self ..

theorem callers_move_of_ne (hne : j ≠ i) : (l.move i c).callers j = l.callers j :=
  Function.update_of_ne hne ..

@[simp] theorem callers_enter (l : SharedSession τ ε) (i : Nat) (c : Caller ε) :
    (l.enter i c).callers = (l.move i c).callers :=
  rfl

theorem inside_move_iff : ((l.move i c).callers j).inside = true ↔
    if j = i then c.inside = true else (l.callers j).inside = true := by
  split
  · next heq =>
      subst heq
      rw [callers_move_self]
  · next hne => rw [callers_move_of_ne hne]

/-! ## One step -/

inductive Shift (l : SharedSession τ ε) : Turn τ ε → SharedSession τ ε → Prop where
  | refused {i : Nat} {k : Option Nat} (hout : (l.callers i).inside = false)
      (hbusy : l.session.scanning = true) : Shift l (.attempt i k) (l.move i .refused)
  | entered {i : Nat} {k : Option Nat} {c : Caller ε} (hfree : l.session.scanning = false)
      (hc : c.inside = true) : Shift l (.attempt i k) (l.enter i c)
  /-- A caller that is inside goes on, or fails. -/
  | within {i : Nat} {e : Turn τ ε} {c : Caller ε} (hi : (l.callers i).inside = true)
      (hc : c.inside = true) (disk : Disk) : Shift l e { l.move i c with disk }
  | noted {i k : Nat} {plan : Plan} {report : Report} {disk : Disk}
      (hi : l.callers i = .walked k plan report)
      (hwrite : plan.deliver report l.disk = (disk, .ok ())) :
      Shift l (.write i) ({ l with disk }.note i k report)
  | left {i : Nat} {outcome : Outcome ε} (hi : l.callers i = .leaving outcome) :
      Shift l (.leave i) (l.depart i outcome)
  | around {disk : Disk} {timer : Option τ} :
      Shift l (.around disk timer) { l with disk, session := { l.session with timer } }

theorem shift_of_step (h : l.step e = some l') : l.Shift e l' := by
  cases e with
  | attempt i k =>
      simp only [step, Session.tryBegin] at h
      split at h
      · next last hi =>
          cases hscanning : l.session.scanning with
          | true =>
              simp only [hscanning] at h
              cases h
              exact .refused (by rw [hi]; rfl) hscanning
          | false =>
              simp only [hscanning] at h
              cases h
              exact .entered hscanning (by cases k <;> rfl)
      · cases h
  | plan i =>
      simp only [step] at h
      split at h
      · next k hi =>
          split at h <;> cases h <;> exact .within (by rw [hi]; rfl) rfl l.disk
      · cases h
  | walk i m =>
      simp only [step] at h
      split at h
      · next k plan hi =>
          split at h <;> cases h <;> exact .within (by rw [hi]; rfl) rfl l.disk
      · cases h
  | write i =>
      simp only [step] at h
      split at h
      · next k plan report hi =>
          split at h
          · next disk e hwrite =>
              cases h
              exact .within (by rw [hi]; rfl) rfl disk
          · next disk hwrite =>
              cases h
              exact .noted hi hwrite
      · cases h
  | finish i =>
      simp only [step] at h
      split at h
      · next hi =>
          cases h
          exact .within (by rw [hi]; rfl) rfl l.disk
      · cases h
  | raise i cause =>
      simp only [step] at h
      split at h
      · next hi =>
          cases h
          exact .within (Caller.inside_of_working hi) rfl l.disk
      · cases h
  | leave i =>
      simp only [step] at h
      split at h
      · next outcome hi =>
          cases h
          exact .left hi
      · cases h
  | around disk timer =>
      cases h
      exact .around

/-! ## Any number of steps -/

/-- The session has an owner exactly while it says so, and the last report of each scanner is the
one that it wrote last. -/
structure Guarded (first : Nat → Option Report) (l : SharedSession τ ε) : Prop where
  owned : ∃ owner : Option Nat, l.session.scanning = owner.isSome ∧
    ∀ i, (l.callers i).inside = true ↔ owner = some i
  last : ∀ k, (l.scanners k).lastReport =
    ((l.written.find? (·.1 = k)).map (·.2)).or (first k)

namespace Guarded

variable {first : Nat → Option Report}

theorem owned_within (h : l.Guarded first) (hi : (l.callers i).inside = true)
    (hc : c.inside = true) : ∃ owner : Option Nat, l.session.scanning = owner.isSome ∧
      ∀ j, ((l.move i c).callers j).inside = true ↔ owner = some j := by
  obtain ⟨owner, hscanning, howner⟩ := h.owned
  refine ⟨owner, hscanning, fun j => ?_⟩
  rw [inside_move_iff, ← howner j]
  split
  · next heq =>
      subst heq
      exact iff_of_true hc hi
  · rfl

theorem last_note (h : l.Guarded first) (i k : Nat) (report : Report) (j : Nat) :
    ((l.note i k report).scanners j).lastReport =
      (((l.note i k report).written.find? (·.1 = j)).map (·.2)).or (first j) := by
  simp only [note]
  by_cases hj : j = k
  · subst hj
    simp
  · rw [Function.update_of_ne hj, h.last j, List.find?_cons_of_neg]
    simpa using Ne.symm hj

theorem shift (h : l.Guarded first) (hshift : l.Shift e l') : l'.Guarded first := by
  cases hshift with
  | @refused i k hout hbusy =>
      obtain ⟨owner, hscanning, howner⟩ := h.owned
      refine ⟨⟨owner, hscanning, fun j => ?_⟩, h.last⟩
      rw [inside_move_iff, ← howner j]
      split
      · next heq =>
          subst heq
          exact iff_of_false Bool.false_ne_true (by simp [hout])
      · rfl
  | @entered i k c hfree hc =>
      obtain ⟨owner, hscanning, howner⟩ := h.owned
      -- Nobody was inside before.
      obtain rfl : owner = none := by simpa [hfree] using hscanning.symm
      refine ⟨⟨some i, rfl, fun j => inside_move_iff.trans ?_⟩, h.last⟩
      rw [howner j]
      split
      · next heq => simp [heq, hc]
      · next hne => simp [Ne.symm hne]
  | within hi hc disk => exact ⟨h.owned_within hi hc, h.last⟩
  | @noted i k plan report disk hi hwrite =>
      exact ⟨h.owned_within (by rw [hi]; rfl) rfl, h.last_note i k report⟩
  | @left i outcome hi =>
      obtain ⟨owner, hscanning, howner⟩ := h.owned
      obtain rfl : owner = some i := (howner i).1 (by rw [hi]; rfl)
      refine ⟨⟨none, rfl, fun j => inside_move_iff.trans ?_⟩, h.last⟩
      rw [howner j]
      split
      · simp [Caller.inside]
      · next hne => simp [Ne.symm hne]
  | around => exact ⟨h.owned, h.last⟩

theorem run (h : l.Guarded first) (hrun : l.run es = some l') : l'.Guarded first :=
  keeps_of_foldlM_some (fun _ h hstep => h.shift (shift_of_step hstep)) h hrun

theorem alone (h : l.Guarded first) (hi : (l.callers i).inside = true)
    (hj : (l.callers j).inside = true) : i = j := by
  obtain ⟨owner, -, howner⟩ := h.owned
  exact Option.some.inj (((howner i).1 hi).symm.trans ((howner j).1 hj))

theorem scanning_iff (h : l.Guarded first) :
    l.session.scanning = true ↔ ∃ i, (l.callers i).inside = true := by
  obtain ⟨owner, hscanning, howner⟩ := h.owned
  rw [hscanning, Option.isSome_iff_exists]
  exact exists_congr fun i => (howner i).symm

end Guarded

theorem guarded_make {session : Session τ} (hidle : session.scanning = false) (disk : Disk)
    (scanners : Nat → Scanner τ) :
    (make session disk scanners : SharedSession τ ε).Guarded fun k =>
      (scanners k).lastReport :=
  ⟨⟨none, hidle, fun _ => by simp [make, Caller.inside]⟩, fun _ => by simp [make]⟩

theorem step_attempt_of_scanning (hbusy : l.session.scanning = true)
    (hout : (l.callers i).inside = false) (k : Option Nat) :
    l.step (.attempt i k) = some (l.move i .refused) := by
  cases hi : l.callers i with
  | outside last => simp [step, hi, Session.tryBegin, hbusy]
  | _ => simp [hi, Caller.inside] at hout

theorem step_attempt_of_free (hfree : l.session.scanning = false)
    (hout : (l.callers i).inside = false) (k : Option Nat) :
    l.step (.attempt i k) = some (l.enter i (k.elim .holding .entered)) := by
  cases hi : l.callers i with
  | outside last => simp [step, hi, Session.tryBegin, hfree]
  | _ => simp [hi, Caller.inside] at hout

theorem inside_move_of (hi : (l.callers i).inside = true) (hc : i = j → c.inside = true) :
    ((l.move j c).callers i).inside = true := by
  rw [inside_move_iff]
  split
  · next heq => exact hc heq
  · exact hi

/-- A caller that is inside stays there until it leaves, and then the session is free. -/
theorem eq_leave_of_step (hi : (l.callers i).inside = true) (hstep : l.step e = some l')
    (hout : (l'.callers i).inside = false) :
    e = .leave i ∧ l'.session.scanning = false := by
  have hnot : (l'.callers i).inside ≠ true := by simp [hout]
  cases shift_of_step hstep with
  | @refused j k hfree hbusy =>
      refine absurd (inside_move_of hi ?_) hnot
      rintro rfl
      exact absurd (hi.symm.trans hfree) (by decide)
  | entered hfree hc => exact absurd (inside_move_of hi fun _ => hc) hnot
  | within hj hc disk => exact absurd (inside_move_of hi fun _ => hc) hnot
  | noted hj hwrite => exact absurd (inside_move_of hi fun _ => rfl) hnot
  | @left j outcome hj =>
      by_cases hij : i = j
      · subst hij
        exact ⟨rfl, rfl⟩
      · exact absurd (inside_move_of hi fun heq => absurd heq hij) hnot
  | around => exact absurd hi hnot

theorem step_raise (hi : (l.callers i).working = true) (cause : ScanError ⊕ ε) :
    l.step (.raise i cause) = some (l.move i (.leaving (.error cause))) := by
  simp [step, hi]

theorem step_leave {outcome : Outcome ε} (hi : l.callers i = .leaving outcome) :
    l.step (.leave i) = some (l.depart i outcome) := by
  simp [step, hi]

theorem exists_step_leave {outcome : Outcome ε} (hi : l.callers i = .leaving outcome) :
    ∃ l', l.step (.leave i) = some l' ∧ l'.callers i = .outside (some outcome) ∧
      l'.session.scanning = false ∧ l'.scanners = l.scanners :=
  ⟨l.depart i outcome, step_leave hi, callers_move_self l i _, rfl, rfl⟩

/-- A report becomes the last one when it has been written, and at no other step. -/
theorem written_of_step (hstep : l.step e = some l') :
    (l'.scanners = l.scanners ∧ l'.written = l.written) ∨
      ∃ i k plan report, e = .write i ∧ l.callers i = .walked k plan report ∧
        (plan.deliver report l.disk).2 = .ok () ∧ l'.written = (k, report) :: l.written := by
  cases shift_of_step hstep with
  | @noted i k plan report disk hi hwrite =>
      exact .inr ⟨i, k, plan, report, rfl, hi, by rw [hwrite], rfl⟩
  | _ => exact .inl ⟨rfl, rfl⟩

/-- An exception at any step leads out of the guard, with the session free. -/
theorem exists_run_raise (hi : (l.callers i).working = true) (cause : ScanError ⊕ ε) :
    ∃ l', l.run [.raise i cause, .leave i] = some l' ∧
      l'.callers i = .outside (some (.error cause)) ∧ l'.session.scanning = false ∧
      l'.scanners = l.scanners := by
  obtain ⟨l', hleave, hafter⟩ := exists_step_leave (callers_move_self l i (.leaving (.error cause)))
  exact ⟨l', by simp [run, step_raise hi, hleave], hafter⟩

/-! ## A call that nothing comes between -/

def scanner (l : SharedSession τ ε) (k : Nat) : Scanner τ :=
  { l.scanners k with session := l.session }

def ofRun (outcome : Except ScanError Report) : Outcome ε :=
  (outcome.map some).mapError .inl

structure Scanned (l : SharedSession τ ε) (i k : Nat) (r : Disk × Except ScanError Report)
    (l' : SharedSession τ ε) : Prop where
  callers : l'.callers = Function.update l.callers i (.leaving (ofRun r.2))
  session : l'.session = l.session
  disk : l'.disk = r.1
  last : l'.scanners = Function.update l.scanners k
    { l.scanners k with lastReport := r.2.toOption.or (l.scanners k).lastReport }

theorem scanned_error (l : SharedSession τ ε) (i k : Nat) (disk : Disk) (e : ScanError) :
    l.Scanned i k (disk, .error e) { l.move i (.leaving (.error (.inl e))) with disk } :=
  ⟨rfl, rfl, rfl, (Function.update_eq_self ..).symm⟩

theorem scanned_ok (l : SharedSession τ ε) (i k : Nat) (disk : Disk) (report : Report) :
    l.Scanned i k (disk, .ok report) ({ l with disk }.note i k report) :=
  ⟨rfl, rfl, rfl, rfl⟩

theorem Scanned.of_move {r : Disk × Except ScanError Report} (h : (l.move i c).Scanned i k r l') :
    l.Scanned i k r l' :=
  ⟨h.callers.trans (Function.update_idem ..), h.session, h.disk, h.last⟩

theorem run_append (l : SharedSession τ ε) (es more : List (Turn τ ε)) :
    l.run (es ++ more) = (l.run es).bind (run · more) :=
  List.foldlM_append

theorem exists_step_write {plan : Plan} {report : Report}
    (hi : l.callers i = .walked k plan report) :
    ∃ l', l.step (.write i) = some l' ∧ l.Scanned i k
      ((plan.deliver report l.disk).1, (plan.deliver report l.disk).2.map fun _ => report) l' := by
  simp only [step, hi]
  rcases plan.deliver report l.disk with ⟨disk, e | u⟩
  · exact ⟨_, rfl, l.scanned_error i k disk e⟩
  · exact ⟨_, rfl, l.scanned_ok i k disk report⟩

/-- Nothing comes between the steps of a caller that has entered. -/
theorem exists_scanned (m : Moment) (hi : l.callers i = .entered k) :
    ∃ es l', (∀ e ∈ es, e.caller? = some i) ∧ l.run es = some l' ∧
      l.Scanned i k ((l.scanner k).scanOnce m l.disk) l' := by
  cases hplan : (l.scanner k).plan l.disk with
  | error e =>
      refine ⟨[.plan i], l.move i (.leaving (.error (.inl e))), by simp [Turn.caller?], ?_, ?_⟩
      · have hplan' : (l.scanners k).plan l.disk = .error e := hplan
        simp [run, step, hi, hplan']
      · simp only [Scanner.scanOnce, hplan, bind, Except.bind]
        exact l.scanned_error i k l.disk e
  | ok plan =>
  have hplan' : (l.scanners k).plan l.disk = .ok plan := hplan
  cases hwalk : (l.scanner k).walker.walk l.disk plan m.clock m.now with
  | error e =>
      refine ⟨[.plan i, .walk i m], l.move i (.leaving (.error (.inl e))),
        by simp [Turn.caller?], ?_, ?_⟩
      · have hwalk' : (l.scanners k).walker.walk l.disk plan m.clock m.now = .error e := hwalk
        simp [run, step, hi, hplan', move, hwalk']
      · simp only [Scanner.scanOnce, hplan, hwalk, bind, Except.bind]
        exact l.scanned_error i k l.disk e
  | ok report =>
  have hwalk' : (l.scanners k).walker.walk l.disk plan m.clock m.now = .ok report := hwalk
  have hrun : l.run [.plan i, .walk i m] = some (l.move i (.walked k plan report)) := by
    simp [run, step, hi, hplan', move, hwalk']
  obtain ⟨l', hwrite, hscanned⟩ :=
    exists_step_write (callers_move_self l i (.walked k plan report))
  refine ⟨[.plan i, .walk i m] ++ [.write i], l', by simp [Turn.caller?], ?_, ?_⟩
  · rw [run_append, hrun, Option.bind_some]
    simp [run, hwrite]
  · simp only [Scanner.scanOnce, hplan, hwalk, bind, Except.bind, pure, Except.pure]
    unfold Plan.deliver at hscanned
    cases htarget : plan.outputTarget with
    | none =>
        rw [htarget] at hscanned
        exact hscanned.of_move
    | some target =>
        rw [htarget] at hscanned
        exact hscanned.of_move

structure Called (l : SharedSession τ ε) (i k : Nat)
    (r : Scanner τ × Disk × Except ScanError Report) (l' : SharedSession τ ε) : Prop where
  callers : l'.callers = Function.update l.callers i (.outside (some (ofRun r.2.2)))
  session : l'.session = r.1.session
  disk : l'.disk = r.2.1
  last : l'.scanners = Function.update l.scanners k
    { l.scanners k with lastReport := r.1.lastReport }

theorem exists_called (l : SharedSession τ ε) (i k : Nat) (m : Moment)
    (hout : (l.callers i).inside = false) :
    ∃ es l', (∀ e ∈ es, e.caller? = some i) ∧ l.run es = some l' ∧
      l.Called i k ((l.scanner k).run m l.disk) l' := by
  cases hscanning : l.session.scanning with
  | true =>
      refine ⟨[.attempt i (some k)], l.move i .refused, by simp [Turn.caller?], ?_, ?_⟩
      · simp [run, step_attempt_of_scanning hscanning hout]
      · rw [Scanner.run_of_scanning hscanning]
        exact ⟨rfl, rfl, rfl, (Function.update_eq_self ..).symm⟩
  | false =>
      have hattempt : l.step (.attempt i (some k)) = some (l.enter i (.entered k)) :=
        step_attempt_of_free hscanning hout (some k)
      obtain ⟨es, l₁, hes, hrun, hscanned⟩ :=
        exists_scanned m (show (l.enter i (.entered k)).callers i = _ from callers_move_self l i _)
      have hleave : l₁.callers i = .leaving (ofRun ((l.scanner k).scanOnce m l.disk).2) := by
        rw [hscanned.callers, Function.update_self]
        rfl
      refine ⟨.attempt i (some k) :: (es ++ [.leave i]),
        l₁.depart i (ofRun ((l.scanner k).scanOnce m l.disk).2), ?_, ?_, ?_⟩
      · simpa [Turn.caller?, or_imp, forall_and] using hes
      · rw [run, List.foldlM_cons, hattempt]
        refine (run_append ..).trans ?_
        rw [hrun, Option.bind_some]
        simp [run, step_leave hleave]
      · rw [Scanner.run_of_idle hscanning]
        refine ⟨?_, ?_, hscanned.disk, hscanned.last⟩
        · simp only [depart, move, hscanned.callers, enter, Function.update_idem]
        · simp only [depart, hscanned.session]
          rfl

/-! ## Runs of a shared session -/

/-- However the steps of those who share a session come: at most one of them is past the guard,
and the session is in use exactly while one is.  Who comes meanwhile is refused, and nothing else
happens.  Who is inside gets out by leaving only, which frees the session, and a call can always
leave once it has ended or raised an exception.  The last report of a scanner is the one that was
written last without an exception. -/
theorem exclusive_run {session : Session τ} (hidle : session.scanning = false) (disk : Disk)
    (scanners : Nat → Scanner τ)
    (hrun : (make session disk scanners : SharedSession τ ε).run es = some l) :
    (∀ i j, (l.callers i).inside = true → (l.callers j).inside = true → i = j) ∧
      (l.session.scanning = true ↔ ∃ i, (l.callers i).inside = true) ∧
      (∀ i k, l.session.scanning = true → (l.callers i).inside = false →
        l.step (.attempt i k) =
          some (l.move i (.outside (some (.error (.inl .inProgress)))))) ∧
      (∀ i e l', (l.callers i).inside = true → l.step e = some l' →
        (l'.callers i).inside = false → e = .leave i ∧ l'.session.scanning = false) ∧
      (∀ i outcome, l.callers i = .leaving outcome →
        ∃ l', l.step (.leave i) = some l' ∧ l'.callers i = .outside (some outcome) ∧
          l'.session.scanning = false ∧ l'.scanners = l.scanners) ∧
      (∀ i cause, (l.callers i).working = true →
        ∃ l', l.run [.raise i cause, .leave i] = some l' ∧
          l'.callers i = .outside (some (.error cause)) ∧ l'.session.scanning = false ∧
          l'.scanners = l.scanners) ∧
      (∀ e l', l.step e = some l' →
        (l'.scanners = l.scanners ∧ l'.written = l.written) ∨
          ∃ i k plan report, e = .write i ∧ l.callers i = .walked k plan report ∧
            (plan.deliver report l.disk).2 = .ok () ∧
            l'.written = (k, report) :: l.written) ∧
      ∀ k, (l.scanners k).lastReport =
        ((l.written.find? (·.1 = k)).map (·.2)).or (scanners k).lastReport := by
  have h := (guarded_make hidle disk scanners).run hrun
  refine ⟨fun _ _ => h.alone, h.scanning_iff, fun _ k hbusy hout => ?_,
    fun _ _ _ => eq_leave_of_step, fun _ _ => exists_step_leave,
    fun _ cause hi => exists_run_raise hi cause, fun _ _ => written_of_step, h.last⟩
  exact step_attempt_of_scanning hbusy hout k

/-- A scanner has written a report, and while a block holds the session a second call of the
scanner is refused. -/
theorem exclusive_run_refused : ∃ es l,
    (make .idle Scanner.bareDisk fun _ => Scanner.bareScanner "o" :
      SharedSession Nat Unit).run es = some l ∧
    l.callers 2 = .refused ∧ l.session.scanning = true ∧
    (∀ i, (l.callers i).inside = true → i = 1) ∧
    (l.scanners 0).lastReport = some Scanner.bareReport := by
  obtain ⟨s', done, hscan⟩ := Scanner.run_bare .straight
  obtain ⟨es, l, -, hcall, hcalled⟩ := exists_called
    (make .idle Scanner.bareDisk fun _ => Scanner.bareScanner "o" : SharedSession Nat Unit)
    0 0 Scanner.bareMoment rfl
  change Called _ 0 0 ((Scanner.bareScanner "o").run Scanner.bareMoment Scanner.bareDisk) l
    at hcalled
  rw [hscan, Scanner.state_of_run hscan] at hcalled
  have houtside : ∀ i, i ≠ 0 → (l.callers i).inside = false := fun i hi => by
    rw [hcalled.callers, Function.update_of_ne hi]
    rfl
  have hfree : l.session.scanning = false := by
    rw [hcalled.session]
    rfl
  have hblock : l.step (.attempt 1 none) = some (l.enter 1 .holding) :=
    step_attempt_of_free hfree (houtside 1 (by decide)) none
  have hsecond : (l.enter 1 .holding).step (.attempt 2 (some 0)) =
      some ((l.enter 1 .holding).move 2 .refused) := by
    refine step_attempt_of_scanning rfl ?_ _
    rw [callers_enter, callers_move_of_ne (by decide)]
    exact houtside 2 (by decide)
  have hrun : (make .idle Scanner.bareDisk fun _ => Scanner.bareScanner "o" :
      SharedSession Nat Unit).run (es ++ [.attempt 1 none, .attempt 2 (some 0)]) =
        some ((l.enter 1 .holding).move 2 .refused) := by
    rw [run_append, hcall, Option.bind_some]
    simp [run, hblock, hsecond]
  obtain ⟨halone, -⟩ := exclusive_run rfl _ _ hrun
  have hholding : ((l.enter 1 .holding).move 2 .refused).callers 1 = .holding :=
    (callers_move_of_ne (by decide)).trans (callers_move_self l 1 .holding)
  refine ⟨_, _, hrun, callers_move_self _ 2 .refused, rfl,
    fun i hi => halone i 1 hi (by rw [hholding]; rfl), ?_⟩
  change (l.scanners 0).lastReport = _
  rw [hcalled.last, Function.update_self]

end SharedSession

end SourceScan
