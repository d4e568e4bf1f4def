import SourceScan.Proofs.Scan.Scanner
import SourceScan.Watch.Service

/-!
# Starts that fail

A start raises the flags of the service before the first scan and before the watcher is
started.  They are taken back if the watcher refuses for a reason that the service is
prepared for.  An error that escapes from the first scan, or an error of the disk that
escapes from the watcher, leaves them as they are, and from then on each start is refused
until the service is stopped.
-/

namespace SourceScan

theorem Scanner.session_run {τ : Type} {s : Scanner τ} (m : Moment) (d : Disk)
    (hidle : s.session = .idle) : (s.run m d).1.session = .idle := by
  rw [run_of_idle (by rw [hidle]; rfl)]
  simp [ended, hidle, Session.finish, Session.idle]

namespace WatchService

variable {ω : Type} {s s' : WatchService ω} {m : Moment} {d d' : Disk} {p : Path}
  {e : ServiceError}

/-! ## The first step of a start -/

def watchPath (d : Disk) (root : Path) : Except ServiceError Path := do
  let p ← (d.resolve root).mapError ServiceError.unresolved
  if !(← (d.exists? p).mapError ServiceError.disk) then throw (.pathMissing p)
  if !(← (d.isDir p).mapError ServiceError.disk) then throw (.pathNotDirectory p)
  return p

def raised (s : WatchService ω) : WatchService ω :=
  { s with attached := true, stats := .zero, running := true }

theorem beginStart_eq (s : WatchService ω) (d : Disk) : s.beginStart d =
    if s.running then .error .alreadyRunning
    else (watchPath d s.scanner.root).map fun p => (p, s.raised) := by
  unfold beginStart watchPath
  cases s.running with
  | true => rfl
  | false =>
      cases d.resolve s.scanner.root with
      | error cause => rfl
      | ok p =>
          rcases hthere : d.exists? p with cause | _ | _ <;>
            rcases hdir : d.isDir p with cause' | _ | _ <;>
            simp [hthere, hdir, Except.mapError, bind, Except.bind] <;> rfl

theorem watchPath_ne_alreadyRunning (d : Disk) (root : Path) :
    watchPath d root ≠ .error .alreadyRunning := by
  unfold watchPath
  cases d.resolve root with
  | error cause =>
      cases cause <;> simp [Except.mapError, ServiceError.unresolved, bind, Except.bind]
  | ok p =>
      rcases hthere : d.exists? p with cause | _ | _ <;>
        rcases hdir : d.isDir p with cause' | _ | _ <;>
        simp [hthere, hdir, Except.mapError, bind, Except.bind, throw, throwThe,
          MonadExceptOf.throw, pure, Except.pure]

theorem beginStart_of_running (h : s.running = true) :
    s.beginStart d = .error .alreadyRunning := by
  rw [beginStart_eq, if_pos h]

theorem beginStart_ok (h : s.beginStart d = .ok (p, s')) :
    s.running = false ∧ s' = s.raised := by
  rw [beginStart_eq] at h
  cases hrunning : s.running with
  | true => simp [hrunning] at h
  | false =>
      cases hpath : watchPath d s.scanner.root with
      | error cause => simp [hrunning, hpath, Except.map] at h
      | ok q =>
          simp only [hrunning, hpath, Except.map, Bool.false_eq_true, if_false, Except.ok.injEq,
            Prod.mk.injEq] at h
          exact ⟨rfl, h.2.symm⟩

theorem beginStart_ne_alreadyRunning (h : s.running = false) :
    s.beginStart d ≠ .error .alreadyRunning := by
  rw [beginStart_eq, h, if_neg Bool.false_ne_true]
  have hpath := watchPath_ne_alreadyRunning d s.scanner.root
  cases hwatch : watchPath d s.scanner.root with
  | error cause =>
      rw [hwatch] at hpath
      exact fun heq => hpath (congrArg Except.error (Except.error.inj heq))
  | ok q => exact fun heq => by cases heq

/-! ## The first scan -/

theorem noteScan_ok {outcome : Except ScanError Report} (h : s.noteScan outcome = .ok s') :
    ∃ f, s' = s.count f := by
  unfold noteScan at h
  split at h
  · exact ⟨_, (Except.ok.inj h).symm⟩
  · exact ⟨_, (Except.ok.inj h).symm⟩
  · split at h
    · exact ⟨_, (Except.ok.inj h).symm⟩
    · cases h

theorem noteScan_error_iff {outcome : Except ScanError Report} {cause : ScanError} :
    s.noteScan outcome = .error cause ↔ outcome = .error cause ∧ cause.isExpected = false := by
  cases outcome with
  | ok report => simp [noteScan]
  | error other =>
      cases hexpected : other.isExpected with
      | true =>
          have hnone : ∀ cause, s.noteScan (.error other) ≠ .error cause := by
            intro cause h
            unfold noteScan at h
            split at h <;> simp_all
          simp only [hnone, Except.error.injEq, false_iff, not_and]
          rintro rfl
          simp [hexpected]
      | false =>
          have hsome : s.noteScan (.error other) = .error other := by
            unfold noteScan
            split <;> simp_all [ScanError.isExpected]
          rw [hsome, Except.error.injEq]
          constructor
          · rintro rfl
            exact ⟨rfl, hexpected⟩
          · exact fun h => Except.error.inj h.1

/-- What a start has made of a service by the time its first scan is over. -/
structure Begun (s t : WatchService ω) : Prop where
  watcher : t.watcher = s.watcher
  debouncer : t.debouncer = s.debouncer
  running : t.running = true
  attached : t.attached = true
  idle : s.scanner.session = .idle → t.scanner.session = .idle

theorem begun_raised (s : WatchService ω) : s.Begun s.raised := ⟨rfl, rfl, rfl, rfl, id⟩

theorem begun_triggerScan (s : WatchService ω) (m : Moment) (d : Disk) :
    s.Begun (s.raised.triggerScan m d).1 := by
  unfold triggerScan
  have hidle := Scanner.session_run (s := s.scanner) m d
  cases hnote : ({ s.raised with scanner := (s.raised.scanner.run m d).1 }).noteScan
      (s.raised.scanner.run m d).2.2 with
  | error cause =>
      simp only [hnote]
      exact ⟨rfl, rfl, rfl, rfl, hidle⟩
  | ok t =>
      simp only [hnote]
      obtain ⟨f, rfl⟩ := noteScan_ok hnote
      exact ⟨rfl, rfl, rfl, rfl, hidle⟩

theorem unexpected_of_triggerScan {cause : ScanError}
    (h : (s.triggerScan m d).2.2 = .error cause) : cause.isExpected = false := by
  unfold triggerScan at h
  dsimp only at h
  split at h
  · cases h
  · next hnote =>
      cases h
      exact (noteScan_error_iff.1 hnote).2

/-! ## Starts that fail -/

section EventSource

variable [EventSource ω]

theorem finishStart_error (h : s.finishStart d p = (s', .error e)) :
    (∃ cause b, e = .disk cause ∧ s' = { s with debouncer := some b }) ∨
      ∃ cause, e = .watcherFailed cause ∧
        s' = { s with running := false, debouncer := none, attached := false } := by
  unfold finishStart at h
  dsimp only at h
  split at h
  · cases h
  · split at h <;> cases h
    · exact .inl ⟨_, _, rfl, rfl⟩
    · exact .inr ⟨_, rfl, rfl⟩

theorem start_error (h : s.start m d = (s', d', .error e)) :
    (s.beginStart d = .error e ∧ s' = s) ∨
      ∃ p, s.beginStart d = .ok (p, s.raised) ∧
        ((∃ cause, e = .scan cause ∧ cause.isExpected = false ∧ s.Begun s') ∨
          ∃ t, s.Begun t ∧ t.finishStart d' p = (s', .error e)) := by
  unfold start at h
  cases hbegin : s.beginStart d with
  | error cause =>
      rw [hbegin] at h
      cases h
      exact .inl ⟨rfl, rfl⟩
  | ok r =>
      obtain ⟨p, t⟩ := r
      obtain ⟨-, rfl⟩ := beginStart_ok hbegin
      refine .inr ⟨p, rfl, ?_⟩
      simp only [hbegin] at h
      -- With or without a first scan the start has got equally far.
      have hscan : ∀ r : WatchService ω × Disk × Except ScanError Unit,
          r = (if s.raised.settings.scanOnStart.isTruthy then s.raised.triggerScan m d
            else (s.raised, d, .ok ())) →
          s.Begun r.1 ∧ ∀ cause, r.2.2 = .error cause → cause.isExpected = false := by
        rintro r rfl
        split
        · exact ⟨begun_triggerScan s m d, fun _ => unexpected_of_triggerScan⟩
        · exact ⟨begun_raised s, fun cause hcause => by cases hcause⟩
      generalize (if s.raised.settings.scanOnStart.isTruthy then s.raised.triggerScan m d
        else (s.raised, d, .ok ())) = r at h hscan
      obtain ⟨t, last, scanned⟩ := r
      obtain ⟨hbegun, hunexpected⟩ := hscan _ rfl
      cases scanned with
      | error cause =>
          cases h
          exact .inl ⟨cause, rfl, hunexpected cause rfl, hbegun⟩
      | ok u =>
          cases hfinish : t.finishStart last p with
          | mk done outcome =>
              simp only [hfinish, Prod.mk.injEq] at h
              obtain ⟨rfl, rfl, rfl⟩ := h
              exact .inr ⟨t, hbegun, hfinish⟩

theorem start_of_running (h : s.running = true) :
    s.start m d = (s, d, .error .alreadyRunning) := by
  unfold start
  rw [beginStart_of_running h]

theorem start_ne_alreadyRunning (h : s.running = false) :
    (s.start m d).2.2 ≠ .error .alreadyRunning := by
  intro heq
  have hstart : s.start m d = ((s.start m d).1, (s.start m d).2.1, .error .alreadyRunning) :=
    Prod.ext rfl (Prod.ext rfl heq)
  rcases start_error hstart with ⟨hbegin, -⟩ | ⟨p, -, ⟨cause, hcause, -⟩ | ⟨t, -, hfinish⟩⟩
  · exact beginStart_ne_alreadyRunning h hbegin
  · cases hcause
  · rcases finishStart_error hfinish with ⟨cause, b, hcause, -⟩ | ⟨cause, hcause, -⟩ <;>
      cases hcause

structure AtRest (s : WatchService ω) : Prop where
  stopped : s.running = false
  detached : s.attached = false
  loose : s.debouncer = none
  unwatched : EventSource.isRunning s.watcher = false
  idle : s.scanner.session = .idle

/-- The error got past a start that had raised its flags: one out of the scan that nobody is
prepared for, or one of the disk out of the watcher. -/
def Escapes (s : WatchService ω) (d : Disk) (e : ServiceError) : Prop :=
  (∃ p, s.beginStart d = .ok (p, s.raised)) ∧
    ((∃ cause, e = .scan cause ∧ cause.isExpected = false) ∨ ∃ cause, e = .disk cause)

theorem rest_or_escapes (hs : s.AtRest) (h : s.start m d = (s', d', .error e)) :
    s'.scanner.session = .idle ∧ s'.watcher = s.watcher ∧
      ((s'.AtRest ∧ ¬s.Escapes d e) ∨
        (s.Escapes d e ∧ s'.running = true ∧ s'.attached = true)) := by
  rcases start_error h with ⟨hbegin, rfl⟩ |
    ⟨p, hbegin, ⟨cause, rfl, hunexpected, hbegun⟩ | ⟨t, hbegun, hfinish⟩⟩
  · refine ⟨hs.idle, rfl, .inl ⟨hs, ?_⟩⟩
    rintro ⟨⟨p, hok⟩, -⟩
    rw [hbegin] at hok
    cases hok
  · exact ⟨hbegun.idle hs.idle, hbegun.watcher, .inr
      ⟨⟨⟨p, hbegin⟩, .inl ⟨cause, rfl, hunexpected⟩⟩, hbegun.running, hbegun.attached⟩⟩
  · have hidle := hbegun.idle hs.idle
    rcases finishStart_error hfinish with ⟨cause, b, rfl, rfl⟩ | ⟨cause, rfl, rfl⟩
    · exact ⟨hidle, hbegun.watcher, .inr
        ⟨⟨⟨p, hbegin⟩, .inr ⟨cause, rfl⟩⟩, hbegun.running, hbegun.attached⟩⟩
    · refine ⟨hidle, hbegun.watcher, .inl ⟨⟨rfl, rfl, rfl, ?_, hidle⟩, ?_⟩⟩
      · rw [show EventSource.isRunning t.watcher = EventSource.isRunning s.watcher from
          congrArg _ hbegun.watcher, hs.unwatched]
      · rintro ⟨-, ⟨other, hother, -⟩ | ⟨other, hother⟩⟩ <;> cases hother

/-- A start that fails leaves the session idle and the watcher as it was.  It leaves the whole
service at rest, ready for another start, exactly if its error did not escape.  Otherwise the
service counts as running from then on and refuses each later start. -/
theorem start_failure (hs : s.AtRest) (h : s.start m d = (s', d', .error e)) :
    s'.scanner.session = .idle ∧ s'.watcher = s.watcher ∧
      (s'.AtRest ↔ ¬s.Escapes d e) ∧
      (¬s.Escapes d e → ∀ m d, (s'.start m d).2.2 ≠ .error .alreadyRunning) ∧
      (s.Escapes d e → s'.running = true ∧ s'.attached = true ∧
        ∀ m d, (s'.start m d).2.2 = .error .alreadyRunning) := by
  obtain ⟨hidle, hwatcher, hcases⟩ := rest_or_escapes hs h
  refine ⟨hidle, hwatcher, ?_⟩
  rcases hcases with ⟨hrest, hnot⟩ | ⟨hescapes, hrunning, hattached⟩
  · exact ⟨iff_of_true hrest hnot, fun _ _ _ => start_ne_alreadyRunning hrest.stopped,
      fun hescapes => absurd hescapes hnot⟩
  · refine ⟨iff_of_false (fun hrest => ?_) (not_not_intro hescapes),
      fun hnot => absurd hescapes hnot, fun _ => ⟨hrunning, hattached, fun m d => ?_⟩⟩
    · rw [hrest.stopped] at hrunning
      cases hrunning
    · rw [start_of_running hrunning]

end EventSource

/-! ## A target in a circle -/

def roundDisk : Disk :=
  ⟨.dir [(Scanner.outputName, .link (RawText.ofText "o"))], [], [], []⟩

def eagerService : WatchService ManualWatcher :=
  make ⟨.int 50, .bool true⟩ (Scanner.bareScanner "o") .idle

theorem atRest_eagerService : eagerService.AtRest := ⟨rfl, rfl, rfl, rfl, rfl⟩

theorem start_failure_round : ∃ s', eagerService.start Scanner.bareMoment roundDisk =
      (s', roundDisk, .error (.scan (.circle ⟨Disk.absolute [Scanner.outputName]⟩))) ∧
    ¬s'.AtRest ∧ ∀ m d, (s'.start m d).2.2 = .error .alreadyRunning := by
  have hstart : eagerService.start Scanner.bareMoment roundDisk = (eagerService.raised, roundDisk,
      .error (.scan (.circle ⟨Disk.absolute [Scanner.outputName]⟩))) := by
    cbv
  have hbegin : eagerService.beginStart roundDisk =
      .ok (Disk.absolute [], eagerService.raised) := by
    cbv
  obtain ⟨-, -, hrest, -, hlater⟩ := start_failure atRest_eagerService hstart
  have hescapes : eagerService.Escapes roundDisk
      (.scan (.circle ⟨Disk.absolute [Scanner.outputName]⟩)) :=
    ⟨⟨_, hbegin⟩, .inl ⟨_, rfl, rfl⟩⟩
  exact ⟨_, hstart, fun h => hrest.1 h hescapes, (hlater hescapes).2.2⟩

end WatchService

end SourceScan
