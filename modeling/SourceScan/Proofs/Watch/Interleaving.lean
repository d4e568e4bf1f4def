import SourceScan.Proofs.Watch.Start

/-!
# Calls and signals that interleave

A live service may be called while other calls of it are not over.  A start that scans first
is suspended until that scan is over.  Scans work in threads of their own, signals are sent
from other threads and arrive later, and a timer may wake at any time while it sleeps.  What
happens on the event loop happens in steps that nothing interrupts.
-/

namespace SourceScan

structure Live (ω : Type) where
  service : WatchService ω
  /-- The paths that the starts are to watch that wait for their first scan. -/
  starting : List Path
  /-- The debouncers that the service has let go.  Timers of theirs may still sleep. -/
  released : List Debouncer
  /-- The number of signals that were sent and have not arrived. -/
  signals : Nat
  /-- The number of scans that timers have begun and that are not over. -/
  scans : Nat

inductive Happening where
  | start (d : Disk)
  /-- The first scan of a start is over, and the start goes on. -/
  | resume (p : Path) (d : Disk) (outcome : Except ScanError Report)
  | stop
  /-- A signal is sent.  The sender may have looked at the flags of the service long before. -/
  | signal
  | arrive (time : Nat)
  /-- A timer of the service's debouncer wakes, and a scan begins. -/
  | wake (t : TimerId)
  /-- A timer of a debouncer that was let go wakes, and a scan begins. -/
  | straggle (i : Nat) (t : TimerId)
  /-- A scan that a timer began is over. -/
  | scanned (outcome : Except ScanError Report)
  /-- Scans take or leave the session, and a report becomes the last one. -/
  | work (scanning : Bool) (last : Option Report)

namespace Happening

def isCall : Happening → Bool
  | .start _ | .stop => true
  | _ => false

def isStart : Happening → Bool
  | .start _ => true
  | _ => false

def isWake : Happening → Bool
  | .wake _ | .straggle .. => true
  | _ => false

end Happening

namespace Live

variable {ω : Type}

def make (settings : WatchSettings) (scanner : Scanner TimerId) (watcher : ω) : Live ω :=
  ⟨.make settings scanner watcher, [], [], 0, 0⟩

def atWork (l : Live ω) (scanning : Bool) (last : Option Report) : Live ω :=
  { l with
    service :=
      { l.service with
        scanner :=
          { l.service.scanner with
            session := { l.service.scanner.session with scanning }
            lastReport := last } } }

def rouse (l : Live ω) (b : Debouncer) (t : TimerId) (put : Debouncer → Live ω → Live ω) :
    Option (Live ω) :=
  if b.sleeping.any (·.timer = t) then
    let (b, session) := b.wake t l.service.scanner.session
    some (put b { l with service := l.service.setSession session, scans := l.scans + 1 })
  else none

section EventSource

variable [EventSource ω]

def finish (l : Live ω) (d : Disk) (p : Path) : Live ω :=
  { l with
    service := (l.service.finishStart d p).1
    released := l.released ++ l.service.debouncer.toList }

def step (l : Live ω) : Happening → Option (Live ω)
  | .start d =>
      match l.service.beginStart d with
      | .error _ => some l
      | .ok (p, service) =>
          let l := { l with service }
          if service.settings.scanOnStart.isTruthy then
            some { l with starting := l.starting ++ [p] }
          else some (l.finish d p)
  | .resume p d outcome =>
      if p ∈ l.starting then
        let l := { l with starting := l.starting.erase p }
        match l.service.noteScan outcome with
        | .error _ => some l
        | .ok service => some ({ l with service }.finish d p)
      else none
  | .stop =>
      some
        { l with
          service := l.service.stop
          released := l.released ++
            if l.service.running then
              (l.service.debouncer.map fun b => (b.cancel l.service.scanner.session).2.1).toList
            else [] }
  | .signal => some { l with signals := l.signals + 1 }
  | .arrive time =>
      match l.signals with
      | 0 => none
      | signals + 1 => some { l with signals, service := l.service.change time }
  | .wake t => l.service.debouncer.bind fun b =>
      l.rouse b t fun b l => { l with service := { l.service with debouncer := some b } }
  | .straggle i t => l.released[i]?.bind fun b =>
      l.rouse b t fun b l => { l with released := l.released.set i b }
  | .scanned outcome =>
      match l.scans with
      | 0 => none
      | scans + 1 =>
          match l.service.noteScan outcome with
          | .error _ => some { l with scans }
          | .ok service => some { l with scans, service }
  | .work scanning last => some (l.atWork scanning last)

def run (l : Live ω) (es : List Happening) : Option (Live ω) := es.foldlM step l

@[simp] theorem run_nil (l : Live ω) : l.run [] = some l := rfl

theorem run_cons (l : Live ω) (e : Happening) (es : List Happening) :
    l.run (e :: es) = (l.step e).bind (run · es) := rfl

theorem run_append (l : Live ω) (es more : List Happening) :
    l.run (es ++ more) = (l.run es).bind (run · more) :=
  List.foldlM_append

/-- The condition holds of each happening of a run and of what it comes upon. -/
def Throughout (P : Live ω → Happening → Prop) : Live ω → List Happening → Prop
  | _, [] => True
  | l, e :: es => P l e ∧ ∀ l', l.step e = some l' → Throughout P l' es

variable {l l' : Live ω} {e : Happening} {es : List Happening}

theorem throughout_append {P : Live ω → Happening → Prop} {more : List Happening} :
    l.Throughout P (es ++ more) ↔
      l.Throughout P es ∧ ∀ l', l.run es = some l' → l'.Throughout P more := by
  induction es generalizing l with
  | nil => simp [Throughout]
  | cons e es ih =>
      simp only [List.cons_append, Throughout, ih, run_cons, Option.bind_eq_some_iff]
      constructor
      · rintro ⟨he, hrest⟩
        exact ⟨⟨he, fun next hnext => (hrest next hnext).1⟩,
          fun l' ⟨next, hnext, hrun⟩ => (hrest next hnext).2 l' hrun⟩
      · rintro ⟨⟨he, hes⟩, hmore⟩
        exact ⟨he, fun next hnext => ⟨hes next hnext, fun l' hrun => hmore l' ⟨next, hnext, hrun⟩⟩⟩

/-- What each step of a run preserves, the whole run preserves. -/
theorem run_induction {P : Live ω → Happening → Prop} {I : Live ω → Prop}
    (hstep : ∀ l e l', I l → P l e → l.step e = some l' → I l') (hbase : I l)
    (hall : l.Throughout P es) (hrun : l.run es = some l') : I l' := by
  induction es generalizing l with
  | nil =>
      cases hrun
      exact hbase
  | cons e es ih =>
      obtain ⟨next, hnext, hrest⟩ := Option.bind_eq_some_iff.1 hrun
      exact ih (hstep l e next hbase hall.1 hnext) (hall.2 next hnext) hrest

omit [EventSource ω] in
theorem rouse_eq_some {b : Debouncer} {t : TimerId} {put : Debouncer → Live ω → Live ω}
    (h : l.rouse b t put = some l') : (∃ a ∈ b.sleeping, a.timer = t) ∧
      l' = put (b.wake t l.service.scanner.session).1
        { l with
          service := l.service.setSession (b.wake t l.service.scanner.session).2
          scans := l.scans + 1 } := by
  unfold rouse at h
  split at h
  · next hsleeps =>
      rw [List.any_eq_true] at hsleeps
      obtain ⟨a, ha, hat⟩ := hsleeps
      exact ⟨⟨a, ha, of_decide_eq_true hat⟩, (Option.some.inj h).symm⟩
  · cases h

/-! ## Calls that nothing comes between -/

omit [EventSource ω] in
theorem triggerScan_fst (s : WatchService ω) (m : Moment) (d : Disk) :
    (s.triggerScan m d).1 =
      match ({ s with scanner := (s.scanner.run m d).1 } : WatchService ω).noteScan
          (s.scanner.run m d).2.2 with
      | .error _ => { s with scanner := (s.scanner.run m d).1 }
      | .ok s => s := by
  unfold WatchService.triggerScan
  dsimp only
  split
  · next hnote => rw [hnote]
  · next hnote => rw [hnote]

omit [EventSource ω] in
theorem atWork_run (l : Live ω) (m : Moment) (d : Disk) :
    (l.atWork (l.service.scanner.run m d).1.session.scanning
        (l.service.scanner.run m d).1.lastReport).service =
      { l.service with scanner := (l.service.scanner.run m d).1 } := by
  unfold atWork
  cases hscanning : l.service.scanner.session.scanning with
  | true => rw [Scanner.run_of_scanning hscanning]
  | false =>
      rw [Scanner.run_of_idle hscanning]
      rfl

theorem step_resume {p : Path} (h : l.starting = [p]) (d : Disk)
    (outcome : Except ScanError Report) :
    ∃ l', l.step (.resume p d outcome) = some l' ∧ l'.starting = [] ∧
      l'.service = match l.service.noteScan outcome with
        | .error _ => l.service
        | .ok s => (s.finishStart d p).1 := by
  cases hnote : l.service.noteScan outcome with
  | error cause => exact ⟨{ l with starting := [] }, by simp [step, h, hnote], rfl, rfl⟩
  | ok s =>
      exact ⟨({ l with starting := [], service := s } : Live ω).finish d p,
        by simp [step, h, hnote], rfl, rfl⟩

theorem exists_run_start (hover : l.starting = []) (m : Moment) (d : Disk) :
    ∃ es l', l.run es = some l' ∧ l'.starting = [] ∧ l'.service = (l.service.start m d).1 := by
  cases hbegin : l.service.beginStart d with
  | error cause =>
      refine ⟨[.start d], l, ?_, hover, ?_⟩
      · simp [run_cons, step, hbegin]
      · simp [WatchService.start, hbegin]
  | ok r =>
      obtain ⟨p, s⟩ := r
      cases hscan : s.settings.scanOnStart.isTruthy with
      | false =>
          refine ⟨[.start d], { l with service := s }.finish d p, ?_, hover, ?_⟩
          · simp [run_cons, step, hbegin, hscan]
          · simp [WatchService.start, hbegin, hscan, finish]
      | true =>
          rcases hscanned : s.scanner.run m d with ⟨scanner, last, outcome⟩
          have hwork := atWork_run { l with service := s, starting := [p] } m d
          simp only [hscanned] at hwork
          obtain ⟨l', hresume, hstarting, hservice⟩ := step_resume
            (l := atWork { l with service := s, starting := [p] } scanner.session.scanning
              scanner.lastReport) rfl last outcome
          refine ⟨[.start d, .work scanner.session.scanning scanner.lastReport,
            .resume p last outcome], l', ?_, hstarting, ?_⟩
          · simp only [run_cons, step, hbegin, hscan, hover, List.nil_append, if_true,
              Option.bind_some, run_nil, Option.bind_fun_some]
            exact hresume
          · rw [hservice, hwork]
            cases hnote : ({ s with scanner } : WatchService ω).noteScan outcome <;>
              simp [WatchService.start, WatchService.triggerScan, hbegin, hscan, hscanned, hnote]

theorem step_scanned {n : Nat} (h : l.scans = n + 1) (outcome : Except ScanError Report) :
    ∃ l', l.step (.scanned outcome) = some l' ∧ l'.starting = l.starting ∧
      l'.service = match l.service.noteScan outcome with
        | .error _ => l.service
        | .ok s => s := by
  cases hnote : l.service.noteScan outcome with
  | error cause => exact ⟨{ l with scans := n }, by simp [step, h, hnote], rfl, rfl⟩
  | ok s => exact ⟨{ l with scans := n, service := s }, by simp [step, h, hnote], rfl, rfl⟩

theorem step_wake {b : Debouncer} {t : TimerId} (hb : l.service.debouncer = some b)
    (hsleeps : b.sleeping.any (·.timer = t)) :
    ∃ l', l.step (.wake t) = some l' ∧ l'.starting = l.starting ∧ l'.scans = l.scans + 1 ∧
      l'.service = { l.service.setSession (b.wake t l.service.scanner.session).2 with
        debouncer := some (b.wake t l.service.scanner.session).1 } := by
  have hrouse : l.step (.wake t) = some
      { l with
        service := { l.service.setSession (b.wake t l.service.scanner.session).2 with
          debouncer := some (b.wake t l.service.scanner.session).1 }
        scans := l.scans + 1 } := by
    simp only [step, hb, Option.bind_some, rouse, hsleeps, if_true]
  exact ⟨_, hrouse, rfl, rfl, rfl⟩

theorem exists_run_wake {b : Debouncer} {t : TimerId} (hb : l.service.debouncer = some b)
    (hsleeps : b.sleeping.any (·.timer = t)) (m : Moment) (d : Disk) :
    ∃ es l', l.run es = some l' ∧ l'.starting = l.starting ∧
      l'.service = (l.service.wake t m d).1 := by
  obtain ⟨woken, hwake, hstarting, hscans, hservice⟩ := step_wake hb hsleeps
  have hsame : (l.service.wake t m d).1 = (woken.service.triggerScan m d).1 := by
    rw [hservice]
    simp only [WatchService.wake, hb]
    rfl
  rcases hscanned : woken.service.scanner.run m d with ⟨scanner, last, outcome⟩
  have hwork := atWork_run woken m d
  rw [hscanned] at hwork
  obtain ⟨l', hover, hstill, hend⟩ := step_scanned
    (l := woken.atWork scanner.session.scanning scanner.lastReport) hscans outcome
  refine ⟨[.wake t, .work scanner.session.scanning scanner.lastReport, .scanned outcome], l',
    ?_, hstill.trans hstarting, ?_⟩
  · simp only [run_cons, hwake, Option.bind_some, run_nil, Option.bind_fun_some]
    exact hover
  · rw [hend, hwork, hsame, triggerScan_fst, hscanned]

end EventSource

end Live

end SourceScan
