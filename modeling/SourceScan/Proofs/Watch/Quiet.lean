import SourceScan.Proofs.Watch.Interleaving

/-!
# Quiet after a stop

When starts and stops come one after another, the only timer that may sleep is the one in the
slot of the session.  A stop cancels it, and signals that arrive later find the service
stopped.  Until the next start no timer wakes, no signal counts and the slot stays empty.
-/

namespace SourceScan

namespace Debouncer

variable {b : Debouncer} {session : Session TimerId}

def InSlot (b : Debouncer) (session : Session TimerId) : Prop :=
  ∀ a ∈ b.sleeping, session.timer = some a.timer

theorem inSlot_make (delay : Option Nat) (session : Session TimerId) :
    (make delay).InSlot session := by
  intro a ha
  cases ha

theorem InSlot.timer_eq {t : TimerId} (h : b.InSlot session) (hslot : session.timer = some t) :
    ∀ a ∈ b.sleeping, a.timer = t :=
  fun a ha => Option.some.inj ((h a ha).symm.trans hslot)

theorem InSlot.sleeping_of_empty (h : b.InSlot session) (hslot : session.timer = none) :
    b.sleeping = [] :=
  List.eq_nil_iff_forall_not_mem.2 fun a ha => by cases hslot.symm.trans (h a ha)

theorem InSlot.drop_slot (h : b.InSlot session) : (b.drop? session.timer).sleeping = [] := by
  cases hslot : session.timer with
  | none => exact h.sleeping_of_empty hslot
  | some t => exact List.filter_eq_nil_iff.2 fun a ha => by simp [h.timer_eq hslot a ha]

theorem InSlot.cancel (h : b.InSlot session) : (b.cancel session).2.1.sleeping = [] := h.drop_slot

theorem InSlot.wake {t : TimerId} (h : b.InSlot session) (hsleeps : ∃ a ∈ b.sleeping, a.timer = t) :
    (b.wake t session).1.sleeping = [] ∧ (b.wake t session).2.timer = none := by
  obtain ⟨a, ha, rfl⟩ := hsleeps
  have hdrop := h.drop_slot
  rw [h a ha] at hdrop
  exact ⟨hdrop, by simp [Debouncer.wake, Session.clearTimer, h a ha]⟩

theorem InSlot.change (h : b.InSlot session) (now : Nat) :
    (b.change now session).1.InSlot (b.change now session).2 := by
  have hnew : ∀ a ∈ (b.change now session).1.sleeping, a.timer = b.started := by
    intro a ha
    -- Whatever slept before is the timer that was in the slot, and that one is cancelled.
    cases hslot : session.timer with
    | none =>
        simp only [Debouncer.change, Session.replaceTimer, hslot, drop?,
          h.sleeping_of_empty hslot, List.nil_append, List.mem_singleton] at ha
        rw [ha]
    | some t =>
        simp only [Debouncer.change, Session.replaceTimer, hslot, drop?, drop, List.mem_filter,
          List.mem_append, List.mem_singleton] at ha
        obtain ⟨hold | rfl, hne⟩ := ha
        · simp [h.timer_eq hslot a hold] at hne
        · rfl
  intro a ha
  rw [hnew a ha]
  rfl

end Debouncer

namespace WatchService

variable {ω : Type} [EventSource ω] {s : WatchService ω}

omit [EventSource ω] in
theorem received_noteScan {s' : WatchService ω} {outcome : Except ScanError Report}
    (h : s.noteScan outcome = .ok s') :
    s'.stats.received = s.stats.received ∧ s'.running = s.running := by
  unfold noteScan at h
  split at h
  · cases h
    exact ⟨rfl, rfl⟩
  · cases h
    exact ⟨rfl, rfl⟩
  · split at h
    · cases h
      exact ⟨rfl, rfl⟩
    · cases h

omit [EventSource ω] in
theorem change_of_stopped (h : s.running = false) (time : Nat) : s.change time = s := by
  unfold change
  rw [h]

/-- A start that has been at the watcher has a debouncer that nothing has happened to, or none. -/
theorem finishStart_cases (s : WatchService ω) (d : Disk) (p : Path) :
    (∃ delay watcher, (s.finishStart d p).1 =
        { s with debouncer := some (.make delay), watcher }) ∨
      (s.finishStart d p).1 =
        { s with running := false, debouncer := none, attached := false } := by
  unfold finishStart
  dsimp only
  split
  · exact .inl ⟨_, _, rfl⟩
  · split
    · exact .inl ⟨_, s.watcher, rfl⟩
    · exact .inr rfl

end WatchService

namespace Live

variable {ω : Type} {l l' : Live ω} {e : Happening} {es : List Happening}

def OneByOne (l : Live ω) (e : Happening) : Prop := e.isCall = true → l.starting = []

/-- What holds of a service whose starts and stops come one after another. -/
structure Tidy (l : Live ω) : Prop where
  stopped : l.service.running = false → l.service.debouncer = none
  starting : l.starting = [] ∨
    ∃ p, l.starting = [p] ∧ l.service.running = true ∧ l.service.debouncer = none
  slot : l.service.debouncer = none → l.service.scanner.session.timer = none
  held : ∀ b, l.service.debouncer = some b → b.InSlot l.service.scanner.session
  released : ∀ b ∈ l.released, b.sleeping = []

theorem Tidy.over {b : Debouncer} (h : l.Tidy) (hb : l.service.debouncer = some b) :
    l.starting = [] := by
  obtain hover | ⟨p, -, -, hnone⟩ := h.starting
  · exact hover
  · cases hnone.symm.trans hb

theorem Tidy.over_of_stopped (h : l.Tidy) (hstopped : l.service.running = false) :
    l.starting = [] := by
  obtain hover | ⟨p, -, hrunning, -⟩ := h.starting
  · exact hover
  · cases hrunning.symm.trans hstopped

section EventSource

variable [EventSource ω]

theorem Tidy.finish (hover : l.starting = []) (hrunning : l.service.running = true)
    (hnone : l.service.debouncer = none) (hslot : l.service.scanner.session.timer = none)
    (hreleased : ∀ b ∈ l.released, b.sleeping = []) (d : Disk) (p : Path) :
    (l.finish d p).Tidy := by
  have hsame : (l.finish d p).released = l.released := by simp [Live.finish, hnone]
  obtain ⟨delay, watcher, hfinish⟩ | hfinish := l.service.finishStart_cases d p
  · refine ⟨fun h => ?_, .inl hover, fun h => ?_, fun b hb => ?_, hsame ▸ hreleased⟩
    · simp [Live.finish, hfinish, hrunning] at h
    · simp [Live.finish, hfinish] at h
    · simp only [Live.finish, hfinish, Option.some.injEq] at hb ⊢
      exact hb ▸ Debouncer.inSlot_make delay _
  · refine ⟨fun _ => ?_, .inl hover, fun _ => ?_, fun b hb => ?_, hsame ▸ hreleased⟩
    · simp only [Live.finish, hfinish]
    · simpa only [Live.finish, hfinish] using hslot
    · simp [Live.finish, hfinish] at hb

theorem Tidy.start {d : Disk} (h : l.Tidy) (hover : l.starting = [])
    (hstep : l.step (.start d) = some l') : l'.Tidy := by
  cases hbegin : l.service.beginStart d with
  | error cause =>
      simp only [step, hbegin, Option.some.injEq] at hstep
      exact hstep ▸ h
  | ok r =>
      obtain ⟨p, s⟩ := r
      obtain ⟨hstopped, rfl⟩ := WatchService.beginStart_ok hbegin
      have hnone := h.stopped hstopped
      have hslot := h.slot hnone
      cases hscan : l.service.raised.settings.scanOnStart.isTruthy with
      | true =>
          simp only [step, hbegin, hscan, if_true, Option.some.injEq] at hstep
          subst hstep
          refine ⟨fun _ => hnone, .inr ⟨p, ?_, rfl, hnone⟩, fun _ => hslot,
            fun b hb => ?_, h.released⟩
          · rw [hover, List.nil_append]
          · cases hnone.symm.trans hb
      | false =>
          simp only [step, hbegin, hscan, Bool.false_eq_true, if_false, Option.some.injEq] at hstep
          subst hstep
          refine Tidy.finish ?_ ?_ ?_ ?_ ?_ d p
          · exact hover
          · rfl
          · exact hnone
          · exact hslot
          · exact h.released

theorem Tidy.resume {p : Path} {d : Disk} {outcome : Except ScanError Report} (h : l.Tidy)
    (hstep : l.step (.resume p d outcome) = some l') : l'.Tidy := by
  simp only [step] at hstep
  split at hstep
  · next hp =>
      obtain hover | ⟨q, hstarting, hrunning, hnone⟩ := h.starting
      · simp [hover] at hp
      · obtain rfl : p = q := by simpa [hstarting] using hp
        have hover : l.starting.erase p = [] := by rw [hstarting, List.erase_cons_head]
        split at hstep
        · cases hstep
          exact ⟨h.stopped, .inl hover, h.slot, h.held, h.released⟩
        · next hnote =>
            cases hstep
            obtain ⟨f, rfl⟩ := WatchService.noteScan_ok hnote
            refine Tidy.finish ?_ ?_ ?_ ?_ ?_ d p
            · exact hover
            · exact hrunning
            · exact hnone
            · exact h.slot hnone
            · exact h.released
  · cases hstep

theorem Tidy.stop (h : l.Tidy) (hover : l.starting = []) (hstep : l.step .stop = some l') :
    l'.Tidy ∧ l'.service.running = false ∧ l'.starting = [] := by
  cases hstep
  cases hrunning : l.service.running with
  | false =>
      refine ⟨⟨?_, .inl hover, ?_, ?_, ?_⟩, ?_, hover⟩ <;>
        simp only [WatchService.stop, hrunning, Bool.false_eq_true, if_false, List.append_nil]
      · exact fun _ => h.stopped hrunning
      · exact h.slot
      · exact h.held
      · exact h.released
  | true =>
      refine ⟨⟨?_, .inl hover, ?_, ?_, ?_⟩, ?_, hover⟩ <;>
        simp only [WatchService.stop, hrunning, if_true]
      · exact fun _ => trivial
      · intro _
        cases hb : l.service.debouncer with
        | none => exact h.slot hb
        | some b => rfl
      · intro b hb
        cases hb
      · intro b hb
        rcases List.mem_append.1 hb with hold | hnew
        · exact h.released b hold
        · simp only [Option.mem_toList, Option.map_eq_some_iff] at hnew
          obtain ⟨c, hc, rfl⟩ := hnew
          exact (h.held c hc).cancel

theorem Tidy.arrive {time : Nat} (h : l.Tidy) (hstep : l.step (.arrive time) = some l') :
    l'.Tidy := by
  simp only [step] at hstep
  split at hstep
  · cases hstep
  · cases hstep
    unfold WatchService.change
    split
    · next b hrunning hb =>
        refine ⟨fun hstopped => ?_, .inl (h.over hb), fun hnone => ?_, fun c hc => ?_, h.released⟩
        · cases hrunning.symm.trans hstopped
        · cases hnone
        · cases hc
          exact (h.held b hb).change time
    · exact ⟨h.stopped, h.starting, h.slot, h.held, h.released⟩

theorem Tidy.wake {t : TimerId} (h : l.Tidy) (hstep : l.step (.wake t) = some l') :
    l'.Tidy := by
  obtain ⟨b, hb, hrouse⟩ := Option.bind_eq_some_iff.1 hstep
  obtain ⟨hsleeps, rfl⟩ := rouse_eq_some hrouse
  obtain ⟨hnone, hslot⟩ := (h.held b hb).wake hsleeps
  refine ⟨fun hstopped => ?_, .inl (h.over hb), fun hnone => ?_, fun c hc a ha => ?_, h.released⟩
  · cases (h.stopped hstopped).symm.trans hb
  · cases hnone
  · cases hc
    rw [hnone] at ha
    cases ha

theorem Tidy.not_straggle {i : Nat} {t : TimerId} (h : l.Tidy) :
    l.step (.straggle i t) ≠ some l' := by
  intro hstep
  obtain ⟨b, hb, hrouse⟩ := Option.bind_eq_some_iff.1 hstep
  obtain ⟨⟨a, ha, -⟩, -⟩ := rouse_eq_some hrouse
  rw [h.released b (List.mem_of_getElem? hb)] at ha
  cases ha

theorem Tidy.scanned {outcome : Except ScanError Report} (h : l.Tidy)
    (hstep : l.step (.scanned outcome) = some l') : l'.Tidy := by
  simp only [step] at hstep
  split at hstep
  · cases hstep
  · split at hstep
    · cases hstep
      exact ⟨h.stopped, h.starting, h.slot, h.held, h.released⟩
    · next hnote =>
        cases hstep
        obtain ⟨f, rfl⟩ := WatchService.noteScan_ok hnote
        exact ⟨h.stopped, h.starting, h.slot, h.held, h.released⟩

theorem Tidy.step (h : l.Tidy) (hcall : l.OneByOne e) (hstep : l.step e = some l') : l'.Tidy := by
  cases e with
  | start d => exact h.start (hcall rfl) hstep
  | resume p d outcome => exact h.resume hstep
  | stop => exact (h.stop (hcall rfl) hstep).1
  | signal =>
      cases hstep
      exact ⟨h.stopped, h.starting, h.slot, h.held, h.released⟩
  | arrive time => exact h.arrive hstep
  | wake t => exact h.wake hstep
  | straggle i t => exact absurd hstep h.not_straggle
  | scanned outcome => exact h.scanned hstep
  | work scanning last =>
      cases hstep
      exact ⟨h.stopped, h.starting, h.slot, h.held, h.released⟩

/-- What happens to a service that was stopped does not move it. -/
theorem Tidy.step_stopped (h : l.Tidy) (hstopped : l.service.running = false)
    (hstart : e.isStart = false) (hstep : l.step e = some l') :
    e.isWake = false ∧ l'.service.running = false ∧
      l'.service.stats.received = l.service.stats.received := by
  have hnone := h.stopped hstopped
  cases e with
  | start d => cases hstart
  | resume p d outcome => simp [Live.step, h.over_of_stopped hstopped] at hstep
  | stop =>
      cases hstep
      simp [Happening.isWake, WatchService.stop, hstopped]
  | signal =>
      cases hstep
      exact ⟨rfl, hstopped, rfl⟩
  | arrive time =>
      simp only [Live.step, WatchService.change_of_stopped hstopped] at hstep
      split at hstep
      · cases hstep
      · cases hstep
        exact ⟨rfl, hstopped, rfl⟩
  | wake t => simp [Live.step, hnone] at hstep
  | straggle i t => exact absurd hstep h.not_straggle
  | scanned outcome =>
      simp only [Live.step] at hstep
      split at hstep
      · cases hstep
      · split at hstep
        · cases hstep
          exact ⟨rfl, hstopped, rfl⟩
        · next hnote =>
            cases hstep
            obtain ⟨hreceived, hrunning⟩ := WatchService.received_noteScan hnote
            exact ⟨rfl, hrunning.trans hstopped, hreceived⟩
  | work scanning last =>
      cases hstep
      exact ⟨rfl, hstopped, rfl⟩

omit [EventSource ω] in
theorem tidy_make (settings : WatchSettings) (scanner : Scanner TimerId) (watcher : ω)
    (hslot : scanner.session.timer = none) : (make settings scanner watcher).Tidy :=
  ⟨fun _ => rfl, .inl rfl, fun _ => hslot, fun b hb => (by cases hb), fun b hb => (by cases hb)⟩

theorem Tidy.run_stopped (h : l.Tidy) (hstopped : l.service.running = false)
    (hstart : ∀ e ∈ es, e.isStart = false) (hrun : l.run es = some l') :
    (∀ e ∈ es, e.isWake = false) ∧ l'.Tidy ∧ l'.service.running = false ∧
      l'.service.stats.received = l.service.stats.received := by
  -- The service stays tidy, too, for none of its starts is suspended while it is stopped.
  induction es generalizing l with
  | nil =>
      cases hrun
      exact ⟨fun e he => (by cases he), h, hstopped, rfl⟩
  | cons e es ih =>
      obtain ⟨next, hnext, hrest⟩ := Option.bind_eq_some_iff.1 hrun
      obtain ⟨he, hes⟩ := List.forall_mem_cons.1 hstart
      obtain ⟨hwake, hstill, hreceived⟩ := h.step_stopped hstopped he hnext
      have htidy := h.step (fun _ => h.over_of_stopped hstopped) hnext
      obtain ⟨hwakes, hend, hdown, hcount⟩ := ih htidy hstill hes hrest
      exact ⟨List.forall_mem_cons.2 ⟨hwake, hwakes⟩, hend, hdown, hcount.trans hreceived⟩

/-- When starts and stops come one after another, then between a stop and the next start no timer
wakes and no scan begins, no signal counts however late it arrives, and the slot of the session is
empty. -/
theorem quiet_of_stop (settings : WatchSettings) (scanner : Scanner TimerId) (watcher : ω)
    (hslot : scanner.session.timer = none)
    (hcalls : (make settings scanner watcher).Throughout OneByOne (es ++ [.stop]))
    (hstop : (make settings scanner watcher).run (es ++ [.stop]) = some l)
    {more : List Happening} (hstart : ∀ e ∈ more, e.isStart = false)
    (hmore : l.run more = some l') :
    (∀ e ∈ more, e.isWake = false) ∧
      l'.service.stats.received = l.service.stats.received ∧
      l'.service.scanner.session.timer = none := by
  rw [run_append] at hstop
  obtain ⟨before, hbefore, hlast⟩ := Option.bind_eq_some_iff.1 hstop
  obtain ⟨hes, hend⟩ := throughout_append.1 hcalls
  have htidy : before.Tidy :=
    run_induction (fun _ _ _ => Tidy.step) (tidy_make settings scanner watcher hslot) hes hbefore
  have hstep : before.step .stop = some l := by
    simpa only [run_cons, run_nil, Option.bind_fun_some] using hlast
  obtain ⟨hquiet, hdown, -⟩ := htidy.stop ((hend before hbefore).1 rfl) hstep
  obtain ⟨hwakes, hstill, hoff, hreceived⟩ := hquiet.run_stopped hdown hstart hmore
  exact ⟨hwakes, hreceived, hstill.slot (hstill.stopped hoff)⟩

end EventSource

/-! ## A signal that arrives late -/

def calmLive : Live ManualWatcher := make ⟨.int 50, .bool false⟩ (Scanner.bareScanner "o") .idle

def lateSignal : List Happening := [.start Scanner.bareDisk, .signal, .signal, .arrive 0]

theorem oneByOne_lateSignal : calmLive.Throughout OneByOne (lateSignal ++ [.stop]) := by
  have hstart : calmLive.step (.start Scanner.bareDisk) = some { calmLive with
      service := { calmLive.service with
        running := true
        attached := true
        debouncer := some (.make (some 50))
        watcher := ⟨true, some .service, some (Disk.absolute []), []⟩ } } := by
    cbv
  refine ⟨fun _ => rfl, fun l h => ?_⟩
  obtain rfl := Option.some.inj (hstart.symm.trans h)
  have hover : calmLive.starting = [] := rfl
  simpa [Throughout, OneByOne, Happening.isCall, step] using hover

def calmStopped : Live ManualWatcher :=
  { calmLive with
    service := { calmLive.service with stats := ⟨1, 0, 0, 0⟩ }
    released := [⟨some 50, 0, 1, []⟩]
    signals := 1 }

theorem quiet_of_stop_lateSignal :
    calmLive.run (lateSignal ++ [.stop]) = some calmStopped ∧
      calmStopped.service.stats.received = 1 ∧
      ∃ l, calmStopped.run [.arrive 60] = some l ∧ l.service.stats.received = 1 ∧
        l.service.scanner.session.timer = none := by
  have hstop : calmLive.run (lateSignal ++ [.stop]) = some calmStopped := by
    cbv
  have hmore : calmStopped.run [.arrive 60] = some { calmStopped with signals := 0 } := rfl
  obtain ⟨-, hreceived, hslot⟩ :=
    quiet_of_stop _ _ _ rfl oneByOne_lateSignal hstop (by decide) hmore
  exact ⟨hstop, rfl, _, hmore, hreceived, hslot⟩

end Live

end SourceScan
