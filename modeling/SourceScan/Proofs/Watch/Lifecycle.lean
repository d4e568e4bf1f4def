import SourceScan.Proofs.Watch.Interleaving

/-!
# Starts and stops that interleave

A start raises the flags of its service at once and goes to the watcher after the first scan.
A stop in between takes the flags down again, but the start that is suspended does not know of
it and goes to the watcher all the same.  Whether the watcher, the flags and the debouncer
agree thus depends on how many starts have begun and on how many have reached the watcher
since the service was put down.
-/

namespace SourceScan

structure Flags where
  watching : Bool
  running : Bool
  attached : Bool
  /-- Whether there is a debouncer. -/
  holding : Bool
  deriving DecidableEq

namespace Flags

structure Whole (f : Flags) : Prop where
  watching : f.watching = f.running
  attached : f.attached = f.running
  holding : f.holding = f.running

def refused (f : Flags) : Flags := ⟨f.watching, false, false, false⟩

def finished (f : Flags) (resolvable : Bool) : Flags :=
  if !f.watching && resolvable then { f with watching := true, holding := true } else f.refused

end Flags

namespace WatchService

variable {s s' : WatchService ManualWatcher}

def flags (s : WatchService ManualWatcher) : Flags :=
  ⟨s.watcher.running, s.running, s.attached, s.debouncer.isSome⟩

theorem flags_beginStart {d : Disk} {p : Path} (h : s.beginStart d = .ok (p, s')) :
    s.flags.running = false ∧ s'.flags = { s.flags with running := true, attached := true } := by
  obtain ⟨hstopped, rfl⟩ := beginStart_ok h
  exact ⟨hstopped, rfl⟩

/-- Only a circle or a null byte keeps a path from having a real one, and the system has no number
for either. -/
theorem systemError?_of_resolve {d : Disk} {p : Path} {cause : Unresolved}
    (h : d.resolve p = .error cause) : (WatcherError.unresolved cause).systemError? = none := by
  unfold Disk.resolve at h
  dsimp only at h
  split at h
  · split at h <;> cases h
    rfl
  · cases h
  · split at h <;> cases h <;> rfl

theorem flags_finishStart (s : WatchService ManualWatcher) (d : Disk) (p : Path) :
    (s.finishStart d p).1.flags = s.flags.finished (d.resolve p).isOk := by
  have hbusy : WatcherError.alreadyRunning.systemError? = none := rfl
  cases hwatching : s.watcher.running with
  | true =>
      simp [finishStart, EventSource.start, ManualWatcher.start, flags, Flags.finished,
        Flags.refused, hwatching, hbusy, bind, Except.bind, throw, throwThe, MonadExceptOf.throw]
  | false =>
      cases hresolve : d.resolve p with
      | error cause =>
          simp [finishStart, EventSource.start, ManualWatcher.start, flags, Flags.finished,
            Flags.refused, hwatching, hresolve, systemError?_of_resolve hresolve, Except.mapError,
            Except.isOk, Except.toBool, bind, Except.bind]
      | ok real =>
          simp [finishStart, EventSource.start, ManualWatcher.start, flags, Flags.finished,
            hwatching, hresolve, Except.mapError, Except.isOk, Except.toBool, bind, Except.bind,
            pure, Except.pure]

theorem flags_stop (s : WatchService ManualWatcher) :
    s.stop.flags = if s.flags.running then ⟨false, false, false, false⟩ else s.flags := by
  unfold stop
  cases hrunning : s.running <;>
    simp [flags, hrunning, EventSource.stop, ManualWatcher.stop]

theorem flags_noteScan {outcome : Except ScanError Report} (h : s.noteScan outcome = .ok s') :
    s'.flags = s.flags := by
  obtain ⟨f, rfl⟩ := noteScan_ok h
  rfl

theorem flags_change (s : WatchService ManualWatcher) (time : Nat) :
    (s.change time).flags = s.flags := by
  unfold change
  split
  · next hrunning hb => simp [flags, hrunning, hb, count, setSession]
  · rfl

end WatchService

namespace Happening

def ofLifecycle : Happening → Bool
  | .start _ | .resume .. | .stop => true
  | _ => false

end Happening

namespace Live

variable {l l' : Live ManualWatcher} {e : Happening} {es : List Happening}

theorem flags_step_of_not_ofLifecycle (he : e.ofLifecycle = false) (h : l.step e = some l') :
    l'.service.flags = l.service.flags ∧ l'.starting = l.starting := by
  cases e with
  | start d => cases he
  | resume p d outcome => cases he
  | stop => cases he
  | signal =>
      cases h
      exact ⟨rfl, rfl⟩
  | arrive time =>
      simp only [step] at h
      split at h
      · cases h
      · cases h
        exact ⟨l.service.flags_change time, rfl⟩
  | wake t =>
      obtain ⟨b, hb, hrouse⟩ := Option.bind_eq_some_iff.1 h
      obtain ⟨-, rfl⟩ := rouse_eq_some hrouse
      exact ⟨by simp [WatchService.flags, WatchService.setSession, hb], rfl⟩
  | straggle i t =>
      obtain ⟨b, hb, hrouse⟩ := Option.bind_eq_some_iff.1 h
      obtain ⟨-, rfl⟩ := rouse_eq_some hrouse
      exact ⟨rfl, rfl⟩
  | scanned outcome =>
      simp only [step] at h
      split at h
      · cases h
      · split at h
        · cases h
          exact ⟨rfl, rfl⟩
        · next hnote =>
            cases h
            exact ⟨WatchService.flags_noteScan hnote, rfl⟩
  | work scanning last =>
      cases h
      exact ⟨rfl, rfl⟩

/-! ## How starts have fared -/

/-- How starts have fared since a stop or an unresolvable path put the service down. -/
structure Tally where
  /-- The starts that have raised the flags. -/
  begun : Nat
  /-- The starts that have been at the watcher. -/
  reached : Nat
  deriving DecidableEq

namespace Tally

def zero : Tally := ⟨0, 0⟩

def begin (n : Tally) : Tally := { n with begun := n.begun + 1 }

def finish (n : Tally) (s : WatchService ManualWatcher) (d : Disk) (p : Path) : Tally :=
  if s.watcher.running || (d.resolve p).isOk then { n with reached := n.reached + 1 } else .zero

def after (n : Tally) (l : Live ManualWatcher) : Happening → Tally
  | .start d =>
      match l.service.beginStart d with
      | .error _ => n
      | .ok (p, s) => if s.settings.scanOnStart.isTruthy then n.begin else n.begin.finish s d p
  | .resume p d outcome =>
      match l.service.noteScan outcome with
      | .error _ => n
      | .ok s => n.finish s d p
  | .stop => if l.service.running then .zero else n
  | _ => n

/-- Each start that has begun has been at the watcher, and at most one has. -/
structure Settled (n : Tally) : Prop where
  level : n.begun = n.reached
  single : n.reached ≤ 1

def along (n : Tally) (l : Live ManualWatcher) : List Happening → Tally
  | [] => n
  | e :: es =>
      match l.step e with
      | none => n
      | some l' => (n.after l e).along l' es

end Tally

inductive Moves (l : Live ManualWatcher) (n : Tally) :
    Happening → Live ManualWatcher → Tally → Prop
  | rest {e : Happening} {l' : Live ManualWatcher}
      (flags : l'.service.flags = l.service.flags) (starting : l'.starting = l.starting) :
      Moves l n e l' n
  | raise {d : Disk} {p : Path} {l' : Live ManualWatcher}
      (stopped : l.service.flags.running = false)
      (flags : l'.service.flags = { l.service.flags with running := true, attached := true })
      (starting : l'.starting = l.starting ++ [p]) :
      Moves l n (.start d) l' n.begin
  | reach {d : Disk} {p : Path} {s : WatchService ManualWatcher} {l' : Live ManualWatcher}
      (stopped : l.service.flags.running = false)
      (raised : s.flags = { l.service.flags with running := true, attached := true })
      (flags : l'.service.flags = (s.finishStart d p).1.flags)
      (starting : l'.starting = l.starting) :
      Moves l n (.start d) l' (n.begin.finish s d p)
  | giveUp {d : Disk} {p : Path} {cause : ScanError} {l' : Live ManualWatcher}
      (suspended : p ∈ l.starting) (unexpected : cause.isExpected = false)
      (flags : l'.service.flags = l.service.flags)
      (starting : l'.starting = l.starting.erase p) :
      Moves l n (.resume p d (.error cause)) l' n
  | goOn {d : Disk} {p : Path} {outcome : Except ScanError Report}
      {s : WatchService ManualWatcher} {l' : Live ManualWatcher}
      (suspended : p ∈ l.starting) (noted : s.flags = l.service.flags)
      (flags : l'.service.flags = (s.finishStart d p).1.flags)
      (starting : l'.starting = l.starting.erase p) :
      Moves l n (.resume p d outcome) l' (n.finish s d p)
  | putDown {l' : Live ManualWatcher} (running : l.service.flags.running = true)
      (flags : l'.service.flags = ⟨false, false, false, false⟩)
      (starting : l'.starting = l.starting) :
      Moves l n .stop l' .zero

theorem moves_of_step (n : Tally) (h : l.step e = some l') : Moves l n e l' (n.after l e) := by
  cases he : e.ofLifecycle with
  | false =>
      have hafter : n.after l e = n := by cases e <;> first | rfl | cases he
      obtain ⟨hflags, hstarting⟩ := flags_step_of_not_ofLifecycle he h
      rw [hafter]
      exact .rest hflags hstarting
  | true =>
      cases e with
      | start d =>
          cases hbegin : l.service.beginStart d with
          | error cause =>
              simp only [step, hbegin, Option.some.injEq] at h
              simpa only [Tally.after, hbegin, ← h] using .rest rfl rfl
          | ok r =>
              obtain ⟨p, s⟩ := r
              obtain ⟨hstopped, hraised⟩ := WatchService.flags_beginStart hbegin
              cases hscan : s.settings.scanOnStart.isTruthy with
              | true =>
                  simp only [step, hbegin, hscan, if_true, Option.some.injEq] at h
                  simpa only [Tally.after, hbegin, hscan, if_true, ← h] using
                    .raise hstopped hraised rfl
              | false =>
                  simp only [step, hbegin, hscan, Bool.false_eq_true, if_false,
                    Option.some.injEq] at h
                  simpa only [Tally.after, hbegin, hscan, Bool.false_eq_true, if_false, ← h] using
                    .reach hstopped hraised rfl rfl
      | resume p d outcome =>
          simp only [step] at h
          split at h
          · next hp =>
              cases hnote : l.service.noteScan outcome with
              | error cause =>
                  obtain ⟨rfl, hunexpected⟩ := WatchService.noteScan_error_iff.1 hnote
                  simp only [hnote, Option.some.injEq] at h
                  simpa only [Tally.after, hnote, ← h] using .giveUp hp hunexpected rfl rfl
              | ok s =>
                  simp only [hnote, Option.some.injEq] at h
                  simpa only [Tally.after, hnote, ← h] using
                    .goOn hp (WatchService.flags_noteScan hnote) rfl rfl
          · cases h
      | stop =>
          cases h
          have hstop := l.service.flags_stop
          cases hrunning : l.service.running with
          | true =>
              rw [if_pos (show l.service.flags.running = true from hrunning)] at hstop
              simpa only [Tally.after, hrunning, if_true] using .putDown hrunning hstop rfl
          | false =>
              rw [if_neg (by simp [WatchService.flags, hrunning])] at hstop
              simpa only [Tally.after, hrunning, Bool.false_eq_true, if_false] using
                .rest hstop rfl
      | _ => cases he

namespace Tally

structure Fits (n : Tally) (f : Flags) : Prop where
  attached : f.attached = f.running
  watching : f.watching = true ↔ 0 < n.reached
  holding : f.holding = true ↔ n.reached = 1
  begun : n.reached ≤ 1 → n.begun = f.running.toNat

variable {n : Tally} {f : Flags}

theorem Fits.whole_iff (h : n.Fits f) : f.Whole ↔ n.Settled := by
  obtain ⟨watching, running, attached, holding⟩ := f
  obtain ⟨hattached, hwatching, hholding, hbegun⟩ := h
  constructor
  · rintro ⟨hw, -, hh⟩
    suffices n.begun = n.reached ∧ n.reached ≤ 1 from ⟨this.1, this.2⟩
    cases running <;> simp_all
  · rintro ⟨heq, hle⟩
    have hrunning : n.reached = running.toNat := heq ▸ hbegun hle
    refine ⟨Bool.eq_iff_iff.2 (hwatching.trans ?_), hattached,
      Bool.eq_iff_iff.2 (hholding.trans ?_)⟩ <;> rw [hrunning] <;> cases running <;> simp

theorem Fits.begin (h : n.Fits f) (hstopped : f.running = false) :
    n.begin.Fits { f with running := true, attached := true } :=
  ⟨rfl, h.watching, h.holding, fun hle => by simp [Tally.begin, h.begun hle, hstopped]⟩

theorem fits_zero : zero.Fits ⟨false, false, false, false⟩ :=
  ⟨rfl, by simp [zero], by simp [zero], fun _ => rfl⟩

theorem Fits.finish {s : WatchService ManualWatcher} (h : n.Fits s.flags) (d : Disk) (p : Path) :
    (n.finish s d p).Fits (s.finishStart d p).1.flags := by
  rw [WatchService.flags_finishStart]
  unfold Tally.finish Flags.finished Flags.refused
  cases hw : s.watcher.running with
  | true =>
      have hreached : 0 < n.reached := h.watching.1 hw
      have hwatching : s.flags.watching = true := hw
      simp only [hwatching, Bool.true_or, if_true, Bool.not_true, Bool.false_and,
        Bool.false_eq_true, if_false]
      exact ⟨rfl, by simp, by simp; omega, fun hle => absurd hle (by simp; omega)⟩
  | false =>
      have hwatching : s.flags.watching = false := hw
      have hreached : n.reached = 0 := by
        by_contra hne
        exact Bool.false_ne_true (hwatching.symm.trans (h.watching.2 (Nat.pos_of_ne_zero hne)))
      cases hok : (d.resolve p).isOk with
      | true =>
          simp only [hwatching, Bool.or_true, Bool.not_false, Bool.and_true, if_true]
          exact ⟨h.attached, by simp, by simp [hreached], fun _ => h.begun (by omega)⟩
      | false =>
          simp only [hwatching, Bool.or_false, Bool.and_false, Bool.false_eq_true, if_false]
          exact fits_zero

/-- Each step moves the flags as the tally says. -/
theorem Fits.step (h : n.Fits l.service.flags) (hstep : l.step e = some l') :
    (n.after l e).Fits l'.service.flags := by
  have hmoves := moves_of_step n hstep
  generalize n.after l e = n' at hmoves ⊢
  cases hmoves with
  | rest hflags => exact hflags ▸ h
  | raise hstopped hflags => exact hflags ▸ h.begin hstopped
  | reach hstopped hraised hflags => exact hflags ▸ (hraised ▸ h.begin hstopped).finish _ _
  | giveUp _ _ hflags => exact hflags ▸ h
  | goOn _ hnoted hflags => exact hflags ▸ (hnoted ▸ h).finish _ _
  | putDown _ hflags => exact hflags ▸ fits_zero

theorem Fits.along (h : n.Fits l.service.flags) (hrun : l.run es = some l') :
    (n.along l es).Fits l'.service.flags := by
  induction es generalizing n l with
  | nil =>
      cases hrun
      exact h
  | cons e es ih =>
      obtain ⟨next, hnext, hrest⟩ := Option.bind_eq_some_iff.1 hrun
      simp only [Tally.along, hnext]
      exact ih (h.step hnext) hrest

end Tally

/-! ## Starts that nothing disturbs -/

/-- No stop comes while a start waits for its first scan, and callers are prepared for what the
scan fails with. -/
def Undisturbed (l : Live ManualWatcher) : Happening → Prop
  | .stop => l.starting = []
  | .resume _ _ (.error cause) => cause.isExpected = true
  | _ => True

/-- At most one start is suspended, and the service is up but for what that one is to do. -/
inductive Orderly : Tally → List Path → Prop
  | down : Orderly ⟨0, 0⟩ []
  | starting (p : Path) : Orderly ⟨1, 0⟩ [p]
  | up : Orderly ⟨1, 1⟩ []

namespace Orderly

variable {n : Tally}

theorem finish {s : WatchService ManualWatcher} (h : (Tally.mk 1 0).Fits s.flags) (d : Disk)
    (p : Path) : Orderly ((Tally.mk 1 0).finish s d p) [] := by
  have hidle : s.watcher.running = false :=
    Bool.eq_false_iff.2 fun hw => absurd (h.watching.1 hw) (Nat.lt_irrefl 0)
  unfold Tally.finish
  rw [hidle]
  cases (d.resolve p).isOk with
  | true => exact .up
  | false => exact .down

theorem eq_down (h : Orderly n l.starting) (hfits : n.Fits l.service.flags)
    (hstopped : l.service.flags.running = false) : n = ⟨0, 0⟩ ∧ l.starting = [] := by
  generalize l.starting = paths at h
  cases h with
  | down => exact ⟨rfl, rfl⟩
  | starting p => simpa [hstopped] using hfits.begun
  | up => simpa [hstopped] using hfits.begun

theorem step (h : Orderly n l.starting) (hfits : n.Fits l.service.flags)
    (hundisturbed : l.Undisturbed e) (hstep : l.step e = some l') :
    Orderly (n.after l e) l'.starting := by
  have hmoves := moves_of_step n hstep
  generalize n.after l e = n' at hmoves ⊢
  cases hmoves with
  | rest _ hstarting => exact hstarting ▸ h
  -- A start only raises the flags of a service that is down.
  | raise hstopped _ hstarting =>
      obtain ⟨rfl, hover⟩ := h.eq_down hfits hstopped
      rw [hstarting, hover]
      exact .starting _
  | reach hstopped hraised _ hstarting =>
      obtain ⟨rfl, hover⟩ := h.eq_down hfits hstopped
      rw [hstarting, hover]
      exact finish (hraised ▸ hfits.begin hstopped) _ _
  | giveUp _ hunexpected =>
      rw [Undisturbed, hunexpected] at hundisturbed
      cases hundisturbed
  | goOn hsuspended hnoted _ hstarting =>
      rw [hstarting]
      generalize l.starting = paths at h hsuspended
      cases h with
      | down => cases hsuspended
      | up => cases hsuspended
      | starting q =>
          obtain rfl := List.mem_singleton.1 hsuspended
          rw [List.erase_cons_head]
          exact finish (hnoted ▸ hfits) _ _
  | putDown _ _ hstarting =>
      rw [hstarting, show l.starting = [] from hundisturbed]
      exact .down

end Orderly

theorem orderly_of_undisturbed {n : Tally} (h : Orderly n l.starting)
    (hfits : n.Fits l.service.flags) (hall : l.Throughout Undisturbed es)
    (hrun : l.run es = some l') : ∃ n, Orderly n l'.starting ∧ n.Fits l'.service.flags :=
  run_induction (I := fun l => ∃ n, Orderly n l.starting ∧ n.Fits l.service.flags)
    (fun _ _ _ ⟨_, horderly, hfits⟩ hundisturbed hstep =>
      ⟨_, horderly.step hfits hundisturbed hstep, hfits.step hstep⟩)
    ⟨n, h, hfits⟩ hall hrun

/-- However starts, stops and all else interleave, a service is attached exactly while it counts
as running.  Its watcher and its debouncer agree with that exactly if each start that has begun
has been at the watcher, and at most one has, since the service was put down last.  That is so
whenever no start is under way, as long as no stop comes while a start waits for its first scan
and no scan fails in a way that callers are not prepared for. -/
theorem flags_run (settings : WatchSettings) (scanner : Scanner TimerId)
    (hrun : (make settings scanner ManualWatcher.idle).run es = some l) :
    l.service.flags.attached = l.service.flags.running ∧
      (l.service.flags.Whole ↔
        (Tally.zero.along (make settings scanner .idle) es).Settled) ∧
      ((make settings scanner .idle).Throughout Undisturbed es →
        l.starting = [] → l.service.flags.Whole) := by
  have hfits := Tally.fits_zero.along hrun
  refine ⟨hfits.attached, hfits.whole_iff, fun hall hover => ?_⟩
  obtain ⟨n, horderly, hn⟩ := orderly_of_undisturbed .down Tally.fits_zero hall hrun
  rw [hover] at horderly
  refine hn.whole_iff.2 ?_
  cases horderly with
  | down => exact ⟨rfl, Nat.zero_le 1⟩
  | up => exact ⟨rfl, Nat.le_refl 1⟩

def eagerLive : Live ManualWatcher :=
  make ⟨.int 50, .bool true⟩ (Scanner.bareScanner "o") .idle

def patientStart : List Happening :=
  [.start Scanner.bareDisk, .resume (Disk.absolute []) Scanner.bareDisk (.ok Scanner.bareReport)]

def hastyStop : List Happening :=
  [.start Scanner.bareDisk, .stop,
    .resume (Disk.absolute []) Scanner.bareDisk (.ok Scanner.bareReport)]

/-- All is up after a start that nothing comes between.  The watcher that a start leaves behind
after a hasty stop is not stopped by another stop. -/
theorem flags_run_hastyStop :
    (∃ l, eagerLive.run patientStart = some l ∧ l.starting = [] ∧
      l.service.flags.running = true ∧ l.service.flags.Whole) ∧
    ∃ l, eagerLive.run hastyStop = some l ∧ l.starting = [] ∧
      Tally.zero.along eagerLive hastyStop = ⟨0, 1⟩ ∧ ¬l.service.flags.Whole ∧
        l.service.flags.watching = true ∧ l.service.stop = l.service := by
  have hpatient : eagerLive.run patientStart = some { eagerLive with
      service := { eagerLive.service with
        running := true
        attached := true
        stats := ⟨0, 1, 0, 0⟩
        debouncer := some (.make (some 50))
        watcher := ⟨true, some .service, some (Disk.absolute []), []⟩ } } := by
    cbv
  have hundisturbed : eagerLive.Throughout Undisturbed patientStart :=
    ⟨trivial, fun _ _ => ⟨trivial, fun _ _ => trivial⟩⟩
  have hhasty : eagerLive.run hastyStop = some { eagerLive with
      service := { eagerLive.service with
        stats := ⟨0, 1, 0, 0⟩
        debouncer := some (.make (some 50))
        watcher := ⟨true, some .service, some (Disk.absolute []), []⟩ } } := by
    cbv
  have htally : Tally.zero.along eagerLive hastyStop = ⟨0, 1⟩ := by
    cbv
  refine ⟨⟨_, hpatient, rfl, rfl, (flags_run _ _ hpatient).2.2 hundisturbed rfl⟩,
    _, hhasty, rfl, htally, fun hwhole => ?_, rfl, rfl⟩
  have hsettled : (Tally.zero.along eagerLive hastyStop).Settled :=
    (flags_run _ _ hhasty).2.1.1 hwhole
  rw [htally] at hsettled
  cases hsettled.level

end Live

end SourceScan
