import SourceScan.Proofs.Disk.Entry
import SourceScan.Proofs.Report.Delivery

/-!
# Errors that escape from writing a report

Callers are prepared for a report that has no bytes or could not be written.  Four errors are
of another kind: the time of the report cannot be told, the target has no name, the path beside
it is one that no file can have, and the file beside the target cannot be removed after it could
not be written.
-/

namespace SourceScan

open FileTree

def ScanError.isOutput : ScanError → Bool
  | .notSerialized _ | .notWritten .. => true
  | _ => false

/-! ## Removing what was written -/

namespace Disk

theorem number?_of_findFrom {root : FileTree} {follow : Bool} {links : Nat} {place : Place}
    {names : List FileName} {fault : DiskFault}
    (h : root.findFrom follow links place names = .error fault) :
    fault.number?.isNone = false := by
  cases fault with
  | nullByte => exact absurd h (findFrom_ne_nullByte root follow links place names)
  | _ => rfl

theorem number?_of_find {root : FileTree} {follow : Bool} {place : Place}
    {names : List FileName} {fault : DiskFault}
    (h : root.find follow place names = .error fault) : fault.number?.isNone = false := by
  unfold find at h
  cases hfind : root.findFrom follow linkLimit place names with
  | error other =>
      rw [hfind] at h
      cases h
      exact number?_of_findFrom hfind
  | ok r =>
      obtain ⟨last, found⟩ := r
      rw [hfind] at h
      cases found <;> cases h
      rfl

variable {d written : Disk} {p q : Path} {content : Bytes} {last : Place}
  {found : Option FileTree} {cause : DiskError}

theorem exists_unlink (hfault : p.fault? = none)
    (hfind : d.tree.findFrom false linkLimit (d.startOf p) p.names = .ok (last, found))
    (hfile : ∀ t, found = some t → t.isDirectory = false) : ∃ done, d.unlink p = .ok done := by
  cases found with
  | none =>
      refine ⟨d, ?_⟩
      have hnone : d.tree.find false (d.startOf p) p.names = .error .noEntry := by
        rw [find, hfind]
        rfl
      rw [unlink, heed_of_fault?_eq_none hfault, hnone]
  | some t =>
      refine ⟨d.without last, ?_⟩
      rw [unlink, heed_of_fault?_eq_none hfault, find_eq_ok_iff.2 hfind]
      cases t with
      | dir children => cases hfile _ rfl
      | file content => rfl
      | link target => rfl
      | pipe => rfl

/-- A path cannot be removed if it is not fit for a file, if a directory is there, or if it cannot
be followed to its end. -/
theorem unlink_error_iff : d.unlink p = .error cause ↔
    (∃ fault, p.fault? = some fault ∧ cause = ⟨fault, p, none⟩) ∨
    p.fault? = none ∧
      ((∃ place children, d.tree.find false (d.startOf p) p.names = .ok (place, .dir children) ∧
        cause = ⟨.isDirectory, p, none⟩) ∨
      ∃ fault, d.tree.find false (d.startOf p) p.names = .error fault ∧ fault ≠ .noEntry ∧
        cause = ⟨fault, p, none⟩) := by
  cases hfault : p.fault? with
  | some fault =>
      rw [unlink_of_fault hfault]
      simp [eq_comm]
  | none =>
  simp only [reduceCtorEq, false_and, exists_false, true_and, false_or]
  unfold unlink
  rw [heed_of_fault?_eq_none hfault]
  constructor
  · intro h
    split at h
    · next place children hfind =>
        cases h
        exact .inl ⟨place, children, hfind, rfl⟩
    · cases h
    · cases h
    · next fault hmissing hfind =>
        cases h
        exact .inr ⟨fault, hfind, fun heq => hmissing heq, rfl⟩
  · rintro (⟨place, children, hfind, rfl⟩ | ⟨fault, hfind, hmissing, rfl⟩)
    · rw [hfind]
    · rw [hfind]
      split
      · next heq => cases heq
      · next heq => cases heq
      · next heq => exact absurd (Except.error.inj heq) hmissing
      · next heq => rw [Except.error.inj heq]

/-- The system was asked for a path that is fit for a file. -/
theorem number?_of_writeFile (hfault : p.fault? = none)
    (h : d.writeFile p content = .error cause) : cause.fault.number?.isNone = false := by
  unfold writeFile blame at h
  rw [heed_of_fault?_eq_none hfault] at h
  cases hfind : d.tree.findFrom true linkLimit (d.startOf p) p.names with
  | error fault =>
      simp only [hfind, Except.mapError, bind, Except.bind, Except.error.injEq] at h
      subst h
      exact number?_of_findFrom hfind
  | ok r =>
      obtain ⟨place, found⟩ := r
      rcases found with _ | (_ | _ | _ | _) <;>
        simp [hfind, Except.mapError, bind, Except.bind, pure, Except.pure, throw, throwThe,
          MonadExceptOf.throw] at h
      subst h
      rfl

theorem number?_of_rename (hp : p.fault? = none) (hq : q.hasNull = false)
    (h : d.rename p q = .error cause) : cause.fault.number?.isNone = false := by
  unfold rename at h
  simp only [hq, hp, Option.none_or, Bool.false_eq_true, if_false] at h
  cases hfault : q.fault? with
  | some fault =>
      simp only [hfault, throw, throwThe, MonadExceptOf.throw, bind, Except.bind] at h
      cases h
      rcases eq_of_fault?_eq_some hfault with rfl | rfl
      · simp [Path.fault?, hq] at hfault
      · rfl
  | none =>
  cases hsource : d.tree.find false (d.startOf p) p.names with
  | error fault =>
      simp only [hfault, hsource, Except.mapError, bind, Except.bind] at h
      cases h
      exact number?_of_find hsource
  | ok r =>
  obtain ⟨source, moved⟩ := r
  cases hgoal : d.tree.findFrom false linkLimit (d.startOf q) q.names with
  | error fault =>
      simp only [hfault, hsource, hgoal, Except.mapError, bind, Except.bind] at h
      cases h
      exact number?_of_findFrom hgoal
  | ok r =>
  obtain ⟨goal, found⟩ := r
  simp only [hfault, hsource, hgoal, Except.mapError, bind, Except.bind, pure, Except.pure, throw,
    throwThe, MonadExceptOf.throw] at h
  split at h
  · cases h
    rfl
  · rcases found with _ | (_ | _ | _ | _) <;> simp only at h <;>
      first
      | (split at h <;> cases h)
      | (cases h; rfl)

/-- A path that can be written does not lead to a directory, not even without its last link. -/
theorem exists_file_of_writeFile (h : d.writeFile p content = .ok written) :
    ∃ last found, d.tree.findFrom false linkLimit (d.startOf p) p.names = .ok (last, found) ∧
      ∀ t, found = some t → t.isDirectory = false := by
  by_cases hlink : ∃ last target,
      d.tree.findFrom false linkLimit (d.startOf p) p.names = .ok (last, some (.link target))
  · obtain ⟨last, target, hfind⟩ := hlink
    refine ⟨last, _, hfind, fun t ht => ?_⟩
    cases ht
    rfl
  · simp only [not_exists] at hlink
    obtain ⟨made, found, hmade, hfile, -⟩ := writeFile_ok h
    exact ⟨made, found, findFrom_follow hlink ▸ hmade, hfile⟩

theorem exists_unlink_written (hp : p.names ≠ []) (h : d.writeFile p content = .ok written) :
    ∃ done, written.unlink p = .ok done := by
  obtain ⟨last, found, hfind, hfile⟩ := exists_file_of_writeFile h
  obtain ⟨_, -, -, -, hsame, -⟩ := sameBut_writeFile hp h
  refine exists_unlink (fault?_of_writeFile h) (hsame.findFrom_ok hfind) fun t hat => ?_
  cases t with
  | dir children =>
      obtain ⟨entries, hdir⟩ := hsame.symm.alike.directory hat
      rw [at?_of_findFrom hfind] at hdir
      cases hfile _ hdir
  | file content => rfl
  | link target => rfl
  | pipe => rfl

end Disk

namespace Report

variable {r : Report} {target staging : Path} {d : Disk} {e : ScanError} {cause : DiskError}
  {bytes : Bytes}

/-- The errors for which the callers are not prepared, each with what brings it about. -/
inductive Escapes (r : Report) (target : Path) (d : Disk) : ScanError → Prop
  | time (h : r.payload target = .error .timeOutOfRange) : Escapes r target d .timeOutOfRange
  | nameless {bytes : Bytes} (h : r.payload target = .ok bytes)
      (hname : target.staging? = none) : Escapes r target d (.nameless target)
  /-- The path of the file beside the target has a null byte in it, or too many bytes. -/
  | unfit {bytes : Bytes} {staging : Path} {fault : DiskFault} (h : r.payload target = .ok bytes)
      (hstaging : target.staging? = some staging) (hfault : staging.fault? = some fault) :
      Escapes r target d (.disk ⟨fault, staging, none⟩)
  /-- There is a directory in the place of the file beside the target. -/
  | directory {bytes : Bytes} {staging : Path} {place : Place}
      {children : List (FileName × FileTree)} (h : r.payload target = .ok bytes)
      (hstaging : target.staging? = some staging) (hfit : staging.fault? = none)
      (hfind : d.tree.find false (d.startOf staging) staging.names =
        .ok (place, .dir children)) : Escapes r target d (.disk ⟨.isDirectory, staging, none⟩)
  /-- The path of the file beside the target goes through something that is no directory or through
  too many links, or a name is too long. -/
  | unreachable {bytes : Bytes} {staging : Path} {fault : DiskFault}
      (h : r.payload target = .ok bytes) (hstaging : target.staging? = some staging)
      (hfit : staging.fault? = none)
      (hfind : d.tree.find false (d.startOf staging) staging.names = .error fault)
      (hmissing : fault ≠ .noEntry) : Escapes r target d (.disk ⟨fault, staging, none⟩)

theorem payload_error (h : r.payload target = .error e) :
    e = .timeOutOfRange ∨ e.isOutput = true := by
  unfold payload at h
  split at h
  · cases h
    exact .inl rfl
  · cases h
    exact .inr rfl
  · next s _ =>
      cases hencode : Utf8.encodeStrict s with
      | error other =>
          rw [hencode] at h
          cases h
          exact .inr rfl
      | ok bytes =>
          rw [hencode] at h
          cases h

theorem hasNull_of_staging (hstaging : target.staging? = some staging)
    (hfit : staging.fault? = none) : target.hasNull = false := by
  obtain ⟨rfl, hnames⟩ := Path.eq_of_staging? hstaging
  rw [Path.hasNull, ← hnames, List.any_eq_false]
  intro name hname hnull
  rcases List.mem_append.1 hname with hname | hname
  · exact Disk.null_not_mem_of_fault? hfit (List.mem_append_left _ hname) (by simpa using hnull)
  · have hlast := Disk.null_not_mem_of_fault? hfit (List.mem_append_right _ (.head _))
    rw [List.mem_singleton.1 hname] at hnull
    simp [Path.stagingName] at hlast hnull
    exact hlast.2.1 hnull

theorem write_of_stuck (hbytes : r.payload target = .ok bytes)
    (hstaging : target.staging? = some staging) (hunlink : d.unlink staging = .error cause) :
    r.write target d = (d, .error (.disk cause)) := by
  have hcause : ∃ other, d.writeFile staging bytes = .error other ∧
      (other.fault.number?.isNone = true → other = cause) := by
    cases hfault : staging.fault? with
    | some fault =>
        obtain rfl := Except.error.inj ((Disk.unlink_of_fault hfault).symm.trans hunlink)
        exact ⟨_, Disk.writeFile_of_fault hfault bytes, fun _ => rfl⟩
    | none =>
    cases hwrite : d.writeFile staging bytes with
    | error other =>
        refine ⟨other, rfl, fun hnone => ?_⟩
        rw [Disk.number?_of_writeFile hfault hwrite] at hnone
        cases hnone
    | ok written =>
        obtain ⟨last, found, hfind, hfile⟩ := Disk.exists_file_of_writeFile hwrite
        obtain ⟨done, hdone⟩ := Disk.exists_unlink hfault hfind hfile
        cases hdone.symm.trans hunlink
  obtain ⟨other, hwrite, hother⟩ := hcause
  unfold write
  simp only [hbytes, hstaging, hwrite, cleanUp, hunlink]
  split
  · next hnone => rw [hother hnone]
  · rfl

theorem cleanUp_of_unlink {done : Disk} (hnumber : cause.fault.number?.isNone = false)
    (h : d.unlink staging = .ok done) :
    cleanUp d staging target cause = (done, .error (.notWritten target cause)) := by
  rw [cleanUp, hnumber, h]
  rfl

theorem escapes_of_stuck (hbytes : r.payload target = .ok bytes)
    (hstaging : target.staging? = some staging) (hunlink : d.unlink staging = .error cause) :
    r.Escapes target d (.disk cause) := by
  rcases Disk.unlink_error_iff.1 hunlink with
    ⟨fault, hfault, rfl⟩ | ⟨hfit, ⟨place, children, hfind, rfl⟩ | ⟨fault, hfind, hmissing, rfl⟩⟩
  · exact .unfit hbytes hstaging hfault
  · exact .directory hbytes hstaging hfit hfind
  · exact .unreachable hbytes hstaging hfit hfind hmissing

/-- Where the file beside the target can be removed, every fault of the system becomes an error
that callers are prepared for. -/
theorem isOutput_of_unlink {done : Disk} (hbytes : r.payload target = .ok bytes)
    (hstaging : target.staging? = some staging) (hunlink : d.unlink staging = .ok done)
    (h : (r.write target d).2 = .error e) : e.isOutput = true := by
  have hfit : staging.fault? = none := by
    cases hfault : staging.fault? with
    | none => rfl
    | some fault => cases (Disk.unlink_of_fault hfault).symm.trans hunlink
  cases hwrite : d.writeFile staging bytes with
  | error cause =>
      simp only [write, hbytes, hstaging, hwrite,
        cleanUp_of_unlink (Disk.number?_of_writeFile hfit hwrite) hunlink] at h
      cases h
      rfl
  | ok written =>
  cases hrename : written.rename staging target with
  | error cause =>
      -- What has been written can be removed again, so the fault is that of the move.
      have hnames : staging.names ≠ [] := by
        simp [(Path.eq_of_staging? hstaging).1]
      obtain ⟨_, hremoved⟩ := Disk.exists_unlink_written hnames hwrite
      have hnumber := Disk.number?_of_rename hfit (hasNull_of_staging hstaging hfit) hrename
      simp only [write, hbytes, hstaging, hwrite, hrename,
        cleanUp_of_unlink hnumber hremoved] at h
      cases h
      rfl
  | ok done =>
      simp only [write, hbytes, hstaging, hwrite, hrename] at h
      cases h

/-- An error escapes from writing a report exactly if the time of the report is out of range, the
target has no name, or the file beside the target can neither be written nor removed. -/
theorem write_escapes_iff :
    (r.write target d).2 = .error e ∧ e.isOutput = false ↔ r.Escapes target d e := by
  constructor
  · rintro ⟨h, hkind⟩
    cases hpayload : r.payload target with
    | error other =>
        simp only [write, hpayload, Except.error.injEq] at h
        subst h
        rcases payload_error hpayload with rfl | hother
        · exact .time hpayload
        · cases hkind.symm.trans hother
    | ok bytes =>
    cases hstaging : target.staging? with
    | none =>
        simp only [write, hpayload, hstaging, Except.error.injEq] at h
        subst h
        exact .nameless hpayload hstaging
    | some staging =>
    cases hunlink : d.unlink staging with
    | error other =>
        have hstuck := congrArg Prod.snd (write_of_stuck hpayload hstaging hunlink)
        rw [h] at hstuck
        cases hstuck
        exact escapes_of_stuck hpayload hstaging hunlink
    | ok done => cases hkind.symm.trans (isOutput_of_unlink hpayload hstaging hunlink h)
  · intro h
    cases h with
    | time hpayload =>
        unfold write
        exact ⟨by rw [hpayload], rfl⟩
    | nameless hpayload hname =>
        unfold write
        exact ⟨by simp only [hpayload, hname], rfl⟩
    | unfit hpayload hstaging hfault =>
        exact ⟨by rw [write_of_stuck hpayload hstaging (Disk.unlink_of_fault hfault)], rfl⟩
    | directory hpayload hstaging hfit hfind =>
        have hunlink := Disk.unlink_error_iff.2 (.inr ⟨hfit, .inl ⟨_, _, hfind, rfl⟩⟩)
        exact ⟨by rw [write_of_stuck hpayload hstaging hunlink], rfl⟩
    | unreachable hpayload hstaging hfit hfind hmissing =>
        have hunlink := Disk.unlink_error_iff.2 (.inr ⟨hfit, .inr ⟨_, hfind, hmissing, rfl⟩⟩)
        exact ⟨by rw [write_of_stuck hpayload hstaging hunlink], rfl⟩

end Report

end SourceScan
