import SourceScan.Proofs.Disk.Entry
import SourceScan.Proofs.Report.Delivery

/-!
# Reports that could not be written

A report may have no bytes, the file beside the target may be refused or break off, and it may
not take the place of the target or not be removed again.  Whichever of these goes wrong, the
target and all other entries are left as they were, apart from the file beside the target and
from what goes by other names of that file: there the bytes stay that were put in.
-/

namespace SourceScan

open FileTree

/-! ## Disks that differ in a file -/

namespace Disk

variable {d left done : Disk} {p q : Path} {content : Bytes} {place : Place} {put : Option Bytes}

def oneFile (d : Disk) (p q : Path) : Bool :=
  (d.placeOf? p).any fun place => (d.placeOf? q).any (· ∈ d.aliases place)

def faceWith (d : Disk) (p : Path) (put : Option Bytes) (q : Path) : Option FileTree :=
  (d.faceOf? q).map fun t => if d.oneFile p q then t.filled put else t

theorem faceWith_none (d : Disk) (p q : Path) : d.faceWith p none q = d.faceOf? q := by
  simp [faceWith, filled]

theorem faceWith_eq (hp : d.placeOf? p = some place) (put : Option Bytes) (q : Path) :
    d.faceWith p put q = (d.placeOf? q).bind (d.shownWith place put) := by
  rw [faceWith, faceOf?_eq]
  cases hq : d.placeOf? q with
  | none => rfl
  | some last => simp [shownWith, oneFile, hp, hq]

/-- Bytes were put into the file of a path, if any, and what is there has changed since. -/
structure Filled (d : Disk) (p : Path) (put : Option Bytes) (left : Disk) : Prop where
  ways : ∀ q, left.placeOf? q = d.placeOf? q
  shown : ∀ q, (∀ place, d.placeOf? p = some place → d.placeOf? q ≠ some place) →
    left.faceOf? q = d.faceWith p put q
  free : ∀ place, d.placeOf? p = some place → ∀ target, left.tree.at? place ≠ some (.link target)

theorem not_link_of_isLink (hfree : d.isLink p = false) (last : Place) (target : RawText) :
    d.tree.findFrom false linkLimit (d.startOf p) p.names ≠ .ok (last, some (.link target)) := by
  intro hfind
  rw [isLink, find_eq_ok_iff.2 hfind] at hfree
  cases hfree

theorem free_of_isLink (hfree : d.isLink p = false) (hplace : d.placeOf? p = some place)
    (target : RawText) : d.tree.at? place ≠ some (.link target) := by
  intro hlink
  have hfind := placeOf?_eq_some.1 hplace
  rw [hlink] at hfind
  exact not_link_of_isLink hfree place target hfind

theorem filled_refl (hfree : d.isLink p = false) : d.Filled p none d :=
  ⟨fun _ => rfl, fun q _ => (d.faceWith_none p q).symm, fun _ => free_of_isLink hfree⟩

theorem filled_writeFile (hp : p.names ≠ []) (hfree : d.isLink p = false)
    (h : d.writeFile p content = .ok left) : d.Filled p (d.putIn? p content) left := by
  obtain ⟨made, found, hmade, -, hsame, -⟩ := sameBut_writeFile hp h
  have hplace : d.placeOf? p = some made := by
    rw [findFrom_follow (not_link_of_isLink hfree)] at hmade
    exact placeOf?_of_findFrom hmade
  refine ⟨hsame.placeOf?_eq, fun q hq => ?_, fun place hat => ?_⟩
  · rw [faceOf?_eq, hsame.placeOf?_eq, faceWith_eq hplace]
    cases hlast : d.placeOf? q with
    | none => rfl
    | some last =>
        refine shown_of_writeFile hp h hmade fun heq => hq made hplace ?_
        rw [hlast, heq]
  · obtain rfl : made = place := Option.some.inj (hplace.symm.trans hat)
    exact hsame.free' made (sameFile_self d made)

/-- What was put into the file stays under its other names when the path is removed. -/
theorem Filled.unlink (h : d.Filled p put left)
    (hend : ∀ place, d.placeOf? p = some place → ∃ above name, place = above ++ [name])
    (hunlink : left.unlink p = .ok done) : d.Filled p put done ∧ done.faceOf? p = none := by
  cases hplace : d.placeOf? p with
  | none =>
      rcases unlink_ok hunlink with ⟨hfind, rfl⟩ | ⟨place, t, hfind, -, -⟩
      · exact ⟨h, by rw [faceOf?, hfind]; rfl⟩
      · have hsome := placeOf?_of_findFrom (find_eq_ok_iff.1 hfind)
        rw [h.ways, hplace] at hsome
        cases hsome
  | some place =>
      obtain ⟨above, name, rfl⟩ := hend place hplace
      have hplace' := (h.ways p).trans hplace
      obtain ⟨hgone, hnone⟩ := sameBut_unlink hplace' (h.free _ hplace) hunlink
      refine ⟨⟨fun q => (hgone.placeOf?_eq q).trans (h.ways q), fun q hq => ?_,
          fun last hlast => ?_⟩,
        hnone⟩
      · rw [← h.shown q hq]
        refine hgone.faceOf?_eq ?_
        rintro _ rfl heq
        exact hq _ hplace ((h.ways q).symm.trans heq)
      · obtain rfl := Option.some.inj (hplace.symm.trans hlast)
        exact hgone.free' _ rfl

theorem exists_face_of_faceOf? {t : FileTree} (h : d.faceOf? q = some t) :
    ∃ u : FileTree, t = u.face := by
  rw [faceOf?_eq, Option.bind_eq_some_iff] at h
  obtain ⟨place, -, hface⟩ := h
  obtain ⟨u, -, rfl⟩ := Option.map_eq_some_iff.1 hface
  exact ⟨u, rfl⟩

/-- All entries are shown as before exactly if the other names of the file had these bytes. -/
theorem faceWith_eq_faceOf?_iff : (∀ q, (∀ place, d.placeOf? p = some place →
      d.placeOf? q ≠ some place) → d.faceWith p put q = d.faceOf? q) ↔
    ∀ content, put = some content → ∀ q old, d.oneFile p q = true →
      d.faceOf? q = some (.file old) → old = content := by
  constructor
  · rintro h content rfl q old hone hold
    have hother : ∀ place, d.placeOf? p = some place → d.placeOf? q ≠ some place := by
      intro place hp hq
      simp [oneFile, hp, hq, mem_aliases] at hone
    have hsame := h q hother
    simp only [faceWith, hold, hone, if_true, Option.map_some, Option.some.injEq,
      filled_file] at hsame
    exact (FileTree.file.inj hsame).symm
  · intro h q hq
    cases put with
    | none => exact faceWith_none d p q
    | some content =>
    unfold faceWith
    cases hface : d.faceOf? q with
    | none => rfl
    | some t =>
        cases hone : d.oneFile p q with
        | false => simp
        | true =>
            obtain ⟨u, rfl⟩ := exists_face_of_faceOf? hface
            cases u with
            | file old => simp [face, filled_file, h content rfl q old hone hface]
            | _ => simp [face, filled, FileTree.recast, recastAll]

/-! ## The file beside a target -/

variable {target staging : Path}

theorem descend_ne (above : Place) (name : FileName) :
    descend above [name] ≠ above ++ [Path.stagingName name] := by
  intro h
  simp only [descend] at h
  split at h
  · simp at h
  · split at h
    · have hlength := congrArg List.length h
      simp at hlength
    · exact Delivery.stagingName_ne name (by simpa using h.symm)

/-- The file beside a target lies in the directory that the target is looked up in, and is not
the target. -/
theorem exists_beside (h : target.staging? = some staging)
    (hplace : d.placeOf? staging = some place) :
    (∃ above name, place = above ++ [name]) ∧ d.placeOf? target ≠ some place := by
  obtain ⟨rfl, hnames⟩ := Path.eq_of_staging? h
  have hfind := placeOf?_eq_some.1 hplace
  obtain ⟨links, above, hway⟩ := exists_above hfind
  rw [hway] at hfind
  obtain ⟨-, hlast⟩ := findFrom_single_ok hfind
  simp only [descend, Delivery.staysHere_stagingName, Bool.false_eq_true, if_false,
    Delivery.stagingName_ne_dotDot] at hlast
  refine ⟨⟨above, _, hlast⟩, fun htarget => ?_⟩
  have hfound : d.tree.findFrom false linkLimit (d.startOf target)
      (target.names.dropLast ++ [target.name]) = .ok (place, d.tree.at? place) := by
    rw [hnames]
    exact placeOf?_eq_some.1 htarget
  obtain ⟨-, hgoal⟩ := findFrom_single_ok ((hway false target.name).symm.trans hfound)
  exact descend_ne above target.name (hgoal.symm.trans hlast)

end Disk

/-! ## Steps that go wrong -/

inductive Interruption where
  | atOnce (fault : DiskFault)
  /-- The file is there, with a number of bytes in it. -/
  | midway (count : Nat) (fault : DiskFault)
  deriving Repr

/-- What goes wrong with the steps of writing a report, whatever the disk is like.  A fault stands
for any reason that a step may fail for. -/
structure Mishaps where
  serializing : Option ScanError
  writing : Option Interruption
  moving : Option DiskFault
  removing : Option DiskFault
  deriving Repr

namespace Mishaps

def nothing : Mishaps := ⟨none, none, none, none⟩

def payload (m : Mishaps) (r : Report) (target : Path) : Except ScanError Bytes :=
  match m.serializing with
  | some e => .error e
  | none => r.payload target

def writeFile (m : Mishaps) (d : Disk) (p : Path) (content : Bytes) : Disk × Option DiskError :=
  match m.writing with
  | none =>
      match d.writeFile p content with
      | .ok written => (written, none)
      | .error e => (d, some e)
  | some (.atOnce fault) => (d, some ⟨fault, p, none⟩)
  | some (.midway count fault) =>
      match d.writeFile p (content.take count) with
      | .ok written => (written, some ⟨fault, p, none⟩)
      | .error e => (d, some e)

def putIn? (m : Mishaps) (d : Disk) (p : Path) (content : Bytes) : Option Bytes :=
  match m.writing with
  | none => d.putIn? p content
  | some (.atOnce _) => none
  | some (.midway count _) => d.putIn? p (content.take count)

def rename (m : Mishaps) (d : Disk) (p q : Path) : Except DiskError Disk :=
  match m.moving with
  | some fault => .error ⟨fault, p, some q⟩
  | none => d.rename p q

def unlink (m : Mishaps) (d : Disk) (p : Path) : Except DiskError Disk :=
  match m.removing with
  | some fault => .error ⟨fault, p, none⟩
  | none => d.unlink p

def cleanUp (m : Mishaps) (d : Disk) (staging target : Path) (cause : DiskError) :
    Disk × Except ScanError Unit :=
  if cause.fault.number?.isNone then (d, .error (.disk cause))
  else
    match m.unlink d staging with
    | .ok d => (d, .error (.notWritten target cause))
    | .error e => (d, .error (.disk e))

def write (m : Mishaps) (r : Report) (target : Path) (d : Disk) : Disk × Except ScanError Unit :=
  match m.payload r target with
  | .error e => (d, .error e)
  | .ok bytes =>
      match target.staging? with
      | none => (d, .error (.nameless target))
      | some staging =>
          match m.writeFile d staging bytes with
          | (left, some e) => m.cleanUp left staging target e
          | (written, none) =>
              match m.rename written staging target with
              | .error e => m.cleanUp written staging target e
              | .ok done => (done, .ok ())

variable {m : Mishaps} {r : Report} {d left done : Disk} {target staging : Path} {content : Bytes}
  {cause : DiskError} {e : ScanError}

theorem write_nothing (r : Report) (target : Path) (d : Disk) :
    nothing.write r target d = r.write target d := by
  unfold write Report.write
  cases hpayload : r.payload target with
  | error e => simp [payload, nothing, hpayload]
  | ok bytes =>
  cases hstaging : target.staging? with
  | none => simp [payload, nothing, hpayload]
  | some staging =>
  cases hwrite : d.writeFile staging bytes with
  | error e => simp [payload, writeFile, nothing, hpayload, hwrite]; rfl
  | ok written =>
      simp only [payload, writeFile, rename, nothing, hpayload, hwrite]
      cases written.rename staging target <;> rfl

theorem filled_writeFile (m : Mishaps) (hp : staging.names ≠ [])
    (hfree : d.isLink staging = false) (content : Bytes) :
    d.Filled staging (m.putIn? d staging content) (m.writeFile d staging content).1 := by
  have hrefused : ∀ {put : Bytes} {cause : DiskError}, d.writeFile staging put = .error cause →
      d.Filled staging (d.putIn? staging put) d := fun hwrite =>
    Disk.putIn?_of_writeFile_error hwrite ▸ Disk.filled_refl hfree
  unfold writeFile putIn?
  split
  · split
    · next hwrite => exact Disk.filled_writeFile hp hfree hwrite
    · next hwrite => exact hrefused hwrite
  · exact Disk.filled_refl hfree
  · split
    · next hwrite => exact Disk.filled_writeFile hp hfree hwrite
    · next hwrite => exact hrefused hwrite

theorem cleanUp_cases (h : m.cleanUp left staging target cause = (done, .error e)) :
    (left.unlink staging = .ok done ∧ e = .notWritten target cause) ∨
      done = left ∧ ∃ other, e = .disk other ∧
        (other.fault.number? = none ∨ m.unlink left staging = .error other) := by
  unfold cleanUp at h
  split at h
  · next hnumber =>
      cases h
      exact .inr ⟨rfl, cause, rfl, .inl (by simpa using hnumber)⟩
  split at h
  · next hunlink =>
      cases h
      unfold unlink at hunlink
      split at hunlink
      · cases hunlink
      · exact .inl ⟨hunlink, rfl⟩
  · next other hunlink =>
      cases h
      exact .inr ⟨rfl, other, rfl, .inr hunlink⟩

/-- A report that is not written fails before the file beside the target is touched, or ends
with the attempt to remove that file. -/
theorem write_error_cases (h : m.write r target d = (done, .error e)) :
    done = d ∧ (m.payload r target = .error e ∨ target.staging? = none) ∨
      ∃ bytes staging cause, m.payload r target = .ok bytes ∧ target.staging? = some staging ∧
        m.cleanUp (m.writeFile d staging bytes).1 staging target cause = (done, .error e) := by
  unfold write at h
  split at h
  · next hpayload =>
      cases h
      exact .inl ⟨rfl, .inl hpayload⟩
  · next bytes hpayload =>
      split at h
      · next hstaging =>
          cases h
          exact .inl ⟨rfl, .inr hstaging⟩
      · next staging hstaging =>
          refine .inr ⟨bytes, staging, ?_⟩
          split at h
          · next left cause hwrite => exact ⟨cause, hpayload, hstaging, by rw [hwrite]; exact h⟩
          · next written hwrite =>
              split at h
              · next cause hrename => exact ⟨cause, hpayload, hstaging, by rw [hwrite]; exact h⟩
              · cases h

/-- What goes wrong leaves at most the file beside the target, and what was put into it under its
other names. -/
theorem filled_of_cleanUp {put : Option Bytes} (hstaging : target.staging? = some staging)
    (hleft : d.Filled staging put left)
    (h : m.cleanUp left staging target cause = (done, .error e)) :
    d.Filled staging put done ∧
      ((e = .notWritten target cause ∧ done.faceOf? staging = none) ∨
        ∃ other, e = .disk other ∧
          (other.fault.number? = none ∨ m.unlink done staging = .error other)) := by
  rcases cleanUp_cases h with ⟨hunlink, rfl⟩ | ⟨rfl, hstuck⟩
  · obtain ⟨hfilled, hnone⟩ := hleft.unlink
      (fun place hplace => (Disk.exists_beside hstaging hplace).1) hunlink
    exact ⟨hfilled, .inl ⟨rfl, hnone⟩⟩
  · exact ⟨hleft, .inr hstuck⟩

/-- Whichever step of writing a report goes wrong, and however far it got, the entries of all paths
but the one beside the target are as they were, unless they are other names of the file there: these
hold the bytes that got into it, the target too.  So nothing else has changed exactly if there were
no other names with other bytes.  The file beside the target is untouched if the report has no bytes
or the target no name, and otherwise nothing is left of it unless it cannot be removed. -/
theorem entries_of_write_error
    (hfree : ∀ staging, target.staging? = some staging → d.isLink staging = false)
    (h : m.write r target d = (done, .error e)) :
    (m.payload r target = .error e ∨ target.staging? = none → done = d) ∧
      ∀ bytes staging, m.payload r target = .ok bytes → target.staging? = some staging →
        done.faceOf? target = d.faceWith staging (m.putIn? d staging bytes) target ∧
        (∀ p, (∀ place, d.placeOf? staging = some place → d.placeOf? p ≠ some place) →
          done.faceOf? p = d.faceWith staging (m.putIn? d staging bytes) p) ∧
        ((∀ p, (∀ place, d.placeOf? staging = some place → d.placeOf? p ≠ some place) →
            done.faceOf? p = d.faceOf? p) ↔
          ∀ content, m.putIn? d staging bytes = some content → ∀ p old,
            d.oneFile staging p = true → d.faceOf? p = some (.file old) → old = content) ∧
        ((∃ cause, e = .notWritten target cause ∧ done.faceOf? staging = none) ∨
          ∃ cause, e = .disk cause ∧
            (cause.fault.number? = none ∨ m.unlink done staging = .error cause)) := by
  rcases write_error_cases h with ⟨rfl, hearly⟩ | ⟨bytes, staging, cause, hbytes, hstaging, hclean⟩
  · refine ⟨fun _ => rfl, fun bytes staging hbytes hstaging => ?_⟩
    rcases hearly with hpayload | hnone
    · cases hbytes.symm.trans hpayload
    · cases hstaging.symm.trans hnone
  · have hnames : staging.names ≠ [] := by
      simp [(Path.eq_of_staging? hstaging).1]
    obtain ⟨hfilled, hend⟩ := filled_of_cleanUp hstaging
      (m.filled_writeFile hnames (hfree staging hstaging) bytes) hclean
    refine ⟨?_, fun other beside hother hbeside => ?_⟩
    · rintro (hpayload | hnone)
      · cases hbytes.symm.trans hpayload
      · cases hstaging.symm.trans hnone
    · obtain rfl := Except.ok.inj (hbytes.symm.trans hother)
      obtain rfl := Option.some.inj (hstaging.symm.trans hbeside)
      refine ⟨hfilled.shown target fun place hplace => (Disk.exists_beside hstaging hplace).2,
        hfilled.shown, ?_, hend.imp_left fun h => ⟨cause, h⟩⟩
      rw [← Disk.faceWith_eq_faceOf?_iff]
      exact forall₂_congr fun p hp => by rw [hfilled.shown p hp]

/-! ## A write that breaks off -/

def brokenOff : Mishaps := ⟨none, some (.midway 1 .inputOutput), none, none⟩

def oldTarget : Path := ⟨1, [[.char 'o']]⟩

def besideOld : Path := ⟨1, [Path.stagingName [.char 'o']]⟩

def otherName : Path := ⟨1, [[.char 'v']]⟩

def blankReport : Report := ⟨[], 0, ⟨⟨2024, 1, 2⟩, 3, 4, 5, 0, some 0⟩, [], [], false, false⟩

/-- The file beside the target goes by a second name. -/
def begunDisk (content : Bytes) : Disk :=
  ⟨.dir [([.char 'o'], .file [7]), (Path.stagingName [.char 'o'], .file content),
    ([.char 'v'], .file content)], [], [], [[besideOld.names, otherName.names]]⟩

def brokenDisk (content : Bytes) : Disk :=
  ⟨.dir [([.char 'o'], .file [7]), ([.char 'v'], .file content)], [], [], [[otherName.names]]⟩

theorem write_brokenOff (content : Bytes) :
    brokenOff.write blankReport oldTarget (begunDisk content) =
      (brokenDisk [123], .error (.notWritten oldTarget ⟨.inputOutput, besideOld, none⟩)) := by
  have hpayload : (brokenOff.payload blankReport oldTarget).toOption.map (·.take 1) =
      some [123] := by
    decide +kernel
  have hstaging : oldTarget.staging? = some besideOld := by cbv
  have hwrite : ∀ new, (begunDisk content).writeFile besideOld new = .ok (begunDisk new) := by
    intro new
    cbv
  have hunlink : ∀ new, (begunDisk new).unlink besideOld = .ok (brokenDisk new) := by
    intro new
    cbv
  cases hbytes : brokenOff.payload blankReport oldTarget with
  | error e => simp [hbytes, Except.toOption] at hpayload
  | ok bytes =>
      have hfirst : bytes.take 1 = [123] := by simpa [hbytes, Except.toOption] using hpayload
      unfold write
      rw [hbytes]
      simp only [hstaging, writeFile, brokenOff, hwrite, cleanUp, unlink, hunlink, hfirst]
      rfl

/-- Of a file that was there before and was written anew nothing is left but under its other name,
where its bytes are lost. -/
theorem entries_of_write_error_brokenOff : ∃ done e,
    brokenOff.write blankReport oldTarget (begunDisk [9]) = (done, .error e) ∧
      (begunDisk [9]).faceOf? oldTarget = some (.file [7]) ∧
      done.faceOf? oldTarget = some (.file [7]) ∧ done.faceOf? besideOld = none ∧
      (begunDisk [9]).faceOf? otherName = some (.file [9]) ∧
      done.faceOf? otherName = some (.file [123]) := by
  have hstaging : oldTarget.staging? = some besideOld := by cbv
  have hfree : ∀ staging, oldTarget.staging? = some staging →
      (begunDisk [9]).isLink staging = false := by
    intro staging h
    cases hstaging.symm.trans h
    cbv
  have hpayload : (brokenOff.payload blankReport oldTarget).toOption.map (·.take 1) =
      some [123] := by
    decide +kernel
  cases hbytes : brokenOff.payload blankReport oldTarget with
  | error e => simp [hbytes, Except.toOption] at hpayload
  | ok bytes =>
      have hfirst : bytes.take 1 = [123] := by simpa [hbytes, Except.toOption] using hpayload
      have hput : brokenOff.putIn? (begunDisk [9]) besideOld bytes = some [123] := by
        rw [← hfirst]
        exact if_pos (by cbv)
      obtain ⟨-, hlate⟩ := entries_of_write_error hfree (write_brokenOff [9])
      obtain ⟨htarget, hothers, -⟩ := hlate bytes besideOld hbytes hstaging
      rw [hput] at htarget hothers
      have hvictim := hothers otherName fun place hplace => by
        rw [show (begunDisk [9]).placeOf? besideOld = some besideOld.names by cbv] at hplace
        rw [show (begunDisk [9]).placeOf? otherName = some otherName.names by cbv, ← hplace]
        decide
      exact ⟨_, _, write_brokenOff [9], by cbv, htarget.trans (by cbv), by cbv, by cbv,
        hvictim.trans (by cbv)⟩

end Mishaps

end SourceScan
