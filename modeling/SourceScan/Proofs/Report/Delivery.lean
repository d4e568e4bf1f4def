import SourceScan.Proofs.Disk.Written
import SourceScan.Report.Artifact

/-!
# The way of a report to its target

A report that is written leaves its trace at three places: where the file beside the
target is made, where that file is moved from, and where it is moved to.  Links may take
each of them elsewhere.  If the target lies in a directory that is spelled without links
and dots, and the file beside it is no link, the places are the ones that are spelled.
-/

namespace SourceScan

open FileTree Disk

def Path.stagingName (name : FileName) : FileName :=
  dot :: name ++ RawText.ofText (".tmp" : Text)

theorem Path.eq_of_staging? {target staging : Path} (h : target.staging? = some staging) :
    staging = ⟨target.slashes, target.names.dropLast ++ [Path.stagingName target.name]⟩ ∧
      target.names.dropLast ++ [target.name] = target.names := by
  unfold Path.staging? Path.withName? at h
  split at h
  · cases h
  · next hname =>
      refine ⟨(Option.some.inj h).symm, ?_⟩
      rcases List.eq_nil_or_concat' target.names with hnil | ⟨above, name, hnames⟩
      · simp [Path.name, hnil] at hname
      · simp [Path.name, hnames]

/-- A report that was written to its target, with the places this went through. -/
structure Delivery (report : Report) (target : Path) (d done : Disk) where
  content : Bytes
  staging : Path
  /-- The disk between writing and moving. -/
  written : Disk
  made : Place
  source : Place
  goal : Place
  payload : report.payload target = .ok content
  beside : target.staging? = some staging
  write : d.writeFile staging content = .ok written
  rename : written.rename staging target = .ok done
  made_found : ∃ found,
    d.tree.findFrom true linkLimit (d.startOf staging) staging.names = .ok (made, found)
  source_found : ∃ moved,
    written.tree.find false (written.startOf staging) staging.names = .ok (source, moved)
  goal_found : ∃ found,
    written.tree.findFrom false linkLimit (written.startOf target) target.names =
      .ok (goal, found)

namespace Delivery

variable {report : Report} {target : Path} {d done : Disk}

theorem of_write (h : report.write target d = (done, .ok ())) :
    Nonempty (Delivery report target d done) := by
  unfold Report.write at h
  cases hpayload : report.payload target with
  | error e => simp [hpayload] at h
  | ok content =>
  cases hbeside : target.staging? with
  | none => simp [hpayload, hbeside] at h
  | some staging =>
  have hclean : ∀ (d' : Disk) (e : DiskError),
      Report.cleanUp d' staging target e ≠ (done, .ok ()) := by
    intro d' e heq
    unfold Report.cleanUp at heq
    split at heq
    · simp at heq
    · split at heq <;> simp at heq
  cases hwrite : d.writeFile staging content with
  | error e =>
      simp only [hpayload, hbeside, hwrite] at h
      exact absurd h (hclean d e)
  | ok written =>
  cases hrename : written.rename staging target with
  | error e =>
      simp only [hpayload, hbeside, hwrite, hrename] at h
      exact absurd h (hclean written e)
  | ok moved =>
  simp only [hpayload, hbeside, hwrite, hrename, Prod.mk.injEq, and_true] at h
  subst h
  obtain ⟨made, found, hmade, -⟩ := writeFile_ok hwrite
  obtain ⟨source, file, goal, there, hsource, hgoal, -⟩ := rename_ok hrename
  exact ⟨content, staging, written, made, source, goal, hpayload, hbeside, hwrite, hrename,
    ⟨found, hmade⟩, ⟨file, hsource⟩, ⟨there, hgoal⟩⟩

def places (out : Delivery report target d done) : List Place :=
  [out.made, out.source, out.goal]

theorem staging_eq (out : Delivery report target d done) :
    out.staging = ⟨target.slashes, target.names.dropLast ++ [Path.stagingName target.name]⟩ := by
  exact (Path.eq_of_staging? out.beside).1

theorem slash_not_mem_stagingName {name : FileName} (h : Path.slash ∉ name) :
    Path.slash ∉ Path.stagingName name := by
  simp [Path.stagingName, RawText.ofText, Path.dot, Path.slash] at h ⊢
  exact h

theorem names_staging (out : Delivery report target d done) : out.staging.names ≠ [] := by
  simp [out.staging_eq]

theorem isEntryName_of_mem_places (out : Delivery report target d done)
    (hd : d.tree.wellFormed = true) (habsolute : target.isAbsolute = true)
    (hslash : ∀ name ∈ target.names, Path.slash ∉ name) :
    ∀ place ∈ out.places, ∀ name ∈ place, isEntryName name = true := by
  obtain ⟨found, hmade⟩ := out.made_found
  obtain ⟨moved, hsource⟩ := out.source_found
  obtain ⟨there, hgoal⟩ := out.goal_found
  have hlast : Path.slash ∉ target.name := by
    unfold Path.name
    cases hname : target.names.getLast? with
    | none => simp
    | some name => exact hslash name (List.mem_of_getLast? hname)
  have hstaging : ∀ name ∈ out.staging.names, Path.slash ∉ name ∧ Path.null ∉ name := by
    intro name hname
    refine ⟨?_, null_not_mem_of_fault? (fault?_of_writeFile out.write) hname⟩
    rw [out.staging_eq] at hname
    rcases List.mem_append.1 hname with hname | hname
    · exact hslash name (List.mem_of_mem_dropLast hname)
    · rw [List.mem_singleton.1 hname]
      exact slash_not_mem_stagingName hlast
  have htarget : ∀ name ∈ target.names, Path.slash ∉ name ∧ Path.null ∉ name := fun name hname =>
    ⟨hslash name hname, null_not_mem_of_fault? (rename_eq_ok_iff.1 out.rename).1.2 hname⟩
  -- The links of the two disks are the same.
  have hlinks : ∀ q link, d.tree.at? q = some (.link link) → Path.null ∉ link :=
    fun q link hat => null_not_mem_of_link hd hat
  obtain ⟨_, _, -, -, hsame, -⟩ := sameBut_writeFile out.names_staging out.write
  have hlinks' : ∀ q link, out.written.tree.at? q = some (.link link) → Path.null ∉ link :=
    fun q link hat => hlinks q link (hsame.symm.link hat)
  have habove : out.staging.isAbsolute = true := by
    rw [out.staging_eq]
    exact habsolute
  -- All three are looked up from the top.
  have htop : ∀ name ∈ ([] : Place), isEntryName name = true := by simp
  simp only [startOf, habsolute, habove, if_true] at hmade hsource hgoal
  simp only [places, List.forall_mem_cons, List.not_mem_nil, false_implies, implies_true,
    and_true]
  exact ⟨isEntryName_of_findFrom hlinks htop hstaging hmade,
    isEntryName_of_findFrom hlinks' htop hstaging (find_eq_ok_iff.1 hsource),
    isEntryName_of_findFrom hlinks' htop htarget hgoal⟩

/-! ## Targets that are spelled as they lie on the disk -/

section Real

variable {place : Place} {name : FileName} {children : List (FileName × FileTree)}

theorem staysHere_stagingName : staysHere (Path.stagingName name) = false := by
  simp [staysHere, Path.stagingName, RawText.ofText]

theorem stagingName_ne_dotDot : Path.stagingName name ≠ Path.dotDot := by
  intro h
  have hlength := congrArg List.length h
  simp [Path.stagingName, Path.dotDot, RawText.ofText] at hlength

theorem stagingName_ne (name : FileName) : Path.stagingName name ≠ name := by
  intro h
  have hlength := congrArg List.length h
  simp [Path.stagingName, RawText.ofText] at hlength
  omega

theorem staging_absolute (out : Delivery report (absolute (place ++ [name])) d done) :
    out.staging = absolute (place ++ [Path.stagingName name]) := by
  rw [out.staging_eq]
  simp [absolute, Path.name]

theorem hasOwnName (out : Delivery report target d done) : Disk.hasOwnName target = true := by
  obtain ⟨-, -, -, -, -, -, h, -⟩ := rename_ok out.rename
  exact h

theorem ne_dotDot (out : Delivery report (absolute (place ++ [name])) d done) :
    name ≠ Path.dotDot := by
  have hown := out.hasOwnName
  simp only [Disk.hasOwnName, Bool.and_eq_true, decide_eq_true_eq] at hown
  simpa [absolute, Path.name] using hown.2

theorem places_of_real (out : Delivery report (absolute (place ++ [name])) d done)
    (hd : d.tree.wellFormed = true) (hdir : d.tree.at? place = some (.dir children))
    (hhere : staysHere name = false)
    (hfree : ∀ link, d.tree.at? (place ++ [Path.stagingName name]) ≠ some (.link link)) :
    out.made = place ++ [Path.stagingName name] ∧
      out.source = place ++ [Path.stagingName name] ∧ out.goal = place ++ [name] ∧
      (Utf8.encodeLenient name).length ≤ nameLimit ∧
      (Utf8.encodeLenient (Path.stagingName name)).length ≤ nameLimit := by
  have hnames := isEntryName_of_mem hd hdir
  obtain ⟨children', hwritten⟩ := directory_writeFile out.write hdir
  obtain ⟨found, hmade⟩ := out.made_found
  obtain ⟨moved, hsource⟩ := out.source_found
  obtain ⟨there, hgoal⟩ := out.goal_found
  rw [out.staging_absolute] at hmade hsource
  obtain ⟨hmade, hlength⟩ := findFrom_entry hnames hdir staysHere_stagingName
    stagingName_ne_dotDot (.inr hfree) hmade
  obtain ⟨hsource, -⟩ := findFrom_entry hnames hwritten staysHere_stagingName
    stagingName_ne_dotDot (.inl rfl) (find_eq_ok_iff.1 hsource)
  obtain ⟨hgoal, hshort⟩ := findFrom_entry hnames hwritten hhere out.ne_dotDot (.inl rfl) hgoal
  exact ⟨hmade, hsource, hgoal, hshort, hlength⟩

theorem not_directory (out : Delivery report (absolute place) d done)
    (hd : d.tree.wellFormed = true) : d.tree.at? place ≠ some (.dir children) := by
  intro hdir
  rcases List.eq_nil_or_concat' place with rfl | ⟨parent, name, rfl⟩
  · have hbeside := out.beside
    simp [absolute, Path.staging?, Path.withName?, Path.name] at hbeside
  · obtain ⟨hhere, hdots, -⟩ := isEntryName_iff.1 (isEntryName_of_at? hd hdir)
    obtain ⟨entries, habove, -⟩ := directory_of_at?_snoc hdir
    have hnames := isEntryName_of_mem hd habove
    obtain ⟨children', hwritten⟩ := directory_writeFile out.write hdir
    obtain ⟨entries', habove', -⟩ := directory_of_at?_snoc hwritten
    obtain ⟨-, -, goal, found, -, hgoal, -, hfile⟩ := rename_ok out.rename
    obtain ⟨rfl, -⟩ := findFrom_entry hnames habove' hhere hdots (.inl rfl) hgoal
    rw [at?_of_findFrom hgoal] at hwritten
    cases hfile _ hwritten

end Real

end Delivery

end SourceScan
