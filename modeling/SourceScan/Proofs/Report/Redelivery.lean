import SourceScan.Proofs.Disk.Replace
import SourceScan.Proofs.Report.Delivery

/-!
# Writing a report again

On a disk without links a report that is written changes two places of one directory: the
file beside the target is gone afterwards, and the target is there.  So there is nothing in
the way of another report that is written to the same target.
-/

namespace SourceScan

open FileTree Disk

namespace Disk

variable {d d' d'' done : Disk} {hidden hidden' : Place → Prop} {place : Place}
  {name : FileName} {new : FileTree} {children : List (FileName × FileTree)}

namespace Twins

theorem setShared (h : Twins hidden d d') (shared shared' : List (List Place)) :
    Twins hidden (d.setShared shared) (d'.setShared shared') :=
  ⟨h.wellFormed, h.wellFormed', h.linkFree, h.linkFree', h.workingDirectory, h.refusals, h.alike⟩

theorem trans (h : Twins hidden d d') (h' : Twins hidden' d' d'') :
    Twins (fun place => hidden place ∨ hidden' place) d d'' :=
  ⟨h.wellFormed, h'.wellFormed', h.linkFree, h'.linkFree',
    h'.workingDirectory.trans h.workingDirectory, h'.refusals.trans h.refusals,
    h.alike.trans h'.alike⟩

theorem mono (h : Twins hidden d d') (hsub : ∀ place, hidden' place → hidden place)
    (hnone : ∀ place, hidden place → ¬hidden' place →
      d.tree.at? place = none ∧ d'.tree.at? place = none) : Twins hidden' d d' :=
  { h with alike := h.alike.mono hsub hnone }

theorem findFrom (h : Twins hidden d d') {follow : Bool} {links : Nat} {p : Path} {last : Place}
    {found : Option FileTree}
    (hfind : d.tree.findFrom follow links (d.startOf p) p.names = .ok (last, found)) :
    d'.tree.findFrom follow links (d'.startOf p) p.names = .ok (last, d'.tree.at? last) := by
  have hstart : d'.startOf p = d.startOf p := by
    unfold startOf
    rw [h.workingDirectory]
  rw [hstart]
  exact findFrom_congr (fun q children => h.alike.directory)
    (fun q target => iff_of_false (h.linkFree q target) (h.linkFree' q target)) hfind

end Twins

section Edit

variable (hd : d.tree.wellFormed = true) (hfree : d.tree.LinkFree)
  (hdir : d.tree.at? place = some (.dir children))
  (hfile : ∀ t, d.tree.at? (place ++ [name]) = some t → t.isDirectory = false)
include hd hfree hdir hfile

theorem twins_put (hname : isEntryName name = true) (hnew : new.isDirectory = false)
    (hlink : new.isLink = false) :
    d.Twins (· = place ++ [name]) (d.setTree (put new (place ++ [name]) d.tree)) := by
  have halike := alikeBut_put hdir hfile hnew
  have hwell : new.wellFormed = true := by
    cases new with
    | dir entries => cases hnew
    | file content => rfl
    | link target => cases hlink
    | pipe => rfl
  refine ⟨hd, wellFormed_put hd hdir hname hwell, hfree, halike.linkFree hfree ?_, rfl, rfl,
    halike⟩
  rintro other target rfl hat
  rw [at?_put new hdir] at hat
  cases hat
  cases hlink

theorem twins_without : d.Twins (· = place ++ [name]) (d.without (place ++ [name])) := by
  have halike := alikeBut_erase hdir hfile
  have htwins : d.Twins (· = place ++ [name]) (d.setTree (d.tree.erase (place ++ [name]))) := by
    refine ⟨hd, wellFormed_erase hd place name, hfree, halike.linkFree hfree ?_, rfl, rfl, halike⟩
    rintro other target rfl hat
    rw [at?_erase d.tree hdir] at hat
    cases hat
  exact htwins.setShared d.shared _

end Edit

theorem Twins.without (h : d.Twins (· = place ++ [name]) d')
    (hdir : d.tree.at? place = some (.dir children)) :
    (d.without (place ++ [name])).Twins (fun _ => False) (d'.without (place ++ [name])) := by
  obtain ⟨children', hdir'⟩ := h.alike.directory hdir
  have hleft := twins_without h.wellFormed h.linkFree hdir fun t => h.alike.left _ t rfl
  have hright := twins_without h.wellFormed' h.linkFree' hdir' fun t => h.alike.right _ t rfl
  refine (hleft.symm.trans (h.trans hright)).mono (fun _ => False.elim) ?_
  intro other hother _
  obtain rfl : other = place ++ [name] := hother.elim id (·.elim id id)
  exact ⟨at?_erase d.tree hdir, at?_erase d'.tree hdir'⟩

end Disk

namespace Delivery

variable {report next : Report} {target : Path} {d done : Disk} {place : Place}
  {name : FileName} {content : Bytes}

/-- The report is written into a directory under a name, by way of the file beside it. -/
structure Lands (out : Delivery report target d done) (place : Place) (name : FileName) :
    Prop where
  directory : ∃ children, d.tree.at? place = some (.dir children)
  /-- The file beside the target goes by no other name. -/
  unshared : d.aliases (place ++ [Path.stagingName name]) = []
  made : out.made = place ++ [Path.stagingName name]
  source : out.source = place ++ [Path.stagingName name]
  goal : out.goal = place ++ [name]

theorem ownNames (out : Delivery report target d done) :
    Disk.hasOwnName out.staging = true ∧ Disk.hasOwnName target = true := by
  obtain ⟨-, -, -, -, -, -, -, hown, -⟩ := rename_eq_ok_iff.1 out.rename
  exact hown

theorem startOf_staging (out : Delivery report target d done) (d' : Disk) :
    d'.startOf out.staging = d'.startOf target := by
  rw [out.staging_eq]
  rfl

theorem exists_moved (out : Delivery report target d done) : ∃ moved found,
    out.written.tree.find false (out.written.startOf out.staging) out.staging.names =
      .ok (out.source, moved) ∧
    out.written.tree.findFrom false linkLimit (out.written.startOf target) target.names =
      .ok (out.goal, found) ∧
    (∀ t, found = some t → t.isDirectory = false) ∧
    (if out.source = out.goal ∨ out.goal ∈ out.written.aliases out.source then out.written
      else out.written.move out.source out.goal moved) = done := by
  obtain ⟨-, source, moved, goal, found, hsource, hgoal, -, hfile, hdone⟩ :=
    rename_eq_ok_iff.1 out.rename
  obtain ⟨moved', hsource'⟩ := out.source_found
  obtain ⟨found', hgoal'⟩ := out.goal_found
  rw [hsource] at hsource'
  rw [hgoal] at hgoal'
  cases hsource'
  cases hgoal'
  exact ⟨moved, found, hsource, hgoal, hfile, hdone⟩

section LinkFree

variable (out : Delivery report target d done) (hd : d.tree.wellFormed = true)
  (hfree : d.tree.LinkFree)
include hd hfree

theorem twins_written (hdir : ∃ children, d.tree.at? place = some (.dir children))
    (hshared : d.aliases (place ++ [Path.stagingName name]) = [])
    (hmade : out.made = place ++ [Path.stagingName name])
    (hname : isEntryName (Path.stagingName name) = true) :
    d.Twins (· = place ++ [Path.stagingName name]) out.written := by
  obtain ⟨children, hdir⟩ := hdir
  obtain ⟨made, found, hfind, hfile, hwritten⟩ := writeFile_ok out.write
  obtain ⟨found', hfind'⟩ := out.made_found
  rw [hfind] at hfind'
  cases hfind'
  rw [hmade] at hfind hwritten
  have hplain : ∀ t, d.tree.at? (place ++ [Path.stagingName name]) = some t →
      t.isDirectory = false := by
    intro t hat
    rw [at?_of_findFrom hfind] at hat
    exact hfile t hat
  rcases hwritten with ⟨-, hsame⟩ | hput
  · rw [hsame]
    refine ⟨hd, hd, hfree, hfree, rfl, rfl, fun _ _ => rfl, ?_, ?_⟩
    · rintro q u rfl
      exact hplain u
    · rintro q u rfl
      exact hplain u
  · rw [hput, fill_eq_of_unshared hshared]
    exact twins_put hd hfree hdir hplain hname rfl rfl

theorem lands (habsolute : target.isAbsolute = true)
    (hslash : ∀ name ∈ target.names, Path.slash ∉ name)
    (hstays : staysHere target.name = false)
    (hreal : descend (d.startOf target) target.names = place ++ [name])
    (hshared : d.aliases (place ++ [Path.stagingName name]) = []) : out.Lands place name := by
  obtain ⟨found, hmade⟩ := out.made_found
  obtain ⟨moved, there, hsource, hgoal, -⟩ := out.exists_moved
  have hown := out.ownNames.2
  simp only [Disk.hasOwnName, Bool.and_eq_true, decide_eq_true_eq] at hown
  rcases List.eq_nil_or_concat' target.names with hnil | ⟨above, last, hnames⟩
  · simp [Path.name, hnil] at hown
  have hlast : target.name = last := by simp [Path.name, hnames]
  have hhere : staysHere last = false := hlast ▸ hstays
  have hstaging : out.staging.names = above ++ [Path.stagingName last] := by
    simp [out.staging_eq, hlast, hnames]
  rw [hlast] at hown
  rw [hnames, descend_snoc above hhere hown.2] at hreal
  obtain ⟨rfl, hsame⟩ := List.append_inj' hreal rfl
  obtain rfl : last = name := List.singleton_inj.1 hsame
  have hbeside : descend (d.startOf out.staging) out.staging.names =
      descend (d.startOf target) above ++ [Path.stagingName last] := by
    rw [hstaging, out.startOf_staging,
      descend_snoc above staysHere_stagingName stagingName_ne_dotDot]
  have hmadeAt := hfree.place_of_findFrom hmade
  rw [hbeside] at hmadeAt
  rw [hstaging, out.startOf_staging] at hmade
  have hdirectory := hfree.directory_of_findFrom hmade
  have hname : isEntryName (Path.stagingName last) = true := by
    refine out.isEntryName_of_mem_places hd habsolute hslash out.made ?_ _ ?_
    · simp [places]
    · simp [hmadeAt]
  have hwritten := out.twins_written hd hfree hdirectory hshared hmadeAt hname
  have hstart : ∀ p, out.written.startOf p = d.startOf p := by
    intro p
    unfold startOf
    rw [hwritten.workingDirectory]
  have hsourceAt := hwritten.linkFree'.place_of_findFrom (find_eq_ok_iff.1 hsource)
  have hgoalAt := hwritten.linkFree'.place_of_findFrom hgoal
  rw [hstart, hbeside] at hsourceAt
  rw [hstart, hnames, descend_snoc above hhere hown.2] at hgoalAt
  exact ⟨hdirectory, hshared, hmadeAt, hsourceAt, hgoalAt⟩

end LinkFree

theorem Lands.moved {out : Delivery report target d done} (h : out.Lands place name) : ∃ moved,
    out.written.tree.at? (place ++ [Path.stagingName name]) = some moved ∧
    (∀ t, out.written.tree.at? (place ++ [name]) = some t → t.isDirectory = false) ∧
    out.written.move (place ++ [Path.stagingName name]) (place ++ [name]) moved = done := by
  obtain ⟨moved, there, hsource, hgoal, hfile, hdone⟩ := out.exists_moved
  have hshared : out.written.aliases (place ++ [Path.stagingName name]) = [] := by
    rw [aliases, shared_of_writeFile out.write]
    exact h.unshared
  have hne : ¬(place ++ [Path.stagingName name] = place ++ [name] ∨
      place ++ [name] ∈ out.written.aliases (place ++ [Path.stagingName name])) := by
    simp [hshared, stagingName_ne]
  rw [h.source, h.goal, if_neg hne] at hdone
  rw [h.source] at hsource
  rw [h.goal] at hgoal
  exact ⟨moved, at?_of_findFrom (find_eq_ok_iff.1 hsource),
    fun t hat => hfile t ((at?_of_findFrom hgoal).symm.trans hat), hdone⟩

section Lands

variable {out : Delivery report target d done} (h : out.Lands place name)
  (hnames : ∀ place ∈ out.places, ∀ name ∈ place, isEntryName name = true)
include h hnames

theorem Lands.entries :
    isEntryName (Path.stagingName name) = true ∧ isEntryName name = true := by
  refine ⟨hnames out.made (by simp [places]) _ ?_, hnames out.goal (by simp [places]) _ ?_⟩
  · simp [h.made]
  · simp [h.goal]

variable (hd : d.tree.wellFormed = true) (hfree : d.tree.LinkFree)
include hd hfree

/-- Apart from the file beside the target, the disk before and the disk after are twins but
for the target. -/
theorem Lands.twins_without :
    (d.without (place ++ [Path.stagingName name])).Twins (· = place ++ [name]) done := by
  obtain ⟨hbeside, hname⟩ := h.entries hnames
  have hwritten := out.twins_written hd hfree h.directory h.unshared h.made hbeside
  obtain ⟨moved, hmoved, hfile, hdone⟩ := h.moved
  obtain ⟨children, hdir⟩ := h.directory
  obtain ⟨children', hdir'⟩ := hwritten.alike.directory hdir
  -- The file beside the target is moved away, and then it is put where the target is.
  have hgone := Disk.twins_without hwritten.wellFormed' hwritten.linkFree' hdir'
    fun t => hwritten.alike.right _ t rfl
  obtain ⟨children'', hdir''⟩ := hgone.alike.directory hdir'
  have hplain : ∀ t, (out.written.without (place ++ [Path.stagingName name])).tree.at?
      (place ++ [name]) = some t → t.isDirectory = false := by
    intro t hat
    obtain ⟨u, hu, hface⟩ := hgone.symm.alike.at?_of_face
      (by simp [(stagingName_ne name).symm]) hat
    rw [← isDirectory_face, ← hface, isDirectory_face]
    exact hfile u hu
  have hput := twins_put hgone.wellFormed' hgone.linkFree' hdir'' hplain hname
    (hwritten.alike.right _ moved rfl hmoved) (hwritten.linkFree'.isLink hmoved)
  have hmove : (out.written.without (place ++ [Path.stagingName name])).Twins
      (· = place ++ [name])
      (out.written.move (place ++ [Path.stagingName name]) (place ++ [name]) moved) :=
    hput.setShared (out.written.without (place ++ [Path.stagingName name])).shared _
  rw [hdone] at hmove
  exact ((hwritten.without hdir).trans hmove).mono (fun _ => .inr) fun _ hother hne =>
    absurd (hother.resolve_left id) hne

theorem Lands.artifact (hpipe : d.tree.at? (place ++ [Path.stagingName name]) ≠ some .pipe) :
    done.tree.at? (place ++ [name]) = some (.file out.content) := by
  obtain ⟨hbeside, -⟩ := h.entries hnames
  have hwritten := out.twins_written hd hfree h.directory h.unshared h.made hbeside
  obtain ⟨moved, hmoved, -, hdone⟩ := h.moved
  obtain ⟨children, hdir⟩ := h.directory
  obtain ⟨children', hdir'⟩ := hwritten.alike.directory hdir
  have hgone := Disk.twins_without hwritten.wellFormed' hwritten.linkFree' hdir'
    fun t => hwritten.alike.right _ t rfl
  obtain ⟨children'', hdir''⟩ := hgone.alike.directory hdir'
  have hcontent : moved = .file out.content := by
    obtain ⟨made, found, hfind, -, hput⟩ := writeFile_ok out.write
    obtain ⟨found', hmade⟩ := out.made_found
    obtain ⟨rfl, rfl⟩ := Prod.mk.inj (Except.ok.inj (hfind.symm.trans hmade))
    rcases hput with ⟨rfl, -⟩ | hput
    · exact absurd (h.made ▸ at?_of_findFrom hmade) hpipe
    · rw [hput, h.made, fill_eq_of_unshared h.unshared] at hmoved
      exact Option.some.inj (hmoved.symm.trans (at?_put _ hdir))
  rw [← hcontent, ← hdone]
  exact at?_put moved hdir''

theorem Lands.gone : done.tree.at? (place ++ [Path.stagingName name]) = none := by
  have htwins := h.twins_without hnames hd hfree
  obtain ⟨children, hdir⟩ := h.directory
  have hother : ¬place ++ [Path.stagingName name] = place ++ [name] := by
    simp [stagingName_ne]
  have hsome := htwins.alike.isSome hother
  rw [show (d.without (place ++ [Path.stagingName name])).tree.at?
    (place ++ [Path.stagingName name]) = none from at?_erase d.tree hdir] at hsome
  simpa using hsome.symm

theorem Lands.twins : d.Twins (fun other => other = place ++ [Path.stagingName name] ∨
    other = place ++ [name]) done := by
  obtain ⟨hbeside, -⟩ := h.entries hnames
  obtain ⟨children, hdir⟩ := h.directory
  have hwritten := out.twins_written hd hfree h.directory h.unshared h.made hbeside
  have hgone := Disk.twins_without hd hfree hdir fun t => hwritten.alike.left _ t rfl
  exact hgone.trans (h.twins_without hnames hd hfree)

/-- The file beside the target can be made anew. -/
theorem Lands.rewritten (content : Bytes) : ∃ mid, done.writeFile out.staging content = .ok mid ∧
    done.Twins (· = place ++ [Path.stagingName name]) mid ∧
    mid.tree.at? (place ++ [Path.stagingName name]) = some (.file content) ∧
    mid.aliases (place ++ [Path.stagingName name]) = [] := by
  obtain ⟨hbeside, -⟩ := h.entries hnames
  have htwins := h.twins hnames hd hfree
  have hgone := h.gone hnames hd hfree
  obtain ⟨children, hdir⟩ := h.directory
  obtain ⟨children', hdir'⟩ := htwins.alike.directory hdir
  have hnothing : ∀ t, done.tree.at? (place ++ [Path.stagingName name]) = some t →
      t.isDirectory = false := by
    intro t hat
    rw [hgone] at hat
    cases hat
  obtain ⟨found, hmade⟩ := out.made_found
  have hmade' := htwins.findFrom hmade
  rw [h.made, hgone] at hmade'
  obtain ⟨⟨hstaging, -⟩, -⟩ := rename_eq_ok_iff.1 out.rename
  have hshared : done.aliases (place ++ [Path.stagingName name]) = [] := by
    obtain ⟨moved, -, -, hdone⟩ := h.moved
    rw [← hdone]
    exact aliases_move _ (by simp [stagingName_ne]) _
  refine ⟨done.setTree (put (.file content) (place ++ [Path.stagingName name]) done.tree), ?_,
    twins_put htwins.wellFormed' htwins.linkFree' hdir' hnothing hbeside rfl rfl,
    at?_put _ hdir', hshared⟩
  rw [← fill_eq_of_unshared hshared]
  exact writeFile_eq_ok_iff.2 ⟨hstaging, _, none, hmade', by simp, .inr ⟨by simp, rfl⟩⟩

theorem Lands.again (hpayload : next.payload target = .ok content) :
    ∃ last, next.write target done = (last, .ok ()) ∧
      last.tree.at? (place ++ [name]) = some (.file content) := by
  obtain ⟨hbeside, -⟩ := h.entries hnames
  obtain ⟨mid, hwrite, hput, hthere, hshared⟩ := h.rewritten hnames hd hfree content
  -- The file is found again, and there is no directory where it is moved to.
  have hmid := (h.twins hnames hd hfree).trans hput
  have hlook := (out.twins_written hd hfree h.directory h.unshared h.made hbeside).symm.trans hmid
  obtain ⟨moved, there, hsource, hgoal, -⟩ := out.exists_moved
  have hmoved : mid.tree.find false (mid.startOf out.staging) out.staging.names =
      .ok (place ++ [Path.stagingName name], .file content) := by
    have hfind := hlook.findFrom (find_eq_ok_iff.1 hsource)
    rw [h.source, hthere] at hfind
    exact find_eq_ok_iff.2 hfind
  have hgoal := hlook.findFrom hgoal
  rw [h.goal] at hgoal
  have hrename : mid.rename out.staging target =
      .ok (mid.move (place ++ [Path.stagingName name]) (place ++ [name]) (.file content)) := by
    refine rename_eq_ok_iff.2 ⟨(rename_eq_ok_iff.1 out.rename).1, _, _, _, _, hmoved, hgoal,
      out.ownNames, fun t => ?_, ?_⟩
    · exact hmid.alike.right _ t (.inl (.inr rfl))
    · rw [if_neg (by simp [hshared, stagingName_ne])]
  obtain ⟨children, hdir⟩ := h.directory
  obtain ⟨entries, hentries⟩ := hmid.alike.directory hdir
  have hleft := Disk.twins_without hput.wellFormed' hput.linkFree' hentries
    fun t => hput.alike.right _ t rfl
  obtain ⟨entries', hentries'⟩ := hleft.alike.directory hentries
  have hwritten : next.write target done =
      (mid.move (place ++ [Path.stagingName name]) (place ++ [name]) (.file content),
        .ok ()) := by
    unfold Report.write
    simp only [hpayload, out.beside, hwrite, hrename]
  exact ⟨_, hwritten, at?_put (.file content) hentries'⟩

end Lands

end Delivery

end SourceScan
