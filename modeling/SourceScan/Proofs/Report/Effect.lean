import SourceScan.Proofs.Report.Mishap

/-!
# What a written report changes

The report is written through whatever the path beside the target leads to, while the move takes
the entry of that path as it is.  Only if this entry is a file, or there is none, the two are the
same: then the target is the new file, and nothing else has changed if the file there had no other
name.  A link beside the target takes the place of the target itself, and the file that it leads to
has been overwritten; a pipe takes the place of the target too.  A file that goes by another name is
overwritten under that name, and if the other name is the target nothing is moved at all.
-/

namespace SourceScan

open FileTree

namespace FileTree

variable {root found : FileTree} {place last : Place} {names : List FileName} {name : FileName}
  {links : Nat}

theorem entry_of_findFrom {found : Option FileTree}
    (h : root.findFrom false links place (names ++ [name]) = .ok (last, found))
    (hfile : ∀ t, found = some t → t.isDirectory = false) :
    ∃ above entry children, last = above ++ [entry] ∧ root.at? above = some (.dir children) := by
  have hat := at?_of_findFrom h
  obtain ⟨left, above, hway⟩ := exists_above h
  rw [hway] at h
  obtain ⟨⟨children, hdir⟩, hlast⟩ := findFrom_single_ok h
  have hplain : ∀ entries, root.at? last ≠ some (.dir entries) := by
    intro entries hentries
    cases hfile _ (hat.symm.trans hentries)
  simp only [descend] at hlast
  split at hlast
  · exact absurd hdir (hlast ▸ hplain children)
  · split at hlast
    · obtain ⟨entries, hentries⟩ := directory_dropLast hdir
      exact absurd hentries (hlast ▸ hplain entries)
    · exact ⟨above, name, children, hlast, hdir⟩

theorem AlikeBut.pipe {hidden : Place → Prop} {t t' : FileTree} (h : AlikeBut hidden t t')
    (hplace : ¬hidden place) (hat : t.at? place = some .pipe) : t'.at? place = some .pipe := by
  obtain ⟨u, hu, hface⟩ := h.at?_of_face hplace hat
  cases u with
  | pipe => exact hu
  | file content => cases hface
  | dir children => cases hface
  | link target => cases hface

end FileTree

namespace Disk

variable {d written done : Disk} {p q : Path} {content : Bytes} {source goal made : Place}
  {t : FileTree}

def endOf? (d : Disk) (p : Path) : Option Place :=
  (d.tree.findFrom true linkLimit (d.startOf p) p.names).toOption.map (·.1)

def Writable (d : Disk) (p : Path) : Prop := ∀ t, d.faceOf? p = some t → ∃ old, t = .file old

/-- The entry of a path after a file was written to it: the file, unless the file went through a
link or into a pipe. -/
def entryAfter (there : Option FileTree) (content : Bytes) : FileTree :=
  match there with
  | some (.link target) => .link target
  | some .pipe => .pipe
  | _ => .file content

theorem entryAfter_isDirectory (there : Option FileTree) (content : Bytes) :
    (entryAfter there content).isDirectory = false := by
  unfold entryAfter
  split <;> rfl

theorem entryAfter_of_plain {there : Option FileTree}
    (hlink : ∀ target, there ≠ some (.link target)) (hpipe : there ≠ some .pipe) :
    entryAfter there content = .file content := by
  unfold entryAfter
  split
  · next target => exact absurd rfl (hlink target)
  · exact absurd rfl hpipe
  · rfl

theorem faceOf?_of_placeOf? (h : d.placeOf? p = some source) :
    d.faceOf? p = (d.tree.at? source).map face := by
  rw [faceOf?_eq, h, Option.bind_some]

theorem not_writable_of_isLink (h : d.isLink p = true) : ¬d.Writable p := by
  unfold isLink at h
  split at h
  · next target hfind =>
      intro hwritable
      obtain ⟨old, heq⟩ := hwritable (.link target) (by rw [faceOf?, hfind]; rfl)
      cases heq
  · cases h

theorem entryAfter_eq_file_iff (h : d.placeOf? p = some source)
    (hdir : ∀ children, d.tree.at? source ≠ some (.dir children)) :
    entryAfter (d.tree.at? source) content = .file content ↔ d.Writable p := by
  rw [Writable, faceOf?_of_placeOf? h]
  cases hat : d.tree.at? source with
  | none => simp [entryAfter]
  | some t =>
      cases t with
      | dir children => exact absurd hat (hdir children)
      | file old => simp [entryAfter, face]
      | link target => simp [entryAfter, face]
      | pipe => simp [entryAfter, face]

theorem putIn?_of_writable (hwrite : d.writeFile p content = .ok written)
    (hwritable : d.Writable p) : d.putIn? p content = some content := by
  obtain ⟨hfault, place, found, hfind, hfile, -⟩ := writeFile_eq_ok_iff.1 hwrite
  refine putIn?_of_found hfault hfind hfile ?_
  rintro rfl
  have hfree : d.isLink p = false := by
    rw [Bool.eq_false_iff]
    exact fun hlink => not_writable_of_isLink hlink hwritable
  rw [findFrom_follow (not_link_of_isLink hfree), ← find_eq_ok_iff] at hfind
  obtain ⟨old, hold⟩ := hwritable .pipe (by rw [faceOf?, hfind]; rfl)
  cases hold

/-- A file is written where its path leads through all links.  The entry of the path is a link or a
pipe afterwards only if it was one before. -/
theorem entry_of_writeFile (hp : p.names ≠ []) (hwrite : d.writeFile p content = .ok written)
    (hplace : d.placeOf? p = some source) :
    ∃ made, d.endOf? p = some made ∧ d.SameBut (d.SameFile made) written ∧
      (written.tree.at? made = some (.file content) ∨ written.tree.at? made = some .pipe) ∧
      (∀ place, place ≠ made →
        (written.tree.at? place).map face = d.shownWith made (d.putIn? p content) place) ∧
      written.tree.at? source = some (entryAfter (d.tree.at? source) content) ∧
      (∀ children, d.tree.at? source ≠ some (.dir children)) ∧
      (made ≠ source → d.isLink p = true) := by
  obtain ⟨made, found, hmade, hfile, hsame, hnew⟩ := sameBut_writeFile hp hwrite
  have hfind := placeOf?_eq_some.1 hplace
  refine ⟨made, by rw [endOf?, hmade]; rfl, hsame,
    hnew.imp (fun hall => hall made (sameFile_self d made)) (·.1),
    fun place hne => shown_of_writeFile hp hwrite hmade hne, ?_⟩
  by_cases hlink : ∃ target, d.tree.at? source = some (.link target)
  · obtain ⟨target, hat⟩ := hlink
    refine ⟨by rw [hsame.link hat, hat]; rfl, fun children hdir => ?_, fun _ => ?_⟩
    · rw [hat] at hdir
      cases hdir
    · rw [hat, ← find_eq_ok_iff] at hfind
      rw [isLink, hfind]
  · -- Without a link at the end the two look-ups are one.
    simp only [not_exists] at hlink
    have hfollow : d.tree.findFrom true linkLimit (d.startOf p) p.names =
        .ok (source, d.tree.at? source) := by
      rw [findFrom_follow, hfind]
      rintro last target hlast
      rw [hfind] at hlast
      obtain ⟨rfl, hat⟩ := Prod.mk.inj (Except.ok.inj hlast)
      exact hlink target hat
    obtain ⟨rfl, rfl⟩ := Prod.mk.inj (Except.ok.inj (hmade.symm.trans hfollow))
    refine ⟨?_, fun children hdir => ?_, fun hne => absurd rfl hne⟩
    · rcases hnew with hall | ⟨hpipe, rfl⟩
      · rw [entryAfter_of_plain hlink, hall made (sameFile_self d made)]
        intro hpipe
        obtain ⟨-, place, found, hfind', -, hdone⟩ := writeFile_eq_ok_iff.1 hwrite
        obtain ⟨rfl, rfl⟩ := Prod.mk.inj (Except.ok.inj (hmade.symm.trans hfind'))
        obtain ⟨-, rfl⟩ := hdone.resolve_right fun h => h.1 hpipe
        cases hpipe.symm.trans (hall made (sameFile_self d made))
      · rw [hpipe]
        rfl
    · cases hfile _ hdir

theorem changes_of_rename (h : d.rename p q = .ok done) (hp : d.placeOf? p = some source)
    (hq : d.placeOf? q = some goal) (hne : ¬(source = goal ∨ goal ∈ d.aliases source))
    (ht : d.tree.at? source = some t) (hfile : t.isDirectory = false) :
    ∃ left, left = d.without source ∧ done.workingDirectory = left.workingDirectory ∧
      left.tree.at? source = none ∧ done.tree.at? goal = some t ∧
      AlikeBut (· = source) d.tree left.tree ∧ AlikeBut (· = goal) left.tree done.tree := by
  obtain ⟨-, place, moved, last, found, hmoved, hlast, ⟨hown, hown'⟩, hthere, rfl⟩ :=
    rename_eq_ok_iff.1 h
  obtain rfl : place = source := Option.some.inj
    ((placeOf?_of_findFrom (find_eq_ok_iff.1 hmoved)).symm.trans hp)
  obtain rfl : last = goal := Option.some.inj ((placeOf?_of_findFrom hlast).symm.trans hq)
  obtain rfl : moved = t := Option.some.inj
    ((at?_of_findFrom (find_eq_ok_iff.1 hmoved)).symm.trans ht)
  have hnamed : ∀ {r : Path}, hasOwnName r = true → ∃ names name, r.names = names ++ [name] := by
    intro r hr
    refine (List.eq_nil_or_concat' r.names).resolve_left fun hnil => ?_
    simp [hasOwnName, Path.name, hnil] at hr
  obtain ⟨names, name, hnames⟩ := hnamed hown
  obtain ⟨names', name', hnames'⟩ := hnamed hown'
  obtain ⟨above, entry, children, rfl, hdir⟩ :=
    entry_of_findFrom (hnames ▸ find_eq_ok_iff.1 hmoved) fun u hu => by cases hu; exact hfile
  obtain ⟨above', entry', children', rfl, hdir'⟩ := entry_of_findFrom (hnames' ▸ hlast) hthere
  have hsource : ∀ u, d.tree.at? (above ++ [entry]) = some u → u.isDirectory = false := by
    intro u hu
    cases ht.symm.trans hu
    exact hfile
  have herase := alikeBut_erase hdir hsource
  obtain ⟨entries, hentries⟩ := herase.directory hdir'
  rw [if_neg hne]
  refine ⟨_, rfl, rfl, at?_erase d.tree hdir, at?_put _ hentries, herase, ?_⟩
  · refine alikeBut_put hentries (fun u hu => ?_) hfile
    obtain ⟨v, hv, hface⟩ := herase.symm.at?_of_face (fun heq => hne (.inl heq.symm)) hu
    rw [← isDirectory_face, ← hface, isDirectory_face]
    exact hthere v ((at?_of_findFrom hlast).symm.trans hv)

end Disk

namespace Delivery

open Disk

variable {r : Report} {target : Path} {d done : Disk}

theorem exists_text (out : Delivery r target d done) :
    ∃ text, r.serialize (Report.Format.ofPath target) = .ok text ∧
      Utf8.encodeStrict text = .ok out.content := by
  have hpayload := out.payload
  unfold Report.payload at hpayload
  split at hpayload
  · cases hpayload
  · cases hpayload
  · next text htext => exact ⟨text, htext, ok_of_mapError hpayload⟩

theorem ways (out : Delivery r target d done) :
    d.endOf? out.staging = some out.made ∧ d.placeOf? out.staging = some out.source ∧
      d.placeOf? target = some out.goal ∧ out.source ≠ out.goal := by
  obtain ⟨found, hmade⟩ := out.made_found
  obtain ⟨moved, hsource⟩ := out.source_found
  obtain ⟨there, hgoal⟩ := out.goal_found
  obtain ⟨made, _, hmade', -, hsame, -⟩ := sameBut_writeFile out.names_staging out.write
  have hplace : d.placeOf? out.staging = some out.source := by
    rw [← hsame.placeOf?_eq, placeOf?_of_findFrom (find_eq_ok_iff.1 hsource)]
  have hplace' : d.placeOf? target = some out.goal := by
    rw [← hsame.placeOf?_eq, placeOf?_of_findFrom hgoal]
  refine ⟨by rw [endOf?, hmade]; rfl, hplace, hplace', fun heq => ?_⟩
  exact (exists_beside out.beside hplace).2 (heq ▸ hplace')

theorem aliases_written (out : Delivery r target d done) (place : Place) :
    out.written.aliases place = d.aliases place := by
  simp only [aliases, shared_of_writeFile out.write]

/-- The report is written through the links of the path beside the target, and its entry is the one
that is moved. -/
theorem passes_through (out : Delivery r target d done) :
    d.SameBut (d.SameFile out.made) out.written ∧
      (out.written.tree.at? out.made = some (.file out.content) ∨
        out.written.tree.at? out.made = some .pipe) ∧
      (∀ place, place ≠ out.made → (out.written.tree.at? place).map face =
        d.shownWith out.made (d.putIn? out.staging out.content) place) ∧
      (out.made ≠ out.source → d.isLink out.staging = true) ∧
      (d.Writable out.staging ↔
        entryAfter (d.tree.at? out.source) out.content = .file out.content) ∧
      out.written.tree.at? out.source =
        some (entryAfter (d.tree.at? out.source) out.content) := by
  obtain ⟨hend, hsource, -, -⟩ := out.ways
  obtain ⟨made, hmade, hsame, hnew, hshown, hentry, hdir, hlink⟩ :=
    entry_of_writeFile out.names_staging out.write hsource
  obtain rfl : made = out.made := Option.some.inj (hmade.symm.trans hend)
  exact ⟨hsame, hnew, hshown, hlink, (entryAfter_eq_file_iff hsource hdir).symm, hentry⟩

/-- The entry is taken away from beside the target and put in the place of the target, unless the
two are names of one file. -/
theorem moves (out : Delivery r target d done) (hmoved : out.goal ∉ d.aliases out.source) :
    ∃ left : Disk,
      left.workingDirectory = out.written.workingDirectory ∧
      AlikeBut (· = out.source) out.written.tree left.tree ∧ left.tree.at? out.source = none ∧
      done.workingDirectory = left.workingDirectory ∧
      AlikeBut (· = out.goal) left.tree done.tree ∧
      done.tree.at? out.goal = some (entryAfter (d.tree.at? out.source) out.content) := by
  obtain ⟨-, hsource, hgoal, hne⟩ := out.ways
  obtain ⟨hsame, -, -, -, -, hentry⟩ := out.passes_through
  obtain ⟨left, rfl, hwork, hgone, hcame, herase, hput⟩ := changes_of_rename out.rename
    ((hsame.placeOf?_eq _).trans hsource) ((hsame.placeOf?_eq _).trans hgoal)
    (by rw [out.aliases_written]; exact not_or.2 ⟨hne, hmoved⟩) hentry
    (entryAfter_isDirectory _ _)
  exact ⟨out.written.without out.source, rfl, herase, hgone, hwork, hput, hcame⟩

theorem tree_of_shared (out : Delivery r target d done)
    (hshared : out.goal ∈ d.aliases out.source) : done.tree = out.written.tree := by
  obtain ⟨-, source, moved, goal, found, hsource, hgoal, -, -, hdone⟩ :=
    rename_eq_ok_iff.1 out.rename
  obtain ⟨moved', hsource'⟩ := out.source_found
  obtain ⟨found', hgoal'⟩ := out.goal_found
  cases hsource.symm.trans hsource'
  cases hgoal.symm.trans hgoal'
  rw [if_pos (.inr (out.aliases_written _ ▸ hshared))] at hdone
  exact congrArg Disk.tree hdone.symm

theorem shown (out : Delivery r target d done) {place : Place} (hplace : place ∉ out.places) :
    (done.tree.at? place).map face =
      d.shownWith out.made (d.putIn? out.staging out.content) place := by
  simp only [places, List.mem_cons, List.not_mem_nil, or_false, not_or] at hplace
  obtain ⟨hmade, hsource, hgoal⟩ := hplace
  obtain ⟨-, -, hshown, -⟩ := out.passes_through
  rw [← hshown place hmade]
  by_cases hshared : out.goal ∈ d.aliases out.source
  · rw [out.tree_of_shared hshared]
  · obtain ⟨left, -, herase, -, -, hput, -⟩ := out.moves hshared
    exact ((herase.same place hsource).trans (hput.same place hgoal)).symm

theorem gone (out : Delivery r target d done) (hmoved : out.goal ∉ d.aliases out.source) :
    done.tree.at? out.source = none := by
  obtain ⟨-, -, -, hne⟩ := out.ways
  obtain ⟨left, -, -, hgone, -, hput, -⟩ := out.moves hmoved
  have hsame := hput.same out.source hne
  rw [hgone] at hsame
  exact Option.map_eq_none_iff.1 hsame.symm

theorem came (out : Delivery r target d done) (hmoved : out.goal ∉ d.aliases out.source) :
    done.tree.at? out.goal = some (entryAfter (d.tree.at? out.source) out.content) := by
  obtain ⟨left, -, -, -, -, -, hcame⟩ := out.moves hmoved
  exact hcame

/-- The file is made under its own name, as it is not reached through a link. -/
theorem made_eq_source (out : Delivery r target d done) (h : d.Writable out.staging) :
    out.made = out.source := by
  obtain ⟨-, -, -, hlink, -⟩ := out.passes_through
  by_contra hne
  exact not_writable_of_isLink (hlink hne) h

/-- The file beside the target goes by no other name, or has these bytes under it already. -/
def NoOther (out : Delivery r target d done) : Prop :=
  out.goal ∉ d.aliases out.source ∧ ∀ place ∈ d.aliases out.source, place ≠ out.goal → ∀ old,
    d.tree.at? place = some (.file old) → old = out.content

theorem unchanged (out : Delivery r target d done) (hwritable : d.Writable out.staging)
    (hother : out.NoOther) {place : Place} (hsource : place ≠ out.source)
    (hgoal : place ≠ out.goal) :
    (done.tree.at? place).map face = (d.tree.at? place).map face := by
  have hmade := out.made_eq_source hwritable
  rw [out.shown (by simp [places, hmade, hsource, hgoal]), putIn?_of_writable out.write hwritable,
    hmade, shownWith]
  cases hat : d.tree.at? place with
  | none => rfl
  | some t =>
      by_cases hmem : place ∈ d.aliases out.source
      · cases t with
        | file old => simp [hmem, face, filled_file, hother.2 place hmem hgoal old hat]
        | _ => simp [hmem, face, filled, FileTree.recast, recastAll]
      · simp [hmem]

theorem unchanged_iff (out : Delivery r target d done) : d.Writable out.staging ∧ out.NoOther ↔
    done.tree.at? out.source = none ∧ done.tree.at? out.goal = some (.file out.content) ∧
      ∀ place, place ≠ out.source → place ≠ out.goal →
        (done.tree.at? place).map face = (d.tree.at? place).map face := by
  obtain ⟨-, -, -, -, hplain, hentry⟩ := out.passes_through
  constructor
  · rintro ⟨hwritable, hother⟩
    refine ⟨out.gone hother.1, ?_, fun place => out.unchanged hwritable hother⟩
    rw [out.came hother.1, hplain.1 hwritable]
  · rintro ⟨hgone, hfile, hsame⟩
    have hmoved : out.goal ∉ d.aliases out.source := by
      intro hshared
      rw [out.tree_of_shared hshared, hentry] at hgone
      cases hgone
    have hwritable := hplain.2 (Option.some.inj ((out.came hmoved).symm.trans hfile))
    refine ⟨hwritable, hmoved, fun place hmem hgoal old hold => ?_⟩
    have hsource := (mem_aliases.1 hmem).1
    have hplaces : place ∉ out.places := by
      simp [places, out.made_eq_source hwritable, hsource, hgoal]
    have hshown := out.shown hplaces
    rw [hsame place hsource hgoal, putIn?_of_writable out.write hwritable,
      out.made_eq_source hwritable] at hshown
    simp only [shownWith, hold, hmem, if_true, Option.map_some, face, filled_file,
      Option.getD_some, Option.some.injEq] at hshown
    exact FileTree.file.inj hshown

/-- Nothing but two entries and the bytes of files has changed, so all paths lead where they led. -/
theorem placeOf?_eq (out : Delivery r target d done) (hwritable : d.Writable out.staging)
    (hother : out.NoOther) (hfree : d.isLink target = false) (p : Path) :
    done.placeOf? p = d.placeOf? p := by
  obtain ⟨-, hsource, hgoal, hne⟩ := out.ways
  obtain ⟨hwritten, -, -, -, hplain, hentry⟩ := out.passes_through
  obtain ⟨left, hwork, herase, hgone, hwork', hput, hcame⟩ := out.moves hother.1
  rw [hplain.1 hwritable] at hentry hcame
  have hleft : out.written.SameBut (· = out.source) left := by
    refine ⟨hwork, herase, ?_, ?_⟩
    · rintro _ rfl target hat
      cases hentry.symm.trans hat
    · rintro _ rfl target hat
      cases hgone.symm.trans hat
  have hfirst := hwritten.trans hleft
  have hdone : left.SameBut (· = out.goal) done := by
    refine ⟨hwork', hput, ?_, ?_⟩
    · rintro _ rfl link hat
      exact free_of_isLink hfree hgoal link (hfirst.symm.link hat)
    · rintro _ rfl link hat
      cases hcame.symm.trans hat
  exact (hdone.placeOf?_eq p).trans (hfirst.placeOf?_eq p)

end Delivery

namespace Report

open Disk

variable {r : Report} {target : Path} {d done : Disk}

/-- What is at each place after a report was written.  The target holds what was at the path beside
it after the writing, and nothing is left there, unless the two are names of one file, which is not
moved.  Apart from these two places a change can only be where the path beside the target led
through its links, and under the other names of the file there, which hold the report too.  So the
target is a file with the bytes of the report, and the only thing that has changed, exactly if the
path beside it was neither a link nor a pipe, nor a file that goes by the name of the target or by
another one where other bytes were; and if the target was no link, then this holds of all paths. -/
theorem changes_of_write (h : r.write target d = (done, .ok ())) :
    ∃ out : Delivery r target d done, ∃ text,
      r.serialize (Format.ofPath target) = .ok text ∧
      Utf8.encodeStrict text = .ok out.content ∧
      d.endOf? out.staging = some out.made ∧ d.placeOf? out.staging = some out.source ∧
      d.placeOf? target = some out.goal ∧
      (out.goal ∉ d.aliases out.source → done.tree.at? out.source = none ∧
        done.tree.at? out.goal = some (entryAfter (d.tree.at? out.source) out.content)) ∧
      (out.goal ∈ d.aliases out.source →
        done.tree.at? out.source = some (entryAfter (d.tree.at? out.source) out.content) ∧
        (out.goal ≠ out.made → (done.tree.at? out.goal).map face =
          d.shownWith out.made (d.putIn? out.staging out.content) out.goal)) ∧
      (∀ place, place ∉ out.places → (done.tree.at? place).map face =
        d.shownWith out.made (d.putIn? out.staging out.content) place) ∧
      (out.made ≠ out.source → out.made ≠ out.goal →
        done.tree.at? out.made = some (.file out.content) ∨ done.tree.at? out.made = some .pipe) ∧
      (d.Writable out.staging ∧ out.NoOther ↔
        done.tree.at? out.source = none ∧ done.tree.at? out.goal = some (.file out.content) ∧
          ∀ place, place ≠ out.source → place ≠ out.goal →
            (done.tree.at? place).map face = (d.tree.at? place).map face) ∧
      (d.Writable out.staging → out.NoOther → d.isLink target = false →
        done.faceOf? target = some (.file out.content) ∧ done.faceOf? out.staging = none ∧
        ∀ p, d.placeOf? p ≠ some out.source → d.placeOf? p ≠ some out.goal →
          done.faceOf? p = d.faceOf? p) := by
  obtain ⟨out⟩ := Delivery.of_write h
  obtain ⟨text, htext, hcontent⟩ := out.exists_text
  obtain ⟨hend, hsource, hgoal, hne⟩ := out.ways
  obtain ⟨-, hnew, hshown, -, hplain, hentry⟩ := out.passes_through
  refine ⟨out, text, htext, hcontent, hend, hsource, hgoal,
    fun hmoved => ⟨out.gone hmoved, out.came hmoved⟩, fun hshared => ?_,
    fun place => out.shown, ?_, out.unchanged_iff, ?_⟩
  · rw [out.tree_of_shared hshared]
    exact ⟨hentry, hshown out.goal⟩
  · intro hsource' hgoal'
    by_cases hshared : out.goal ∈ d.aliases out.source
    · rw [out.tree_of_shared hshared]
      exact hnew
    · obtain ⟨left, -, herase, -, -, hput, -⟩ := out.moves hshared
      rcases hnew with hfile | hpipe
      · exact .inl (hput.file hgoal' (herase.file hsource' hfile))
      · exact .inr (hput.pipe hgoal' (herase.pipe hsource' hpipe))
  · intro hwritable hother hfree
    have hways := out.placeOf?_eq hwritable hother hfree
    refine ⟨?_, ?_, fun p h₁ h₂ => ?_⟩
    · rw [faceOf?_of_placeOf? ((hways target).trans hgoal), out.came hother.1, hplain.1 hwritable]
      rfl
    · rw [faceOf?_of_placeOf? ((hways out.staging).trans hsource), out.gone hother.1]
      rfl
    · rw [faceOf?_eq, faceOf?_eq, hways p]
      cases hplace : d.placeOf? p with
      | none => rfl
      | some place =>
          refine out.unchanged hwritable hother ?_ ?_
          · rintro rfl
            exact h₁ hplace
          · rintro rfl
            exact h₂ hplace

/-! ## A link beside the target -/

open Mishaps (oldTarget besideOld blankReport)

def victimDisk (content : Bytes) : Disk :=
  ⟨.dir [([.char 'v'], .file content), (Path.stagingName [.char 'o'], .link [.char 'v'])], [], [],
    []⟩

def misledDisk (content : Bytes) : Disk :=
  ⟨.dir [([.char 'v'], .file content), ([.char 'o'], .link [.char 'v'])], [], [], []⟩

theorem write_misled (content : Bytes) : ∃ bytes,
    blankReport.write oldTarget (victimDisk content) = (misledDisk bytes, .ok ()) := by
  have hpayload : (blankReport.payload oldTarget).toOption.isSome = true := by
    decide +kernel
  have hstaging : oldTarget.staging? = some besideOld := by cbv
  have hwrite : ∀ new, (victimDisk content).writeFile besideOld new = .ok (victimDisk new) := by
    intro new
    cbv
  have hrename : ∀ new, (victimDisk new).rename besideOld oldTarget = .ok (misledDisk new) := by
    intro new
    cbv
  cases hbytes : blankReport.payload oldTarget with
  | error e => simp [hbytes, Except.toOption] at hpayload
  | ok bytes =>
      refine ⟨bytes, ?_⟩
      unfold write
      rw [hbytes]
      simp only [hstaging, hwrite, hrename]

/-- The report is in the file that the link led to, and the target is the link. -/
theorem changes_of_write_misled : ∃ bytes,
    blankReport.write oldTarget (victimDisk [1]) = (misledDisk bytes, .ok ()) ∧
      (misledDisk bytes).faceOf? oldTarget = some (.link [.char 'v']) ∧
      ∃ out : Delivery blankReport oldTarget (victimDisk [1]) (misledDisk bytes),
        ¬(victimDisk [1]).Writable out.staging := by
  obtain ⟨bytes, hwrite⟩ := write_misled [1]
  obtain ⟨out, -⟩ := changes_of_write hwrite
  have hstaging : oldTarget.staging? = some besideOld := by cbv
  have hbeside : out.staging = besideOld := Option.some.inj (out.beside.symm.trans hstaging)
  refine ⟨bytes, hwrite, by cbv, out, not_writable_of_isLink ?_⟩
  rw [hbeside]
  cbv

end Report

end SourceScan
