import Mathlib
import SourceScan.Scan.Walk

/-!
# What a walk comes across

The sights of a walk are what it comes across in a tree, in order, as if it never
stopped.  They depend on the tree, the rules and the refusals alone, while deadline and
budgets are a matter of how a walk meets its sights one after the other.  The main
statement is `directory_tracks`: a walk through a directory is the meeting of the sights
that the directory holds.
-/

namespace SourceScan

inductive Sight where
  /-- The names in a directory are asked for. -/
  | listing (dir : List FileName)
  /-- It is the turn of an entry. -/
  | turn (names : List FileName)
  /-- The entry has a name with stray bytes. -/
  | misnamed (names : List FileName)
  /-- The entry is a regular file that no rule excludes. -/
  | file (names : List FileName) (size : Nat)
  /-- The walk cannot go on. -/
  | failure (names : List FileName) (error : ScanError)
  deriving DecidableEq

def Sight.names : Sight → List FileName
  | .listing dir => dir
  | .turn names | .misnamed names | .file names _ | .failure names _ => names

def Progress.within (s : Progress) (visited : List Path) : Progress :=
  { s with visited }

namespace Walk

def pathOf (w : Walk) (names : List FileName) : Path :=
  ⟨w.root.slashes, w.root.names ++ names⟩

theorem pathOf_nil (w : Walk) : w.pathOf [] = w.root := by
  simp [pathOf]

theorem pathOf_snoc (w : Walk) (names : List FileName) (name : FileName) :
    w.pathOf (names ++ [name]) = (w.pathOf names).child name := by
  simp [pathOf, Path.child]

/-! ## Sights -/

abbrev Sights := List Sight × List Path

def sightsAt (w : Walk) (below : List FileName → List Path → Sights)
    (names : List FileName) (visited : List Path) : Sights :=
  match (Path.joined names).text? with
  | none => ([.misnamed names], visited)
  | some text =>
      match w.admits (w.pathOf names) text with
      | .error e => ([.failure names (.disk e)], visited)
      | .ok none => ([], visited)
      | .ok (some true) => below names visited
      | .ok (some false) =>
          match w.disk.look (w.pathOf names) with
          | .error e => ([.failure names (.disk e)], visited)
          | .ok (some (.file content)) => ([.file names content.length], visited)
          | .ok _ => ([], visited)

def entrySights (w : Walk) (below : List FileName → List Path → Sights)
    (dir : List FileName) (name : FileName) (visited : List Path) : Sights :=
  let rest := w.sightsAt below (dir ++ [name]) visited
  (.turn (dir ++ [name]) :: rest.1, rest.2)

def entriesSights (w : Walk) (below : List FileName → List Path → Sights)
    (dir : List FileName) : List FileName → List Path → Sights
  | [], visited => ([], visited)
  | name :: names, visited =>
      let first := w.entrySights below dir name visited
      let rest := w.entriesSights below dir names first.2
      (first.1 ++ rest.1, rest.2)

def dirSights (w : Walk) : Nat → List FileName → List Path → Sights
  | 0, _, visited => ([], visited)
  | fuel + 1, dir, visited =>
      match w.disk.resolve (w.pathOf dir) with
      | .error e => ([.failure dir (.unresolved e)], visited)
      | .ok real =>
          if real ∈ visited then ([], visited)
          else
            match w.disk.list (w.pathOf dir) with
            | .error e =>
                (.listing dir ::
                  if dir.isEmpty then [.failure dir (.rootUnreadable e)] else [],
                  real :: visited)
            | .ok entries =>
                let rest := w.entriesSights (dirSights w fuel) dir
                  (sortNames entries) (real :: visited)
                (.listing dir :: rest.1, rest.2.filter (· ≠ real))

def sights (w : Walk) : List Sight :=
  (w.dirSights (w.disk.tree.dirCount + 1) [] []).1

theorem admits_eq_of {w : Walk} {names : List FileName} {text : Text} (isDir : Bool)
    (hlink : w.disk.isLink (w.pathOf names) = false ∨ w.followsLink (w.pathOf names) = .ok true)
    (hdir : w.disk.isDir (w.pathOf names) = .ok isDir) :
    w.admits (w.pathOf names) text =
      .ok (if w.excludes text isDir then none else some isDir) := by
  rcases hlink with hlink | hfollow
  · cases hkept : w.excludes text isDir <;>
      simp [admits, hlink, hdir, hkept, bind, Except.bind, pure, Except.pure]
  · cases hkept : w.excludes text isDir <;>
      simp [admits, hfollow, hdir, hkept, bind, Except.bind, pure, Except.pure]

/-! ## What the sights depend on -/

structure SameView (w v : Walk) : Prop where
  walker : v.walker = w.walker
  disk : v.disk = w.disk
  root : v.root = w.root
  rules : v.rules = w.rules
  stray : v.stray = w.stray
  followSymlinks : v.plan.followSymlinks = w.plan.followSymlinks

namespace SameView

variable {w v : Walk} {below : List FileName → List Path → Sights}

theorem pathOf_eq (h : w.SameView v) (names : List FileName) : v.pathOf names = w.pathOf names := by
  unfold pathOf
  rw [h.root]

theorem admits_eq (h : w.SameView v) (entry : Path) (path : Text) :
    v.admits entry path = w.admits entry path := by
  unfold admits followsLink excludes
  rw [h.walker, h.disk, h.root, h.rules, h.stray, h.followSymlinks]

theorem entriesSights_eq (h : w.SameView v) (dir names : List FileName) (visited : List Path) :
    v.entriesSights below dir names visited = w.entriesSights below dir names visited := by
  induction names generalizing visited with
  | nil => rfl
  | cons name names ih =>
      simp only [entriesSights, entrySights, sightsAt, ih, h.pathOf_eq, h.admits_eq, h.disk]

theorem dirSights_eq (h : w.SameView v) (fuel : Nat) : v.dirSights fuel = w.dirSights fuel := by
  induction fuel with
  | zero => rfl
  | succ fuel ih =>
      funext dir visited
      simp only [dirSights, ih, h.entriesSights_eq, h.pathOf_eq, h.disk]

/-- What a walk comes across depends on the files, the rules and the links it follows alone. -/
theorem sights_eq (h : w.SameView v) : v.sights = w.sights := by
  unfold sights
  rw [h.dirSights_eq, h.disk]

end SameView

/-! ## Meeting sights -/

/-- A walk that has stopped takes notice of nothing any more. -/
def meet (w : Walk) (s : Progress) (x : Sight) : Except ScanError Progress :=
  if s.stopped then return s
  else
    match x with
    | .listing _ => return s
    | .turn _ => return w.checkDeadline s
    | .misnamed names =>
        return addError (Path.joined names) "path is not valid UTF-8" s
    | .file names size => w.visitFile (w.pathOf names) (Path.joined names) size s
    | .failure _ e => throw e

def meetAll (w : Walk) (sights : List Sight) (s : Progress) :
    Except ScanError Progress :=
  sights.foldlM w.meet s

@[simp] theorem meetAll_nil (w : Walk) (s : Progress) : w.meetAll [] s = .ok s := rfl

theorem meetAll_cons (w : Walk) (x : Sight) (xs : List Sight) (s : Progress) :
    w.meetAll (x :: xs) s = w.meet s x >>= w.meetAll xs := rfl

theorem meetAll_append (w : Walk) (xs ys : List Sight) (s : Progress) :
    w.meetAll (xs ++ ys) s = w.meetAll xs s >>= w.meetAll ys := by
  exact List.foldlM_append

theorem meet_stopped (w : Walk) {s : Progress} (h : s.stopped = true) (x : Sight) :
    w.meet s x = .ok s := by
  simp only [meet, h, if_true]
  rfl

theorem meetAll_stopped (w : Walk) {s : Progress} (h : s.stopped = true)
    (xs : List Sight) : w.meetAll xs s = .ok s := by
  induction xs with
  | nil => rfl
  | cons x xs ih =>
      rw [meetAll_cons, w.meet_stopped h]
      exact ih

/-! ## Reading a file -/

def recordOf (w : Walk) (names : List FileName) (size : Nat) (content : Text) :
    FileRecord :=
  let registry := w.walker.registry
  let language := registry.classifyPath (w.pathOf names)
  { path := Path.joined names
    type := language.name
    size
    dependencies := registry.extractDependencies content language
    declarations :=
      registry.extractDeclarations w.walker.declarationLimit content language }

def reading (w : Walk) (names : List FileName) (size : Nat) :
    Except ReadFault FileRecord :=
  match w.disk.readFile (w.pathOf names) with
  | .error e => .error ⟨Path.joined names, e.message⟩
  | .ok bytes =>
      match Utf8.decode bytes with
      | .error e =>
          .error ⟨Path.joined names, ("decode error: " : Text) ++ e.fault.message⟩
      | .ok content => .ok (w.recordOf names size content)

def note (s : Progress) : Except ReadFault FileRecord → Progress
  | .error fault => { s with errors := s.errors ++ [fault] }
  | .ok record => addEntry (.record record) s

theorem readFile_eq_note (w : Walk) (names : List FileName) (size : Nat)
    (s : Progress) :
    w.readFile (w.pathOf names) (Path.joined names) size s =
      note s (w.reading names size) := by
  unfold readFile reading
  cases w.disk.readFile (w.pathOf names) with
  | error e => rfl
  | ok bytes =>
      simp only
      cases Utf8.decode bytes with
      | error e => rfl
      | ok content => rfl

/-! ## Visited directories do not matter to meeting -/

theorem checkDeadline_within (w : Walk) (s : Progress) (visited : List Path) :
    w.checkDeadline (s.within visited) = (w.checkDeadline s).within visited := by
  unfold checkDeadline
  cases w.deadline with
  | none => rfl
  | some deadline =>
      simp only [Progress.within]
      by_cases hearly : (w.clock (s.readings + 1 - 1)).lt deadline = true
      · simp only [hearly, if_true]
      · simp only [hearly, Bool.false_eq_true, if_false]

theorem visitFile_within (w : Walk) (names : List FileName) (size : Nat)
    (s : Progress) (visited : List Path) :
    w.visitFile (w.pathOf names) (Path.joined names) size (s.within visited) =
      (w.visitFile (w.pathOf names) (Path.joined names) size s).map
        (·.within visited) := by
  simp only [visitFile, readFile_eq_note]
  cases (w.plan.maxFileSize.isExceededBy size).mapError ScanError.misuse with
  | error e => rfl
  | ok large =>
      cases large with
      | true => rfl
      | false =>
          simp only [Progress.within]
          cases (w.plan.maxFiles.isReachedBy s.files.length).mapError
              ScanError.misuse with
          | error e => rfl
          | ok enough =>
              cases enough with
              | true => rfl
              | false => cases w.reading names size <;> rfl

theorem meet_within (w : Walk) (s : Progress) (visited : List Path) (x : Sight) :
    w.meet (s.within visited) x = (w.meet s x).map (·.within visited) := by
  unfold meet
  have hstop : (s.within visited).stopped = s.stopped := rfl
  rw [hstop]
  split
  · rfl
  · cases x with
    | listing dir => rfl
    | turn names =>
        change Except.ok _ = Except.ok _
        rw [checkDeadline_within]
    | misnamed names => rfl
    | file names size => exact w.visitFile_within names size s visited
    | failure names e => rfl

theorem meetAll_within (w : Walk) (xs : List Sight) (s : Progress)
    (visited : List Path) :
    w.meetAll xs (s.within visited) = (w.meetAll xs s).map (·.within visited) := by
  induction xs generalizing s with
  | nil => rfl
  | cons x xs ih =>
      rw [meetAll_cons, meetAll_cons, meet_within]
      cases w.meet s x with
      | error e => rfl
      | ok t => exact ih t

/-! ## Walking is meeting -/

/-- An outcome is that of meeting the sights one after the other.  If the walk has not
stopped by then, it leaves the visited directories that come with the sights. -/
def Tracks (w : Walk) (s : Progress) (sights : Sights)
    (outcome : Except ScanError Progress) : Prop :=
  match w.meetAll sights.1 s with
  | .error e => outcome = .error e
  | .ok t => ∃ visited, outcome = .ok (t.within visited) ∧
      (t.stopped = false → visited = sights.2)

theorem Tracks.nil (w : Walk) (s : Progress) :
    w.Tracks s ([], s.visited) (.ok s) :=
  ⟨s.visited, rfl, fun _ => rfl⟩

theorem tracks_within {w : Walk} {s : Progress} {visited : List Path}
    {sights : Sights} {outcome : Except ScanError Progress} :
    w.Tracks (s.within visited) sights outcome ↔ w.Tracks s sights outcome := by
  unfold Tracks
  rw [meetAll_within]
  cases w.meetAll sights.1 s with
  | error e => rfl
  | ok t => rfl

theorem Tracks.leave {w : Walk} {s : Progress} {sights : Sights}
    {outcome : Except ScanError Progress} (h : w.Tracks s sights outcome)
    (change : List Path → List Path) :
    w.Tracks s (sights.1, change sights.2)
      (outcome >>= fun t => .ok (t.within (change t.visited))) := by
  unfold Tracks at h ⊢
  cases hmeet : w.meetAll sights.1 s with
  | error e =>
      simp only [hmeet] at h ⊢
      subst h
      rfl
  | ok t =>
      simp only [hmeet] at h ⊢
      obtain ⟨visited, rfl, hvisited⟩ := h
      refine ⟨change visited, rfl, fun hrun => ?_⟩
      rw [hvisited hrun]

theorem Tracks.bind {w : Walk} {s : Progress} {first : Sights}
    {outcome : Except ScanError Progress} (h : w.Tracks s first outcome)
    (second : List Path → Sights) {next : Step}
    (hgo : ∀ t, t.stopped = false → w.Tracks t (second t.visited) (next t))
    (hstop : ∀ t, t.stopped = true → next t = .ok t) :
    w.Tracks s (first.1 ++ (second first.2).1, (second first.2).2)
      (outcome >>= next) := by
  unfold Tracks at h ⊢
  simp only [meetAll_append]
  cases hfirst : w.meetAll first.1 s with
  | error e =>
      simp only [hfirst] at h
      subst h
      rfl
  | ok t =>
      simp only [hfirst] at h
      obtain ⟨visited, rfl, hvisited⟩ := h
      cases hstopped : t.stopped with
      | true =>
          -- The sights that follow are no longer met, nor does the walk go on.
          have hrest : (Except.ok t >>= w.meetAll (second first.2).1) = .ok t :=
            w.meetAll_stopped hstopped _
          rw [hrest]
          refine ⟨visited, hstop (t.within visited) hstopped, ?_⟩
          intro hrun
          rw [hstopped] at hrun
          cases hrun
      | false =>
          obtain rfl := hvisited hstopped
          exact tracks_within.1 (hgo (t.within first.2) hstopped)

theorem Tracks.of_meetAll {w : Walk} {s : Progress} {xs : List Sight}
    {outcome : Except ScanError Progress} (h : w.meetAll xs s = outcome)
    (hvisited : ∀ t, outcome = .ok t → t.visited = s.visited) :
    w.Tracks s (xs, s.visited) outcome := by
  unfold Tracks
  rw [h]
  cases outcome with
  | error e => rfl
  | ok t =>
      refine ⟨t.visited, rfl, fun _ => ?_⟩
      exact hvisited t rfl

theorem checkDeadline_visited (w : Walk) (s : Progress) :
    (w.checkDeadline s).visited = s.visited := by
  unfold checkDeadline
  cases w.deadline with
  | none => rfl
  | some deadline =>
      simp only
      split <;> rfl

theorem visitFile_visited {w : Walk} {names : List FileName} {size : Nat}
    {s t : Progress}
    (h : w.visitFile (w.pathOf names) (Path.joined names) size s = .ok t) :
    t.visited = s.visited := by
  have hsame := w.visitFile_within names size s s.visited
  change w.visitFile _ _ _ s = _ at hsame
  rw [h] at hsame
  simp only [Except.map, Except.ok.injEq] at hsame
  rw [hsame]
  rfl

def takeUp (w : Walk) (descend : Path → List FileName → Step)
    (names : List FileName) : Step := fun s => do
  match (Path.joined names).text? with
  | none => return addError (Path.joined names) "path is not valid UTF-8" s
  | some text =>
      match ← (w.admits (w.pathOf names) text).mapError ScanError.disk with
      | none => return s
      | some true => descend (w.pathOf names) names s
      | some false =>
          match ← (w.disk.look (w.pathOf names)).mapError ScanError.disk with
          | some (.file content) =>
              w.visitFile (w.pathOf names) (Path.joined names) content.length s
          | _ => return s

theorem visitEntry_eq {w : Walk} {descend : Path → List FileName → Step}
    {dir : List FileName} {name : FileName} {s : Progress}
    (hs : s.stopped = false) :
    w.visitEntry descend (w.pathOf dir) dir s name =
      (Except.ok (w.checkDeadline s) >>= fun s =>
        if s.stopped then return s else w.takeUp descend (dir ++ [name]) s) := by
  unfold visitEntry takeUp
  rw [hs, pathOf_snoc]
  rfl

theorem takeUp_tracks {w : Walk} {below : List FileName → List Path → Sights}
    {descend : Path → List FileName → Step} {names : List FileName}
    (hbelow : ∀ t, t.stopped = false →
      w.Tracks t (below names t.visited) (descend (w.pathOf names) names t))
    {s : Progress} (hs : s.stopped = false) :
    w.Tracks s (w.sightsAt below names s.visited) (w.takeUp descend names s) := by
  have hfail : ∀ e : ScanError, w.Tracks s ([.failure names e], s.visited) (.error e) := by
    intro e
    simp [Tracks, meetAll_cons, meet, hs, throw, throwThe, MonadExceptOf.throw,
      bind, Except.bind]
  unfold sightsAt takeUp
  cases (Path.joined names).text? with
  | none =>
      refine Tracks.of_meetAll ?_ ?_
      · simp [meetAll_cons, meet, hs, bind, Except.bind, pure, Except.pure]
      · rintro t ⟨⟩
        rfl
  | some text =>
      simp only
      cases w.admits (w.pathOf names) text with
      | error e => exact hfail _
      | ok admitted =>
          cases admitted with
          | none => exact .nil w s
          | some isDir =>
              cases isDir with
              | true => exact hbelow s hs
              | false =>
                  simp only
                  cases w.disk.look (w.pathOf names) with
                  | error e => exact hfail _
                  | ok found =>
                      cases found with
                      | none => exact .nil w s
                      | some t =>
                          cases t with
                          | file content =>
                              refine Tracks.of_meetAll ?_
                                fun t => visitFile_visited
                              change _ = w.visitFile (w.pathOf names)
                                (Path.joined names) content.length s
                              simp only [meetAll_cons, meet, hs,
                                Bool.false_eq_true, if_false]
                              cases w.visitFile (w.pathOf names)
                                (Path.joined names) content.length s <;> rfl
                          | dir children => exact .nil w s
                          | link target => exact .nil w s
                          | pipe => exact .nil w s

theorem visitEntry_tracks {w : Walk} {dir : List FileName} {name : FileName}
    {below : List FileName → List Path → Sights}
    {descend : Path → List FileName → Step}
    (hbelow : ∀ names t, t.stopped = false →
      w.Tracks t (below names t.visited) (descend (w.pathOf names) names t))
    {s : Progress} (hs : s.stopped = false) :
    w.Tracks s (w.entrySights below dir name s.visited)
      (w.visitEntry descend (w.pathOf dir) dir s name) := by
  have hturn : w.Tracks s ([.turn (dir ++ [name])], s.visited)
      (.ok (w.checkDeadline s)) := by
    refine Tracks.of_meetAll ?_ ?_
    · simp [meetAll_cons, meet, hs, bind, Except.bind, pure, Except.pure]
    · rintro t ⟨⟩
      exact w.checkDeadline_visited s
  rw [visitEntry_eq hs]
  refine hturn.bind (w.sightsAt below (dir ++ [name])) ?_ ?_
  · intro t ht
    simp only [ht, Bool.false_eq_true, if_false]
    exact takeUp_tracks (hbelow _) ht
  · intro t ht
    simp only [ht, if_true]
    rfl

theorem entries_track {w : Walk} (dir entries : List FileName)
    {below : List FileName → List Path → Sights}
    {descend : Path → List FileName → Step}
    (hbelow : ∀ names t, t.stopped = false →
      w.Tracks t (below names t.visited) (descend (w.pathOf names) names t))
    {s : Progress} (hs : s.stopped = false) :
    w.Tracks s (w.entriesSights below dir entries s.visited)
      (entries.foldlM (w.visitEntry descend (w.pathOf dir) dir) s) := by
  induction entries generalizing s with
  | nil => exact .nil w s
  | cons name entries ih =>
      refine (visitEntry_tracks hbelow hs).bind
        (w.entriesSights below dir entries) (fun t ht => ih ht) ?_
      intro t ht
      -- A walk that has stopped passes over the rest of the entries.
      clear ih
      induction entries with
      | nil => rfl
      | cons name entries ih =>
          rw [List.foldlM_cons]
          simp only [visitEntry, ht, if_true]
          exact ih

/-- A walk through a directory meets the sights of the directory. -/
theorem directory_tracks (w : Walk) (fuel : Nat) (dir : List FileName)
    {s : Progress} (hs : s.stopped = false) :
    w.Tracks s (w.dirSights fuel dir s.visited)
      (w.directory fuel (w.pathOf dir) dir s) := by
  induction fuel generalizing dir s with
  | zero => exact .nil w s
  | succ fuel ih =>
      unfold dirSights directory
      cases w.disk.resolve (w.pathOf dir) with
      | error e =>
          simp [Tracks, meetAll_cons, meet, hs, throw, throwThe,
            MonadExceptOf.throw, bind, Except.bind, Except.mapError]
      | ok real =>
          simp only
          by_cases hreal : real ∈ s.visited
          · simp only [hreal, if_true]
            change w.Tracks s _ (if real ∈ s.visited then pure s else _)
            rw [if_pos hreal]
            exact .nil w s
          · simp only [hreal, if_false]
            change w.Tracks s _ (if real ∈ s.visited then pure s else _)
            rw [if_neg hreal]
            have hlisting : ∀ xs, w.meetAll (.listing dir :: xs) s =
                w.meetAll xs s := by
              intro xs
              rw [meetAll_cons]
              simp only [meet, hs, Bool.false_eq_true, if_false]
              rfl
            cases w.disk.list (w.pathOf dir) with
            | error e =>
                unfold Tracks
                simp only [hlisting]
                by_cases hroot : dir.isEmpty = true
                · simp [hroot, meetAll_cons, meet, hs, throw, throwThe,
                    MonadExceptOf.throw, bind, Except.bind]
                · simp only [hroot, Bool.false_eq_true, if_false, meetAll_nil]
                  exact ⟨real :: s.visited, rfl, fun _ => rfl⟩
            | ok entries =>
                -- The directory counts as visited while its entries are met.
                have hin : (s.within (real :: s.visited)).stopped = false := hs
                have hinner := tracks_within.1
                  (entries_track dir (sortNames entries) ih hin)
                have hleave := hinner.leave (List.filter (· ≠ real))
                unfold Tracks at hleave ⊢
                simp only [hlisting]
                exact hleave

end Walk

end SourceScan
