import SourceScan.Proofs.Scan.Disclosure

/-!
# Plans that cannot be made

The callers of a scan are prepared for a root that cannot be scanned.  For all else that may
go wrong with a plan they are not: links that lead in a circle, names that are too long, and
settings that hold a value of the wrong kind.  `Misfit` lists what can be wrong with the
settings and the ignore file.
-/

namespace SourceScan

open Disk

variable {α β ε : Type}

/-! ## Errors that callers are not prepared for -/

def ScanError.isUnavailable : ScanError → Bool
  | .rootMissing _ | .rootNotDirectory _ | .rootUnreadable _ => true
  | _ => false

def Crashes (x : Except ScanError α) : Prop := ∃ e, x = .error e ∧ e.isExpected = false

def Abrupt (x : Except ScanError α) : Prop := ∀ e, x = .error e → e.isExpected = false

/-- If it fails, the root cannot be scanned, or callers are not prepared. -/
def Orderly (x : Except ScanError α) : Prop :=
  ∀ e, x = .error e → e.isUnavailable = true ∨ e.isExpected = false

theorem not_crashes_ok (a : α) : ¬Crashes (.ok a) := by
  rintro ⟨e, h, -⟩
  cases h

theorem crashes_bind {x : Except ScanError α} {f : α → Except ScanError β} :
    Crashes (x >>= f) ↔ Crashes x ∨ ∃ a, x = .ok a ∧ Crashes (f a) :=
  exists_bind_error

theorem crashes_map {x : Except ScanError α} {f : α → β} : Crashes (x.map f) ↔ Crashes x := by
  cases x <;> simp [Crashes, Except.map]

theorem crashes_mapError {x : Except ε α} {f : ε → ScanError} (hf : ∀ e, (f e).isExpected = false) :
    Crashes (x.mapError f) ↔ ∃ e, x = .error e := by
  cases x <;> simp [Crashes, Except.mapError, hf]

theorem Abrupt.ok (a : α) : Abrupt (.ok a) := by
  rintro e ⟨⟩

theorem Abrupt.mapError {x : Except ε α} {f : ε → ScanError} (hf : ∀ e, (f e).isExpected = false) :
    Abrupt (x.mapError f) := by
  cases x with
  | error e =>
      rintro - ⟨⟩
      exact hf e
  | ok a => exact .ok a

theorem Abrupt.bind {x : Except ScanError α} {f : α → Except ScanError β} (hx : Abrupt x)
    (hf : ∀ a, Abrupt (f a)) : Abrupt (x >>= f) := by
  cases x with
  | error e =>
      rintro e' ⟨⟩
      exact hx e rfl
  | ok a => exact hf a

theorem Abrupt.crashes_bind {x : Except ScanError α} {f : α → Except ScanError β} {q : Prop}
    (hx : Abrupt x) (hf : ∀ a, x = .ok a → (Crashes (f a) ↔ q)) :
    Crashes (x >>= f) ↔ Crashes x ∨ q := by
  cases hstep : x with
  | error e => exact iff_of_true ⟨e, rfl, hx e hstep⟩ (.inl ⟨e, rfl, hx e hstep⟩)
  | ok a => exact (hf a hstep).trans (or_iff_right (not_crashes_ok a)).symm

theorem Abrupt.orderly {x : Except ScanError α} (hx : Abrupt x) : Orderly x :=
  fun e he => .inr (hx e he)

theorem Orderly.bind {x : Except ScanError α} {f : α → Except ScanError β} (hx : Orderly x)
    (hf : ∀ a, x = .ok a → Orderly (f a)) : Orderly (x >>= f) := by
  cases x with
  | error e =>
      rintro e' ⟨⟩
      exact hx e rfl
  | ok a => exact hf a rfl

theorem Orderly.map {x : Except ScanError α} (hx : Orderly x) (f : α → β) :
    Orderly (x.map f) := by
  cases x with
  | error e =>
      rintro e' ⟨⟩
      exact hx e rfl
  | ok a => rintro e ⟨⟩

/-! ## Values of the wrong kind -/

namespace Value

theorem exists_error_elements {v : Value} :
    (∃ e, v.elements = .error e) ↔ v.isTruthy = true ∧ v.elements? = none := by
  unfold elements
  cases v.isTruthy with
  | false => simp
  | true => cases v.elements? <;> simp

theorem exists_error_entries {v : Value} :
    (∃ e, v.entries = .error e) ↔ v.isTruthy = true ∧ ∀ es, v ≠ .map es := by
  unfold entries
  cases htrue : v.isTruthy with
  | false => simp
  | true => cases v <;> simp

theorem mem_of_entries {v : Value} {es : List (Value × Value)} (h : v.entries = .ok es)
    (e : Value × Value) : e ∈ es ↔ ∃ es', v = .map es' ∧ e ∈ es' := by
  unfold entries at h
  split at h
  · next hfalse =>
      cases h
      refine iff_of_false List.not_mem_nil ?_
      rintro ⟨es', rfl, he⟩
      cases es' with
      | nil => cases he
      | cons first rest => simp [isTruthy] at hfalse
  · cases v with
    | map entries =>
        cases h
        simp
    | _ => cases h

theorem exists_error_shownText {v : Value} :
    (∃ e, v.shownText = .error e) ↔ v.toText = .error ⟨⟩ := by
  unfold shownText
  cases v.toText <;> simp [Except.mapError]

theorem exists_error_path {v : Value} : (∃ e, v.path = .error e) ↔ ∀ s, v ≠ .str s := by
  cases v <;> simp [path]

/-- The value does not spell out patterns: it cannot be gone through, or there is an element with
too many digits among those that it yields. -/
inductive NoPatterns (v : Value) : Prop
  | shape (given : v.isTruthy = true) (shape : v.elements? = none)
  | long {vs : List Value} {p : Value} (yields : v.elements = .ok vs) (mem : p ∈ vs)
      (long : p.toText = .error ⟨⟩)

theorem noPatterns_iff {v : Value} : v.NoPatterns ↔ (∃ e, v.elements = .error e) ∨
    ∃ vs, v.elements = .ok vs ∧ ∃ p ∈ vs, p.toText = .error ⟨⟩ := by
  rw [exists_error_elements]
  constructor
  · rintro (⟨hgiven, hshape⟩ | ⟨hyields, hmem, hlong⟩)
    · exact .inl ⟨hgiven, hshape⟩
    · exact .inr ⟨_, hyields, _, hmem, hlong⟩
  · rintro (⟨hgiven, hshape⟩ | ⟨vs, hyields, p, hmem, hlong⟩)
    · exact .shape hgiven hshape
    · exact .long hyields hmem hlong

end Value

namespace Plan

variable {d : Disk} {p root : Path} {settings : ScannerSettings} {host : Option Value}
  {v : Value} {vs : List Value} {rules : List Rule} {source : RuleSource} {found : List Text}

theorem exists_error_addPatterns :
    (∃ e, addPatterns rules source vs = .error e) ↔ ∃ v ∈ vs, v.toText = .error ⟨⟩ := by
  have hmap : (∃ e, addPatterns rules source vs = .error e) ↔
      ∃ e, vs.mapM Value.shownText = .error e := by
    unfold addPatterns
    cases vs.mapM Value.shownText <;> simp [bind, Except.bind, pure, Except.pure]
  rw [hmap, exists_mapM_error]
  simp only [Value.exists_error_shownText]

/-! ## The root -/

theorem rootOf_of_real {real : Path} (hreal : d.resolve p = .ok real) : rootOf d p =
    match d.ask real with
    | .error e => .error (.disk e)
    | .ok none => .error (.rootMissing real)
    | .ok (some t) => if t.isDirectory then .ok real else .error (.rootNotDirectory real) := by
  unfold rootOf
  rw [hreal]
  change ((d.exists? real).mapError ScanError.disk >>= _) = _
  unfold Disk.exists?
  rcases hask : d.ask real with e | _ | t
  · rfl
  · rfl
  · have hshort : real.fault? ≠ some .nameTooLong := by
      intro hlong
      obtain ⟨e, he⟩ := exists_error_ask.2 (.inl hlong)
      cases he.symm.trans hask
    change ((d.isDir real).mapError ScanError.disk >>= _) = _
    unfold Disk.isDir
    rw [← ask_eq_look hshort, hask]
    cases t <;> rfl

theorem orderly_rootOf : Orderly (rootOf d p) := by
  intro e he
  cases hreal : d.resolve p with
  | error cause =>
      rw [rootOf, hreal] at he
      cases he
      exact .inr (by cases cause <;> rfl)
  | ok real =>
      rw [rootOf_of_real hreal] at he
      split at he
      · cases he
        exact .inr rfl
      · cases he
        exact .inl rfl
      · split at he
        · cases he
        · cases he
          exact .inl rfl

inductive Unrooted (d : Disk) (p : Path) : Prop
  /-- It has no real path: its links lead in a circle, or there is a null byte in it. -/
  | unresolved {cause : Unresolved} (unreal : d.resolve p = .error cause)
  /-- The real path is too long, or a name in it is. -/
  | tooLong {real : Path} (resolved : d.resolve p = .ok real) (long : d.TooLong real)

theorem crashes_rootOf : Crashes (rootOf d p) ↔ Unrooted d p := by
  cases hreal : d.resolve p with
  | error cause =>
      refine iff_of_true ⟨.unresolved cause, ?_, by cases cause <;> rfl⟩ (.unresolved hreal)
      rw [rootOf, hreal]
      rfl
  | ok real =>
      have hlong : Unrooted d p ↔ d.TooLong real := by
        constructor
        · rintro (hunreal | ⟨hreal', hlong⟩)
          · cases hreal.symm.trans hunreal
          · cases hreal.symm.trans hreal'
            exact hlong
        · exact .tooLong hreal
      rw [rootOf_of_real hreal, hlong, ← exists_error_ask]
      rcases d.ask real with e | _ | t
      · exact iff_of_true ⟨_, rfl, rfl⟩ ⟨e, rfl⟩
      · simp [Crashes, ScanError.isExpected]
      · cases ht : t.isDirectory <;> simp [Crashes, ScanError.isExpected, ht]

/-! ## Settings -/

def hostMap (settings : ScannerSettings) (host : Option Value) : Value :=
  host.getD settings.hostExcludes

/-- What keeps settings from being turned into a plan if the root is a directory. -/
inductive Misfit (d : Disk) (root : Path) (settings : ScannerSettings) (host : Option Value) : Prop
  | hosts (used : settings.useHostExcludes.isTruthy = true)
      (given : (hostMap settings host).isTruthy = true)
      (shape : ∀ es, hostMap settings host ≠ .map es)
  | host {es : List (Value × Value)} {p on : Value}
      (used : settings.useHostExcludes.isTruthy = true) (shape : hostMap settings host = .map es)
      (mem : (p, on) ∈ es) (enabled : on.isTruthy = true) (long : p.toText = .error ⟨⟩)
  | ignoreFile (used : settings.useGitignore.isTruthy = true)
      (long : d.TooLong (ignoreFile root))
  | legacy (patterns : settings.ignorePatterns.NoPatterns)
  | explicit (patterns : settings.excludePatterns.NoPatterns)
  | output (shape : ∀ s, settings.outputFile ≠ .str s)

theorem exists_error_patterns {f : List Rule → Except Misuse β} {q : Prop}
    (hf : ∀ rules, (∃ e, f rules = .error e) ↔ q) :
    (∃ e, (v.elements >>= fun vs => addPatterns rules source vs >>= f) = .error e) ↔
      v.NoPatterns ∨ q := by
  rw [Value.noPatterns_iff, or_assoc]
  refine exists_error_bind fun vs hyields => ?_
  have hlong : (∃ e, addPatterns rules source vs = .error e) ↔
      ∃ vs, v.elements = .ok vs ∧ ∃ p ∈ vs, p.toText = .error ⟨⟩ := by
    rw [exists_error_addPatterns, hyields]
    simp only [Except.ok.injEq, exists_eq_left']
  rw [← hlong]
  exact exists_error_bind fun more _ => hf more

theorem crashes_complete : Crashes (complete root settings vs found) ↔
    settings.ignorePatterns.NoPatterns ∨ settings.excludePatterns.NoPatterns ∨
      (∃ p ∈ vs, p.toText = .error ⟨⟩) ∨ ∀ s, settings.outputFile ≠ .str s := by
  have hhost : ∀ rules, (∃ e, (addPatterns rules .host vs >>= fun rules =>
      pure (Rule.insertPatterns rules .gitignore found)) = .error e) ↔
        ∃ p ∈ vs, p.toText = .error ⟨⟩ := by
    intro rules
    rw [← @exists_error_addPatterns vs rules .host]
    cases addPatterns rules .host vs <;> simp [bind, Except.bind, pure, Except.pure]
  have hexplicit := fun rules =>
    @exists_error_patterns _ settings.excludePatterns rules .explicit _ _ hhost
  have hlegacy := @exists_error_patterns _ settings.ignorePatterns [] .legacy _ _ hexplicit
  have hmerged := or_congr_left (c := ∀ s, settings.outputFile ≠ .str s) hlegacy
  rw [or_assoc, or_assoc] at hmerged
  unfold complete
  refine ((Abrupt.mapError fun _ => rfl).crashes_bind fun rules _ => ?_).trans
    ((or_congr_left (crashes_mapError fun _ => rfl)).trans hmerged)
  rw [← Value.exists_error_path]
  refine ((Abrupt.mapError fun _ => rfl).crashes_bind fun output _ => ?_).trans
    ((or_iff_left id).trans (crashes_mapError fun _ => rfl))
  exact iff_false_intro (not_crashes_ok _)

theorem crashes_hostPatterns : Crashes (hostPatterns settings host) ↔
    settings.useHostExcludes.isTruthy = true ∧ (hostMap settings host).isTruthy = true ∧
      ∀ es, hostMap settings host ≠ .map es := by
  unfold hostPatterns
  split
  · next hused =>
      have henabled : (∃ e, enabled (hostMap settings host) = .error e) ↔
          ∃ e, (hostMap settings host).entries = .error e := by
        unfold enabled
        cases (hostMap settings host).entries <;> simp [bind, Except.bind, pure, Except.pure]
      rw [crashes_mapError fun _ => rfl, ← Value.exists_error_entries, ← henabled]
      exact (and_iff_right hused).symm
  · next hunused => exact iff_of_false (not_crashes_ok _) fun h => hunused h.1

theorem mem_hostPatterns (h : hostPatterns settings host = .ok vs) :
    v ∈ vs ↔ settings.useHostExcludes.isTruthy = true ∧ ∃ es on,
      hostMap settings host = .map es ∧ (v, on) ∈ es ∧ on.isTruthy = true := by
  unfold hostPatterns at h
  split at h
  · next hused =>
      obtain ⟨entries, hentries, h⟩ := ok_of_bind (ok_of_mapError h)
      cases h
      simp only [List.mem_map, List.mem_filter, Value.mem_of_entries hentries, hused, true_and]
      constructor
      · rintro ⟨⟨v, on⟩, ⟨⟨es, hmap, hmem⟩, hon⟩, rfl⟩
        exact ⟨es, on, hmap, hmem, hon⟩
      · rintro ⟨es, on, hmap, hmem, hon⟩
        exact ⟨(v, on), ⟨⟨es, hmap, hmem⟩, hon⟩, rfl⟩
  · next hunused =>
      cases h
      simp [hunused]

theorem exists_long_hostPatterns (h : hostPatterns settings host = .ok vs) :
    (∃ v ∈ vs, v.toText = .error ⟨⟩) ↔ settings.useHostExcludes.isTruthy = true ∧
      ∃ es p on, hostMap settings host = .map es ∧ (p, on) ∈ es ∧ on.isTruthy = true ∧
        p.toText = .error ⟨⟩ := by
  simp only [mem_hostPatterns h]
  constructor
  · rintro ⟨p, ⟨hused, es, on, hmap, hmem, hon⟩, hlong⟩
    exact ⟨hused, es, p, on, hmap, hmem, hon, hlong⟩
  · rintro ⟨hused, es, p, on, hmap, hmem, hon, hlong⟩
    exact ⟨p, ⟨hused, es, on, hmap, hmem, hon⟩, hlong⟩

theorem crashes_ignored : Crashes (ignored d settings root) ↔
    settings.useGitignore.isTruthy = true ∧ d.TooLong (ignoreFile root) := by
  unfold ignored
  split
  · next hused =>
      have hload : (∃ e, IgnoreFile.load d (ignoreFile root) = .error e) ↔
          ∃ e, d.isFile (ignoreFile root) = .error e := by
        rw [load_eq]
        cases d.isFile (ignoreFile root) <;> simp [Except.map]
      rw [crashes_mapError fun _ => rfl, hload, exists_error_isFile]
      exact (and_iff_right hused).symm
  · next hunused => exact iff_of_false (not_crashes_ok _) fun h => hunused h.1

theorem abrupt_hostPatterns : Abrupt (hostPatterns settings host) := by
  unfold hostPatterns
  split
  · exact .mapError fun _ => rfl
  · exact .ok []

theorem abrupt_ignored : Abrupt (ignored d settings root) := by
  unfold ignored
  split
  · exact .mapError fun _ => rfl
  · exact .ok []

theorem abrupt_complete : Abrupt (complete root settings vs found) :=
  .bind (.mapError fun _ => rfl) fun _ => .bind (.mapError fun _ => rfl) fun _ => .ok _

theorem misfit_iff : Misfit d root settings host ↔
    Crashes (hostPatterns settings host) ∨ Crashes (ignored d settings root) ∨
      settings.ignorePatterns.NoPatterns ∨ settings.excludePatterns.NoPatterns ∨
        (settings.useHostExcludes.isTruthy = true ∧
          ∃ es p on, hostMap settings host = .map es ∧ (p, on) ∈ es ∧ on.isTruthy = true ∧
            p.toText = .error ⟨⟩) ∨
          ∀ s, settings.outputFile ≠ .str s := by
  rw [crashes_hostPatterns, crashes_ignored]
  constructor
  · rintro (⟨hused, hgiven, hshape⟩ | ⟨hused, hmap, hmem, hon, hlong⟩ | ⟨hused, hlong⟩ |
      hlegacy | hexplicit | houtput)
    · exact .inl ⟨hused, hgiven, hshape⟩
    · exact .inr (.inr (.inr (.inr (.inl ⟨hused, _, _, _, hmap, hmem, hon, hlong⟩))))
    · exact .inr (.inl ⟨hused, hlong⟩)
    · exact .inr (.inr (.inl hlegacy))
    · exact .inr (.inr (.inr (.inl hexplicit)))
    · exact .inr (.inr (.inr (.inr (.inr houtput))))
  · rintro (⟨hused, hgiven, hshape⟩ | ⟨hused, hlong⟩ | hlegacy | hexplicit |
      ⟨hused, es, p, on, hmap, hmem, hon, hlong⟩ | houtput)
    · exact .hosts hused hgiven hshape
    · exact .ignoreFile hused hlong
    · exact .legacy hlegacy
    · exact .explicit hexplicit
    · exact .host hused hmap hmem hon hlong
    · exact .output houtput

/-- Apart from a root that does so, misfit settings are all that makes a plan fail in a way
that callers are not prepared for. -/
theorem crashes_make : Crashes (make d p settings host) ↔ Crashes (rootOf d p) ∨
    ∃ root, rootOf d p = .ok root ∧ Misfit d root settings host := by
  rw [make_eq, crashes_bind]
  refine or_congr_right (exists_congr fun root => and_congr_right fun _ => ?_)
  rw [misfit_iff]
  refine abrupt_hostPatterns.crashes_bind fun hosts hhosts => ?_
  refine abrupt_ignored.crashes_bind fun found _ => ?_
  rw [crashes_complete, exists_long_hostPatterns hhosts]

theorem orderly_make : Orderly (make d p settings host) := by
  rw [make_eq]
  refine orderly_rootOf.bind fun root _ => Abrupt.orderly ?_
  exact abrupt_hostPatterns.bind fun hosts => abrupt_ignored.bind fun found => abrupt_complete

end Plan

end SourceScan
