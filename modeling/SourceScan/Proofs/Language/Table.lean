import SourceScan.Proofs.Language.Refusal

/-!
# Tables that cannot be loaded

Whoever loads a table of languages is prepared for a file that is missing and for content that
is refused.  The values of an entry are not checked before they are used, however, and so errors
of their use come out: extensions that cannot be gone through, a pattern that is no text, or one
with a number in it that is too large, be it of repetitions or for a character.  The first entry
that cannot be taken over decides.
-/

namespace SourceScan

variable {α β : Type}

/-! ## Errors that come out -/

/-- Whether whoever loads a table is prepared for the error. -/
def TableError.isExpected : TableError → Bool
  | .missing _ | .notText _ | .notMapping _ => true
  | .yaml fault => fault.isExpected
  | .misuse m => m = .tooLong
  | .register (.badPattern _ _ (.tooLarge _)) => false
  | .register _ => true

def Escapes (x : Except TableError α) : Prop := ∃ e, x = .error e ∧ e.isExpected = false

theorem not_escapes_ok (a : α) : ¬Escapes (.ok a) := by
  rintro ⟨e, ⟨⟩, -⟩

theorem escapes_error {e : TableError} :
    Escapes (.error e : Except TableError α) ↔ e.isExpected = false := by
  simp [Escapes]

theorem escapes_bind {x : Except TableError α} {f : α → Except TableError β} :
    Escapes (x >>= f) ↔ Escapes x ∨ ∃ a, x = .ok a ∧ Escapes (f a) :=
  exists_bind_error

theorem escapes_mapError {x : Except Misuse α} :
    Escapes (x.mapError TableError.misuse) ↔ ∃ m, x = .error m ∧ m ≠ .tooLong := by
  cases x <;> simp [Escapes, mapError_ok, mapError_error, TableError.isExpected]

/-! ## The values of an entry -/

namespace Value

inductive Spells : Value → Regex.Source → Prop
  | str (s : Text) : Spells (.str s) (.text s)
  | bytes (b : Bytes) : Spells (.bytes b) (.bytes b)

inductive Readable (known : Regex.CharacterNames) (v : Value) : Prop
  | absent (none : v.isTruthy = false)
  | pattern {s : Regex.Source} {p : Regex} (spelled : v.Spells s)
      (read : Regex.parse known s = .ok p)

/-- What is given is neither text nor bytes, or has a number that is too large in it. -/
inductive Unusable (known : Regex.CharacterNames) (v : Value) : Prop
  | kind (given : v.isTruthy = true) (shape : ∀ s, ¬v.Spells s)
  | bound {s : Regex.Source} {what : Regex.LargeNumber} (spelled : v.Spells s)
      (bound : Regex.parse known s = .error (.tooLarge what))

theorem eq_tooLong_of_shownText {v : Value} {m : Misuse} (h : v.shownText = .error m) :
    m = .tooLong := by
  unfold shownText at h
  cases htext : v.toText with
  | error e =>
      rw [htext] at h
      cases h
      rfl
  | ok s =>
      rw [htext] at h
      cases h

end Value

namespace Registry

theorem exists_error_givenExtensions {v : Value} :
    (∃ m, givenExtensions v = .error m ∧ m ≠ .tooLong) ↔
      v.isTruthy = true ∧ v.elements? = none := by
  have hshown : ∀ {vs : List Value} {m : Misuse}, vs.mapM Value.shownText = .error m →
      m = .tooLong := by
    intro vs m h
    obtain ⟨v, -, hv⟩ := of_mapM_error h
    exact Value.eq_tooLong_of_shownText hv
  unfold givenExtensions Value.elements
  cases htrue : v.isTruthy with
  | false => simp [bind, Except.bind, pure, Except.pure]
  | true =>
      cases hshape : v.elements? with
      | none => simp [bind, Except.bind]
      | some vs =>
          refine iff_of_false ?_ (by simp)
          rintro ⟨m, hm, hne⟩
          exact hne (hshown hm)

theorem givenPattern_cases (v : Value) :
    (v.isTruthy = false ∧ givenPattern v = .ok none) ∨
      (∃ s, v.Spells s ∧ s.letters ≠ [] ∧ givenPattern v = .ok (some s)) ∨
      ∃ m, (v.isTruthy = true ∧ ∀ s, ¬v.Spells s) ∧ m ≠ .tooLong ∧ givenPattern v = .error m := by
  unfold givenPattern
  cases htrue : v.isTruthy with
  | false => exact .inl ⟨rfl, rfl⟩
  | true =>
      cases v with
      | str s =>
          refine .inr (.inl ⟨_, .str s, ?_, rfl⟩)
          rintro (rfl : s = [])
          cases htrue
      | bytes b =>
          refine .inr (.inl ⟨_, .bytes b, ?_, rfl⟩)
          intro hnil
          obtain rfl : b = [] := List.map_eq_nil_iff.1 hnil
          cases htrue
      | _ =>
          refine .inr (.inr ⟨_, ⟨rfl, ?_⟩, ?_, rfl⟩)
          · rintro s ⟨⟩
          · simp

end Registry

namespace Value

variable {v : Value} {s s' : Regex.Source}

theorem Spells.unique (h : v.Spells s) (h' : v.Spells s') : s = s' := by
  cases h <;> cases h' <;> rfl

theorem Spells.isTruthy_iff (h : v.Spells s) : v.isTruthy = true ↔ s.letters ≠ [] := by
  cases h <;> simp [isTruthy, Regex.Source.letters]

end Value

namespace Registry

variable {known : Regex.CharacterNames}

def Unbounded (known : Regex.CharacterNames) (given : Option Regex.Source) : Prop :=
  ∃ source what, FailsWith known given source (.tooLarge what)

theorem Unbounded.unreadable {given : Option Regex.Source} (h : Unbounded known given) :
    Unreadable known given := by
  obtain ⟨source, what, h⟩ := h
  exact ⟨source, _, h⟩

theorem failsWith_some {source source' : Regex.Source} {e : Regex.SyntaxError}
    (hne : source.letters ≠ []) : FailsWith known (some source) source' e ↔
      source' = source ∧ Regex.parse known source = .error e := by
  constructor
  · rintro ⟨⟨⟩, -, h⟩
    exact ⟨rfl, h⟩
  · rintro ⟨rfl, h⟩
    exact ⟨rfl, hne, h⟩

theorem not_unreadable_some {source : Regex.Source} (hne : source.letters ≠ []) :
    ¬Unreadable known (some source) ↔ ∃ p, Regex.parse known source = .ok p := by
  unfold Unreadable
  simp only [failsWith_some hne]
  cases Regex.parse known source <;> simp

theorem unbounded_some {source : Regex.Source} (hne : source.letters ≠ []) :
    Unbounded known (some source) ↔ ∃ what, Regex.parse known source = .error (.tooLarge what) := by
  unfold Unbounded
  simp only [failsWith_some hne, exists_and_left, exists_eq_left]

theorem parse_of_empty {source : Regex.Source} (h : source.letters = []) :
    Regex.parse known source = .ok (.seq []) := by
  simp only [Regex.parse, h]
  rfl

theorem readable_iff (v : Value) : v.Readable known ↔
    ∃ given, givenPattern v = .ok given ∧ ¬Unreadable known given := by
  rcases givenPattern_cases v with ⟨hfalse, hgiven⟩ | ⟨s, hs, hne, hgiven⟩ |
    ⟨m, ⟨htrue, hshape⟩, -, hgiven⟩
  · exact iff_of_true (.absent hfalse) ⟨none, hgiven, not_unreadable_none⟩
  · simp only [hgiven, Except.ok.injEq, exists_eq_left', not_unreadable_some hne]
    constructor
    · rintro (hfalse | ⟨hs', hp⟩)
      · simp [hs.isTruthy_iff.2 hne] at hfalse
      · rw [hs.unique hs']
        exact ⟨_, hp⟩
    · rintro ⟨p, hp⟩
      exact .pattern hs hp
  · simp only [hgiven, reduceCtorEq, false_and, exists_false, iff_false]
    rintro (hfalse | ⟨hs, -⟩)
    · simp [htrue] at hfalse
    · exact hshape _ hs

theorem unusable_iff (v : Value) :
    v.Unusable known ↔ (∃ m, givenPattern v = .error m ∧ m ≠ .tooLong) ∨
      ∃ given, givenPattern v = .ok given ∧ Unbounded known given := by
  rcases givenPattern_cases v with ⟨hfalse, hgiven⟩ | ⟨s, hs, hne, hgiven⟩ |
    ⟨m, ⟨htrue, hshape⟩, hm, hgiven⟩
  · refine iff_of_false ?_ ?_
    · rintro (⟨htrue, -⟩ | @⟨s, what, hs, hbound⟩)
      · simp [hfalse] at htrue
      · have hnil : s.letters = [] := by simpa [hfalse] using hs.isTruthy_iff
        cases (parse_of_empty hnil).symm.trans hbound
    · simp only [hgiven]
      rintro (⟨m, ⟨⟩, -⟩ | ⟨given, ⟨⟩, source, what, ⟨⟩, -⟩)
  · simp only [hgiven, reduceCtorEq, false_and, exists_false, false_or, Except.ok.injEq,
      exists_eq_left', unbounded_some hne]
    constructor
    · rintro (⟨-, hshape⟩ | ⟨hs', hbound⟩)
      · exact absurd hs (hshape s)
      · rw [hs.unique hs']
        exact ⟨_, hbound⟩
    · rintro ⟨what, hbound⟩
      exact .bound hs hbound
  · exact iff_of_true (.kind htrue hshape) (.inl ⟨m, hgiven, hm⟩)

/-! ## Entries -/

variable {r : Registry} {name : Text} {extensions : List Text}
  {dependencies declarations : Option Regex.Source}

def enter (known : Regex.CharacterNames) (r : Registry) (name : Text) (extensions : List Text)
    (dependencies declarations : Option Regex.Source) : Except TableError Registry :=
  match r.register name extensions dependencies declarations known with
  | (r, none) => .ok r
  | (_, some e) => .error (.register e)

theorem exists_enter_ok (hname : Language.ofName name ≠ .unknown) :
    (∃ r', r.enter known name extensions dependencies declarations = .ok r') ↔
      ¬Unreadable known dependencies ∧ ¬Unreadable known declarations := by
  unfold enter
  rcases register_cases known r extensions dependencies declarations hname with
    ⟨patterns, heq, hreadable⟩ | ⟨source, e, heq, hfails⟩
  · rw [heq]
    exact iff_of_true ⟨_, rfl⟩ hreadable
  · rw [heq]
    refine iff_of_false (by simp) ?_
    rintro ⟨hreadable, hreadable'⟩
    rcases hfails with hfails | ⟨-, hfails⟩
    · exact hreadable ⟨source, e, hfails⟩
    · exact hreadable' ⟨source, e, hfails⟩

theorem FailsWith.unique {given : Option Regex.Source} {source source' : Regex.Source}
    {e e' : Regex.SyntaxError} (h : FailsWith known given source e)
    (h' : FailsWith known given source' e') : e = e' := by
  obtain ⟨rfl, -, h⟩ := h
  obtain ⟨⟨⟩, -, h'⟩ := h'
  cases h.symm.trans h'
  rfl

theorem FailsWith.unbounded_iff {given : Option Regex.Source} {source : Regex.Source}
    {e : Regex.SyntaxError} (h : FailsWith known given source e) :
    Unbounded known given ↔ ∃ what, e = .tooLarge what := by
  constructor
  · rintro ⟨source', what, h'⟩
    exact ⟨what, h.unique h'⟩
  · rintro ⟨what, rfl⟩
    exact ⟨source, what, h⟩

theorem isExpected_badPattern (language : Language) (source : Text) (e : Regex.SyntaxError) :
    (TableError.register (.badPattern language source e)).isExpected = false ↔
      ∃ what, e = .tooLarge what := by
  cases e <;> simp [TableError.isExpected]

theorem escapes_enter (hname : Language.ofName name ≠ .unknown) :
    Escapes (r.enter known name extensions dependencies declarations) ↔
      Unbounded known dependencies ∨
        ¬Unreadable known dependencies ∧ Unbounded known declarations := by
  unfold enter
  rcases register_cases known r extensions dependencies declarations hname with
    ⟨patterns, heq, hreadable, hreadable'⟩ | ⟨source, e, heq, hfails⟩
  · rw [heq]
    refine iff_of_false (not_escapes_ok _) ?_
    rintro (hbound | ⟨-, hbound⟩)
    · exact hreadable hbound.unreadable
    · exact hreadable' hbound.unreadable
  · rw [heq]
    refine escapes_error.trans ((isExpected_badPattern _ _ _).trans ?_)
    rcases hfails with hfails | ⟨hreadable, hfails⟩
    · rw [hfails.unbounded_iff]
      exact (or_iff_left fun h => h.1 ⟨source, e, hfails⟩).symm
    · rw [hfails.unbounded_iff]
      have hbound : ¬Unbounded known dependencies := fun h => hreadable h.unreadable
      simp only [hbound, hreadable, not_false_eq_true, true_and, false_or]

def valueOf (key : String) (entry : List (Value × Value)) : Value :=
  (Value.field? key entry).getD .null

variable {entry : List (Value × Value)}

/-- A registration with the pattern of declarations that a value gives.  Whether the value is
text shows only once the other pattern has been read. -/
def enterDeclared (known : Regex.CharacterNames) (r : Registry) (name : Text)
    (extensions : List Text) (dependencies : Option Regex.Source) (v : Value) :
    Except TableError Registry :=
  match givenPattern v with
  | .ok declarations => r.enter known name extensions dependencies declarations
  | .error m => do
      let _ ← r.enter known name extensions dependencies none
      throw (.misuse m)

theorem addEntry_eq (r : Registry) (name : Text) (entry : List (Value × Value)) :
    r.addEntry known name entry = (do
      let extensions ← (givenExtensions (valueOf "extensions" entry)).mapError TableError.misuse
      let dependencies ← (givenPattern (valueOf "dependencies" entry)).mapError TableError.misuse
      r.enterDeclared known name extensions dependencies (valueOf "structure" entry)) :=
  rfl

structure Fits (known : Regex.CharacterNames) (entry : List (Value × Value)) : Prop where
  extensions : ∃ extensions, givenExtensions (valueOf "extensions" entry) = .ok extensions
  dependencies : (valueOf "dependencies" entry).Readable known
  declarations : (valueOf "structure" entry).Readable known

/-- The first field that cannot be used is of the wrong kind, or has a number that is too large. -/
inductive Misshapen (known : Regex.CharacterNames) (entry : List (Value × Value)) : Prop
  | extensions (given : (valueOf "extensions" entry).isTruthy = true)
      (shape : (valueOf "extensions" entry).elements? = none)
  | dependencies
      (listed : ∃ extensions, givenExtensions (valueOf "extensions" entry) = .ok extensions)
      (unusable : (valueOf "dependencies" entry).Unusable known)
  | declarations
      (listed : ∃ extensions, givenExtensions (valueOf "extensions" entry) = .ok extensions)
      (readable : (valueOf "dependencies" entry).Readable known)
      (unusable : (valueOf "structure" entry).Unusable known)

theorem exists_enterDeclared_ok (hname : Language.ofName name ≠ .unknown) (v : Value) :
    (∃ r', r.enterDeclared known name extensions dependencies v = .ok r') ↔
      ¬Unreadable known dependencies ∧ v.Readable known := by
  rw [readable_iff]
  unfold enterDeclared
  cases hgiven : givenPattern v with
  | ok declarations => simpa using exists_enter_ok hname
  | error m => simp [exists_bind_ok, throw, throwThe, MonadExceptOf.throw]

theorem escapes_enterDeclared (hname : Language.ofName name ≠ .unknown) (v : Value) :
    Escapes (r.enterDeclared known name extensions dependencies v) ↔ Unbounded known dependencies ∨
      ¬Unreadable known dependencies ∧ v.Unusable known := by
  rw [unusable_iff]
  unfold enterDeclared
  cases hgiven : givenPattern v with
  | ok declarations => simpa using escapes_enter hname
  | error m =>
      have hm : m ≠ .tooLong := by
        rcases givenPattern_cases v with ⟨-, h⟩ | ⟨s, -, -, h⟩ | ⟨m', -, hm', h⟩ <;>
          cases hgiven.symm.trans h
        exact hm'
      have hnone : ¬Unbounded known none := fun h => not_unreadable_none h.unreadable
      have hthrow : Escapes (throw (.misuse m) : Except TableError Registry) :=
        escapes_error.2 (by simpa [TableError.isExpected] using hm)
      have hok : (∃ r', r.enter known name extensions dependencies none = .ok r') ↔
          ¬Unreadable known dependencies ∧ ¬Unreadable known none := exists_enter_ok hname
      simp only [not_unreadable_none, not_false_eq_true, and_true] at hok
      simp only [escapes_bind, escapes_enter hname, hnone, hthrow, and_false, or_false, and_true,
        hok, Except.error.injEq, exists_eq_left', reduceCtorEq, false_and, exists_false, hm, ne_eq,
        not_false_eq_true]

theorem exists_addEntry_ok (hname : Language.ofName name ≠ .unknown) :
    (∃ r', r.addEntry known name entry = .ok r') ↔ Fits known entry := by
  simp only [addEntry_eq, exists_bind_ok, mapError_eq_ok, exists_enterDeclared_ok hname]
  constructor
  · rintro ⟨extensions, hextensions, dependencies, hdependencies, hreadable, hdeclarations⟩
    exact ⟨⟨_, hextensions⟩, (readable_iff _).2 ⟨_, hdependencies, hreadable⟩, hdeclarations⟩
  · rintro ⟨⟨extensions, hextensions⟩, hdependencies, hdeclarations⟩
    obtain ⟨dependencies, hdependencies, hreadable⟩ := (readable_iff _).1 hdependencies
    exact ⟨extensions, hextensions, dependencies, hdependencies, hreadable, hdeclarations⟩

theorem escapes_addEntry (hname : Language.ofName name ≠ .unknown) :
    Escapes (r.addEntry known name entry) ↔ Misshapen known entry := by
  simp only [addEntry_eq, escapes_bind, escapes_mapError, mapError_eq_ok,
    exists_error_givenExtensions, escapes_enterDeclared hname]
  constructor
  · rintro (⟨hgiven, hshape⟩ | ⟨extensions, hextensions, ⟨m, hm⟩ |
      ⟨dependencies, hdependencies, hbound | ⟨hreadable, hunusable⟩⟩⟩)
    · exact .extensions hgiven hshape
    · exact .dependencies ⟨_, hextensions⟩ ((unusable_iff _).2 (.inl ⟨m, hm⟩))
    · exact .dependencies ⟨_, hextensions⟩ ((unusable_iff _).2 (.inr ⟨_, hdependencies, hbound⟩))
    · exact .declarations ⟨_, hextensions⟩ ((readable_iff _).2 ⟨_, hdependencies, hreadable⟩)
        hunusable
  · rintro (⟨hgiven, hshape⟩ | ⟨⟨extensions, hextensions⟩, hunusable⟩ |
      ⟨⟨extensions, hextensions⟩, hreadable, hunusable⟩)
    · exact .inl ⟨hgiven, hshape⟩
    · refine .inr ⟨extensions, hextensions, ?_⟩
      rcases (unusable_iff _).1 hunusable with hm | ⟨dependencies, hdependencies, hbound⟩
      · exact .inl hm
      · exact .inr ⟨dependencies, hdependencies, .inl hbound⟩
    · obtain ⟨dependencies, hdependencies, hreadable⟩ := (readable_iff _).1 hreadable
      exact .inr ⟨extensions, hextensions, .inr ⟨dependencies, hdependencies,
        .inr ⟨hreadable, hunusable⟩⟩⟩

/-! ## Tables -/

def takeOver (known : Regex.CharacterNames) (r : Registry) (e : Value × Value) :
    Except TableError Registry := do
  let name ← e.1.shownText.mapError TableError.misuse
  match Language.ofName name, e.2 with
  | .unknown, _ => return r
  | _, .map entry => r.addEntry known name entry
  | _, _ => return r

theorem ofTable_map (entries : List (Value × Value)) :
    ofTable known (.map entries) = entries.foldlM (takeOver known) .empty :=
  rfl

def IsEntry (e : Value × Value) (entry : List (Value × Value)) : Prop :=
  (∃ name, e.1.shownText = .ok name ∧ Language.ofName name ≠ .unknown) ∧ e.2 = .map entry

def Loads (known : Regex.CharacterNames) (e : Value × Value) : Prop :=
  (∃ name, e.1.shownText = .ok name) ∧ ∀ entry, IsEntry e entry → Fits known entry

theorem takeOver_cases (known : Regex.CharacterNames) (r : Registry) (e : Value × Value) :
    (e.1.shownText = .error .tooLong ∧ r.takeOver known e = .error (.misuse .tooLong)) ∨
      ((∃ name, e.1.shownText = .ok name) ∧ (∀ entry, ¬IsEntry e entry) ∧
        r.takeOver known e = .ok r) ∨
      ∃ name entry, e.1.shownText = .ok name ∧ Language.ofName name ≠ .unknown ∧
        e.2 = .map entry ∧ r.takeOver known e = r.addEntry known name entry := by
  unfold takeOver
  cases hkey : e.1.shownText with
  | error m =>
      obtain rfl := Value.eq_tooLong_of_shownText hkey
      exact .inl ⟨rfl, rfl⟩
  | ok name =>
      refine .inr ?_
      simp only [mapError_ok, bind, Except.bind, IsEntry, hkey, Except.ok.injEq, exists_eq_left']
      split
      · next hunknown => exact .inl ⟨⟨name, rfl⟩, fun entry h => h.1 hunknown, rfl⟩
      · next entry hentry hname =>
          exact .inr ⟨name, entry, rfl, fun h => hname h, hentry, rfl⟩
      · next hname hother =>
          exact .inl ⟨⟨name, rfl⟩, fun entry h => hother entry h.2, rfl⟩

theorem isEntry_iff {e : Value × Value} (hkey : e.1.shownText = .ok name)
    (hname : Language.ofName name ≠ .unknown) (hentry : e.2 = .map entry)
    (other : List (Value × Value)) : IsEntry e other ↔ entry = other := by
  simp [IsEntry, hkey, hname, hentry]

theorem exists_takeOver_ok {e : Value × Value} :
    (∃ r', r.takeOver known e = .ok r') ↔ Loads known e := by
  rcases takeOver_cases known r e with ⟨hkey, heq⟩ | ⟨hkey, hnone, heq⟩ |
    ⟨name, entry, hkey, hname, hentry, heq⟩
  · simp [heq, Loads, hkey]
  · rw [heq]
    exact iff_of_true ⟨_, rfl⟩ ⟨hkey, fun entry h => absurd h (hnone entry)⟩
  · rw [heq, exists_addEntry_ok hname]
    simp [Loads, isEntry_iff hkey hname hentry, hkey]

theorem escapes_takeOver {e : Value × Value} :
    Escapes (r.takeOver known e) ↔ ∃ entry, IsEntry e entry ∧ Misshapen known entry := by
  rcases takeOver_cases known r e with ⟨hkey, heq⟩ | ⟨-, hnone, heq⟩ |
    ⟨name, entry, hkey, hname, hentry, heq⟩
  · simp [heq, escapes_error, TableError.isExpected, IsEntry, hkey]
  · simp [heq, not_escapes_ok, hnone]
  · rw [heq, escapes_addEntry hname]
    simp [isEntry_iff hkey hname hentry]

theorem exists_foldlM_takeOver {es : List (Value × Value)} :
    (∃ r', es.foldlM (takeOver known) r = .ok r') ↔ ∀ e ∈ es, Loads known e := by
  induction es generalizing r with
  | nil => simp [pure, Except.pure]
  | cons e es ih =>
      rw [List.foldlM_cons, exists_bind_ok, List.forall_mem_cons, ← exists_takeOver_ok (r := r)]
      simp only [ih, exists_and_right]

theorem escapes_ofTable {v : Value} :
    Escapes (ofTable known v) ↔ ∃ before e entry after, v = .map (before ++ e :: after) ∧
      (∀ e ∈ before, Loads known e) ∧ IsEntry e entry ∧ Misshapen known entry := by
  cases v with
  | map entries =>
      rw [ofTable_map]
      constructor
      · rintro ⟨fault, hfault, hescapes⟩
        obtain ⟨before, e, after, r, rfl, hbefore, he⟩ := foldlM_eq_error.1 hfault
        obtain ⟨entry, hentry, hmisshapen⟩ := escapes_takeOver.1 ⟨fault, he, hescapes⟩
        exact ⟨before, e, entry, after, rfl, exists_foldlM_takeOver.1 ⟨r, hbefore⟩, hentry,
          hmisshapen⟩
      · rintro ⟨before, e, entry, after, heq, hbefore, hentry, hmisshapen⟩
        cases heq
        obtain ⟨r, hr⟩ := exists_foldlM_takeOver (r := .empty).2 hbefore
        obtain ⟨fault, he, hescapes⟩ :=
          escapes_takeOver (r := r).2 ⟨entry, hentry, hmisshapen⟩
        exact ⟨fault, foldlM_eq_error.2 ⟨before, e, after, r, rfl, hr, he⟩, hescapes⟩
  | _ => simp [ofTable, Escapes, TableError.isExpected]

/-! ## Files -/

/-- The content comes to an alias inside the node that it stands for. -/
def RefersToItself (content : Bytes) : Prop :=
  ∃ s, Utf8.decode content = .ok s ∧
    Yaml.read (Text.universalNewlines s) = .error .selfReference

/-- The content of a table that fails with an error that nobody is prepared for. -/
inductive Unforeseen (known : Regex.CharacterNames) (content : Bytes) : Prop
  | yaml {s : Text} {fault : Yaml.Fault} (decoded : Utf8.decode content = .ok s)
      (read : Yaml.read (Text.universalNewlines s) = .error fault)
      (unexpected : fault.isExpected = false) (modelled : fault ≠ .selfReference)
  | entry {s : Text} {before after entry : List (Value × Value)} {e : Value × Value}
      (decoded : Utf8.decode content = .ok s)
      (read : Yaml.read (Text.universalNewlines s) = .ok (.map (before ++ e :: after)))
      (loads : ∀ e ∈ before, Loads known e) (isEntry : IsEntry e entry)
      (misshapen : Misshapen known entry)

theorem escapes_ofYaml {s : Text} :
    Escapes (ofYaml known s) ↔
      (∃ fault, Yaml.read s = .error fault ∧ fault.isExpected = false) ∨
        ∃ v, Yaml.read s = .ok v ∧ Escapes (ofTable known v) := by
  rw [ofYaml, escapes_bind]
  cases Yaml.read s <;>
    simp [mapError_ok, mapError_error, escapes_error, not_escapes_ok, TableError.isExpected]

theorem escapes_ofFile {path : Path} {content : Bytes} :
    Escapes (ofFile path (some content) known) ↔
      RefersToItself content ∨ Unforeseen known content := by
  have hdecode : Escapes (ofFile path (some content) known) ↔
      ∃ s, Utf8.decode content = .ok s ∧ Escapes (ofYaml known (Text.universalNewlines s)) := by
    rw [ofFile, escapes_bind]
    cases Utf8.decode content <;>
      simp [mapError_ok, mapError_error, escapes_error, not_escapes_ok, TableError.isExpected]
  rw [hdecode]
  simp only [escapes_ofYaml, escapes_ofTable]
  constructor
  · rintro ⟨s, hs, ⟨fault, hread, hfault⟩ |
      ⟨-, hread, before, e, entry, after, rfl, hbefore, hentry, hmisshapen⟩⟩
    · by_cases hself : fault = .selfReference
      · exact .inl ⟨s, hs, hself ▸ hread⟩
      · exact .inr (.yaml hs hread hfault hself)
    · exact .inr (.entry hs hread hbefore hentry hmisshapen)
  · rintro (⟨s, hs, hread⟩ | ⟨hs, hread, hfault, -⟩ | ⟨hs, hread, hbefore, hentry, hmisshapen⟩)
    · exact ⟨s, hs, .inl ⟨_, hread, rfl⟩⟩
    · exact ⟨_, hs, .inl ⟨_, hread, hfault⟩⟩
    · exact ⟨_, hs, .inr ⟨_, hread, _, _, _, _, rfl, hbefore, hentry, hmisshapen⟩⟩

example (known : Regex.CharacterNames) :
    ofTable known (.map [(.str "Python".toList, .map [(.str "extensions".toList, .int 5)])]) =
      .error (.misuse (.notIterable .int)) := by
  rfl

end Registry

end SourceScan
