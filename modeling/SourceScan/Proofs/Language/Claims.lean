import SourceScan.Language.Defaults
import SourceScan.Language.Table
import SourceScan.Proofs.Steps

/-!
# What a registry keeps of the claims made on it

A registry comes out of a series of calls, some of which make a new one and some of which
claim extensions.  The claims made on it since it was new are written down beside it; they
fix all that its two indexes answer: the list of a language has every extension that the
language ever claimed, and an extension belongs to the language that claimed it last.
-/

namespace SourceScan

/-- An extension, as normalised, that a language claimed. -/
structure Claim where
  language : Language
  extension : Text
  deriving DecidableEq, Repr

namespace Claim

def ofExtensions (language : Language) (extensions : List Text) : List Claim :=
  ((extensions.map normalizeExtension).filter (!·.isEmpty)).map (⟨language, ·⟩)

/-- The claims of a registration, also of one that fails over its patterns. -/
def ofCall (name : Text) (extensions : List Text) : List Claim :=
  match Language.ofName name with
  | .unknown => []
  | language => ofExtensions language extensions

def ofEntry (e : Value × Value) : List Claim :=
  match e.1.shownText, e.2 with
  | .ok name, .map entry =>
      match Registry.givenExtensions ((Value.field? "extensions" entry).getD .null) with
      | .ok extensions => ofCall name extensions
      | .error _ => []
  | _, _ => []

def ofTable : Value → List Claim
  | .map entries => entries.flatMap ofEntry
  | _ => []

def ofContent (content : Option Bytes) : List Claim :=
  match content.map Utf8.decode with
  | some (.ok s) =>
      match Yaml.read (Text.universalNewlines s) with
      | .ok table => ofTable table
      | .error _ => []
  | _ => []

def last? (claims : List Claim) (extension : Text) : Option Language :=
  (claims.reverse.find? (·.extension = extension)).map (·.language)

@[simp] theorem last?_nil (extension : Text) : last? [] extension = none := rfl

@[simp] theorem last?_concat (claims : List Claim) (c : Claim) (extension : Text) :
    last? (claims ++ [c]) extension =
      if c.extension = extension then some c.language else last? claims extension := by
  by_cases h : c.extension = extension <;> simp [last?, h]

theorem mem_of_last? {claims : List Claim} {extension : Text} {language : Language}
    (h : last? claims extension = some language) : ⟨language, extension⟩ ∈ claims := by
  simp only [last?, Option.map_eq_some_iff] at h
  obtain ⟨c, hfound, rfl⟩ := h
  have hmem := List.mem_of_find?_eq_some hfound
  have hext := List.find?_some hfound
  simp only [decide_eq_true_eq] at hext
  subst hext
  exact List.mem_reverse.mp hmem

theorem ofExtensions_cons (language : Language) (e : Text) (es : List Text) :
    ofExtensions language (e :: es) = ofExtensions language [e] ++ ofExtensions language es := by
  by_cases h : (normalizeExtension e).isEmpty <;> simp [ofExtensions, h]

theorem ofCall_unknown {name : Text} (h : Language.ofName name = .unknown)
    (extensions : List Text) : ofCall name extensions = [] := by
  simp [ofCall, h]

theorem ofCall_known {name : Text} (h : Language.ofName name ≠ .unknown) (extensions : List Text) :
    ofCall name extensions = ofExtensions (Language.ofName name) extensions := by
  unfold ofCall
  split
  · next hunknown => exact absurd hunknown h
  · rfl

theorem language_ofCall {name : Text} {extensions : List Text} {c : Claim}
    (hc : c ∈ ofCall name extensions) : c.language ≠ .unknown := by
  intro hunknown
  by_cases h : Language.ofName name = .unknown
  · simp [ofCall_unknown h] at hc
  · simp only [ofCall_known h, ofExtensions, List.mem_map] at hc
    obtain ⟨e, -, rfl⟩ := hc
    exact h hunknown

theorem ofEntry_unknown {key value : Value} {name : Text} (hname : key.shownText = .ok name)
    (hunknown : Language.ofName name = .unknown) : ofEntry (key, value) = [] := by
  simp only [ofEntry, hname]
  split
  · split
    · next heq _ _ _ => cases heq; exact ofCall_unknown hunknown _
    · rfl
  · rfl

theorem ofEntry_map {key : Value} {entry : List (Value × Value)} {name : Text}
    {extensions : List Text} (hname : key.shownText = .ok name)
    (hextensions :
      Registry.givenExtensions ((Value.field? "extensions" entry).getD .null) = .ok extensions) :
    ofEntry (key, .map entry) = ofCall name extensions := by
  simp only [ofEntry, hname, hextensions]

theorem ofEntry_other {key value : Value} (h : ∀ entry, value ≠ .map entry) :
    ofEntry (key, value) = [] := by
  unfold ofEntry
  split
  · next hvalue => exact absurd hvalue (h _)
  · rfl

theorem language_ofEntry {e : Value × Value} {c : Claim} (hc : c ∈ ofEntry e) :
    c.language ≠ .unknown := by
  unfold ofEntry at hc
  split at hc
  · split at hc
    · exact language_ofCall hc
    · cases hc
  · cases hc

theorem language_ofContent {content : Option Bytes} {c : Claim} (hc : c ∈ ofContent content) :
    c.language ≠ .unknown := by
  unfold ofContent at hc
  split at hc
  · split at hc
    · next table _ =>
        cases table with
        | map entries =>
            simp only [ofTable, List.mem_flatMap] at hc
            obtain ⟨e, -, he⟩ := hc
            exact language_ofEntry he
        | _ => cases hc
    · cases hc
  · cases hc

end Claim

structure Registry.Keeps (r : Registry) (claims : List Claim) : Prop where
  mem_extensions : ∀ language e, e ∈ r.extensions language ↔ ⟨language, e⟩ ∈ claims
  owner : ∀ e, Assoc.get? e r.languages = Claim.last? claims e
  mem_allLanguages : ∀ language, language ∈ r.allLanguages ↔ ∃ e, ⟨language, e⟩ ∈ claims

namespace Registry

theorem keeps_empty : Registry.empty.Keeps [] where
  mem_extensions language e := by simp [extensions, empty, Assoc.get?]
  owner e := rfl
  mem_allLanguages language := by simp [allLanguages, empty]

variable {r : Registry} {claims : List Claim} {known : Regex.CharacterNames}

theorem Keeps.withPatterns (h : r.Keeps claims) (patterns : List (Language × LinePatterns)) :
    ({ r with patterns := patterns } : Registry).Keeps claims :=
  ⟨h.mem_extensions, h.owner, h.mem_allLanguages⟩

theorem mem_extensions_claim (r : Registry) (tag language : Language) (x e : Text) :
    e ∈ (r.claim tag x).extensions language ↔
      e ∈ r.extensions language ∨
        normalizeExtension x ≠ [] ∧ language = tag ∧ e = normalizeExtension x := by
  by_cases hempty : normalizeExtension x = []
  · simp [claim, hempty]
  · by_cases hl : tag = language
    · subst hl
      by_cases hheld : normalizeExtension x ∈ (Assoc.get? tag r.claimed).getD [] <;>
        simp_all [claim, extensions]
    · simp [claim, hempty, extensions, hl, Ne.symm hl]

theorem Keeps.claim (h : r.Keeps claims) (tag : Language) (x : Text) :
    (r.claim tag x).Keeps (claims ++ Claim.ofExtensions tag [x]) := by
  by_cases hempty : normalizeExtension x = []
  · have hsame : r.claim tag x = r := by simp [Registry.claim, hempty]
    simpa [hsame, Claim.ofExtensions, hempty] using h
  have hnew : Claim.ofExtensions tag [x] = [⟨tag, normalizeExtension x⟩] := by
    simp [Claim.ofExtensions, hempty]
  rw [hnew]
  constructor
  case mem_extensions =>
    intro language e
    simp [mem_extensions_claim, h.mem_extensions, hempty]
  case owner =>
    intro e
    simp [Registry.claim, hempty, h.owner]
  case mem_allLanguages =>
    intro language
    have hlisted : language ∈ (r.claim tag x).allLanguages ↔
        language = tag ∨ language ∈ r.allLanguages := by
      simp only [allLanguages, Registry.claim, List.isEmpty_iff, hempty, if_false]
      exact Assoc.mem_keys_put _ _ _ _
    simp only [hlisted, h.mem_allLanguages, List.mem_append, List.mem_singleton, Claim.mk.injEq,
      exists_or, exists_and_left, exists_eq, and_true]
    exact or_comm

theorem Keeps.claimAll (tag : Language) (extensions : List Text) :
    ∀ {r : Registry} {claims : List Claim}, r.Keeps claims →
      (extensions.foldl (fun r e => r.claim tag e) r).Keeps
        (claims ++ Claim.ofExtensions tag extensions) := by
  induction extensions with
  | nil => intro r claims h; simpa [Claim.ofExtensions] using h
  | cons e es ih =>
      intro r claims h
      rw [Claim.ofExtensions_cons, ← List.append_assoc]
      exact ih (h.claim tag e)

/-- A registration that fails over a pattern has made its claims before. -/
theorem Keeps.register (h : r.Keeps claims) (name : Text) (extensions : List Text)
    (dependencies declarations : Option Regex.Source) (known : Regex.CharacterNames) :
    (r.register name extensions dependencies declarations known).1.Keeps
      (claims ++ Claim.ofCall name extensions) := by
  unfold Registry.register
  split
  · next hunknown => simpa [Claim.ofCall_unknown hunknown] using h
  · next hne =>
    rw [Claim.ofCall_known hne]
    have hclaimed := h.claimAll (Language.ofName name) extensions
    dsimp only
    split
    · exact hclaimed
    · split
      · exact hclaimed
      · split
        · exact hclaimed
        · exact hclaimed.withPatterns _

theorem Keeps.addEntry (h : r.Keeps claims) {name : Text} {entry : List (Value × Value)}
    {r' : Registry} (hadd : r.addEntry known name entry = .ok r') :
    ∃ extensions, givenExtensions ((Value.field? "extensions" entry).getD .null) = .ok extensions ∧
      r'.Keeps (claims ++ Claim.ofCall name extensions) := by
  unfold Registry.addEntry at hadd
  obtain ⟨extensions, hextensions, hadd⟩ := ok_of_bind hadd
  obtain ⟨dependencies, -, hadd⟩ := ok_of_bind hadd
  refine ⟨extensions, ok_of_mapError hextensions, ?_⟩
  split at hadd
  · next declarations _ =>
      have hkept := h.register name extensions dependencies declarations known
      dsimp only at hadd
      split at hadd
      · next registered hregistered =>
          rw [hregistered] at hkept
          cases hadd
          exact hkept
      · cases hadd
  · obtain ⟨_, -, hthrow⟩ := ok_of_bind hadd
    cases hthrow

theorem Keeps.ofEntries (entries : List (Value × Value)) :
    ∀ {r r' : Registry} {claims : List Claim}, r.Keeps claims →
      entries.foldlM
        (fun (r : Registry) (e : Value × Value) => do
          let name ← e.1.shownText.mapError TableError.misuse
          match Language.ofName name, e.2 with
          | .unknown, _ => return r
          | _, .map entry => r.addEntry known name entry
          | _, _ => return r) r = .ok r' →
      r'.Keeps (claims ++ entries.flatMap Claim.ofEntry) := by
  induction entries with
  | nil =>
      intro r r' claims h hread
      cases hread
      simpa using h
  | cons e es ih =>
      intro r r' claims h hread
      simp only [List.foldlM_cons] at hread
      obtain ⟨next, hnext, hread⟩ := ok_of_bind hread
      obtain ⟨name, hname, hnext⟩ := ok_of_bind hnext
      have hname := ok_of_mapError hname
      have hentry : next.Keeps (claims ++ Claim.ofEntry e) := by
        obtain ⟨key, value⟩ := e
        have hname : key.shownText = .ok name := hname
        split at hnext
        · next hunknown =>
            cases hnext
            rw [Claim.ofEntry_unknown hname hunknown]
            simpa using h
        · next entry hmap _ =>
            obtain ⟨extensions, hextensions, hkept⟩ := h.addEntry hnext
            obtain rfl : value = .map entry := hmap
            rw [Claim.ofEntry_map hname hextensions]
            exact hkept
        · next hnotMap =>
            cases hnext
            rw [Claim.ofEntry_other fun entry => hnotMap entry]
            simpa using h
      rw [List.flatMap_cons, ← List.append_assoc]
      exact ih hentry hread

theorem keeps_ofTable {table : Value} {r : Registry} (h : ofTable known table = .ok r) :
    r.Keeps (Claim.ofTable table) := by
  cases table with
  | null => cases h; exact keeps_empty
  | map entries => simpa [Claim.ofTable] using keeps_empty.ofEntries entries h
  | _ => cases h

theorem keeps_ofFile {path : Path} {content : Option Bytes} {r : Registry}
    (h : ofFile path content known = .ok r) : r.Keeps (Claim.ofContent content) := by
  cases content with
  | none => cases h
  | some bytes =>
      obtain ⟨s, hs, h⟩ := ok_of_bind h
      obtain ⟨table, htable, h⟩ := ok_of_bind h
      simpa only [Claim.ofContent, Option.map_some, ok_of_mapError hs, ok_of_mapError htable]
        using keeps_ofTable h

def standardClaims : List Claim :=
  defaultRows.flatMap fun row => Claim.ofCall row.language.name row.extensions

theorem Keeps.addRows (rows : List Row) :
    ∀ {r : Registry} {claims : List Claim}, r.Keeps claims →
      (rows.foldl (fun r row =>
        (r.register row.language.name row.extensions row.dependencies row.declarations).1) r).Keeps
        (claims ++ rows.flatMap fun row => Claim.ofCall row.language.name row.extensions) := by
  induction rows with
  | nil => intro r claims h; simpa using h
  | cons row rows ih =>
      intro r claims h
      rw [List.flatMap_cons, ← List.append_assoc]
      exact ih (h.register _ _ _ _ _)

theorem keeps_standard : standard.Keeps standardClaims :=
  keeps_empty.addRows defaultRows

end Registry

/-- A call that makes a registry anew, or that claims extensions. -/
inductive RegistryCall where
  | make (defaults : Bool)
  | load (path : Path) (content : Option Bytes)
  | register (name : Text) (extensions : List Text)
      (dependencies declarations : Option Regex.Source)

namespace RegistryCall

def run (known : Regex.CharacterNames) (r : Registry) : RegistryCall → Registry
  | .make true => .standard
  | .make false => .empty
  | .load path content =>
      match Registry.ofFile path content known with
      | .ok loaded => loaded
      | .error _ => r
  | .register name extensions dependencies declarations =>
      (r.register name extensions dependencies declarations known).1

def note (known : Regex.CharacterNames) (claims : List Claim) : RegistryCall → List Claim
  | .make true => Registry.standardClaims
  | .make false => []
  | .load path content =>
      match Registry.ofFile path content known with
      | .ok _ => Claim.ofContent content
      | .error _ => claims
  | .register name extensions _ _ => claims ++ Claim.ofCall name extensions

def runAll (known : Regex.CharacterNames) (calls : List RegistryCall) : Registry :=
  calls.foldl (run known) .empty

def noteAll (known : Regex.CharacterNames) (calls : List RegistryCall) : List Claim :=
  calls.foldl (note known) []

variable {known : Regex.CharacterNames}

theorem keeps_run {r : Registry} {claims : List Claim} (h : r.Keeps claims) (call : RegistryCall) :
    (run known r call).Keeps (note known claims call) := by
  cases call with
  | make defaults =>
      cases defaults with
      | true => exact Registry.keeps_standard
      | false => exact Registry.keeps_empty
  | load path content =>
      cases hfile : Registry.ofFile path content known with
      | ok loaded => simpa only [run, note, hfile] using Registry.keeps_ofFile hfile
      | error e => simpa only [run, note, hfile] using h
  | register name extensions dependencies declarations =>
      exact h.register name extensions dependencies declarations known

theorem language_note {claims : List Claim} (h : ∀ c ∈ claims, c.language ≠ .unknown)
    (call : RegistryCall) : ∀ c ∈ note known claims call, c.language ≠ .unknown := by
  intro c hc
  cases call with
  | make defaults =>
      cases defaults with
      | true =>
          simp only [note, Registry.standardClaims, List.mem_flatMap] at hc
          obtain ⟨row, -, hrow⟩ := hc
          exact Claim.language_ofCall hrow
      | false => cases hc
  | load path content =>
      simp only [note] at hc
      split at hc
      · exact Claim.language_ofContent hc
      · exact h c hc
  | register name extensions dependencies declarations =>
      rcases List.mem_append.mp hc with hc | hc
      · exact h c hc
      · exact Claim.language_ofCall hc

theorem keeps_fold (calls : List RegistryCall) :
    ∀ {r : Registry} {claims : List Claim}, r.Keeps claims →
      (∀ c ∈ claims, c.language ≠ .unknown) →
      (calls.foldl (run known) r).Keeps (calls.foldl (note known) claims) ∧
        ∀ c ∈ calls.foldl (note known) claims, c.language ≠ .unknown := by
  induction calls with
  | nil => intro r claims h hknown; exact ⟨h, hknown⟩
  | cons call calls ih =>
      intro r claims h hknown
      exact ih (keeps_run h call) (language_note hknown call)

end RegistryCall

namespace Registry

/-- The two indexes say the same: a language lists exactly the extensions that are registered and
classified as its own, and the languages are those that some extension is classified as. -/
structure Agrees (r : Registry) : Prop where
  extensions_iff : ∀ language e, language ≠ .unknown →
    (e ∈ r.extensions language ↔ (Assoc.get? e r.languages).isSome ∧ r.classify e = language)
  allLanguages_iff : ∀ language, language ∈ r.allLanguages ↔
    language ≠ .unknown ∧ ∃ e, r.classify e = language

variable {r : Registry} {claims : List Claim}

theorem Keeps.classify (h : r.Keeps claims) (x : Text) :
    r.classify x = (Claim.last? claims (normalizeExtension x)).getD .unknown := by
  rw [Registry.classify, h.owner]

theorem Keeps.classify_eq_iff (h : r.Keeps claims) {language : Language} (hne : language ≠ .unknown)
    (x : Text) :
    r.classify x = language ↔ Claim.last? claims (normalizeExtension x) = some language := by
  rw [h.classify]
  cases Claim.last? claims (normalizeExtension x) with
  | none => simp [Ne.symm hne]
  | some owner => simp

/-- The indexes agree if each claimed extension, normalised once more, was claimed last by the
language of the claim: no other language claimed it later, and it is its own normal form or
that form is the language's too. -/
theorem Keeps.agrees_iff (h : r.Keeps claims) (hknown : ∀ c ∈ claims, c.language ≠ .unknown) :
    r.Agrees ↔
      ∀ c ∈ claims, Claim.last? claims (normalizeExtension c.extension) = some c.language := by
  constructor
  · intro hagrees c hc
    have hlisted : c.extension ∈ r.extensions c.language := (h.mem_extensions _ _).mpr hc
    have hown := ((hagrees.extensions_iff _ _ (hknown c hc)).mp hlisted).2
    exact (h.classify_eq_iff (hknown c hc) _).mp hown
  · intro hlast
    constructor
    case extensions_iff =>
      intro language e hne
      rw [h.mem_extensions, h.owner, h.classify_eq_iff hne]
      constructor
      · intro hc
        have howner : (Claim.last? claims e).isSome := by
          simp only [Claim.last?, Option.isSome_map, List.find?_isSome, List.mem_reverse,
            decide_eq_true_eq]
          exact ⟨_, hc, rfl⟩
        exact ⟨howner, hlast _ hc⟩
      · rintro ⟨hregistered, hclassified⟩
        obtain ⟨owner, howner⟩ := Option.isSome_iff_exists.mp hregistered
        have hmem := Claim.mem_of_last? howner
        have hsame := hlast _ hmem
        rw [hclassified] at hsame
        cases hsame
        exact hmem
    case allLanguages_iff =>
      intro language
      rw [h.mem_allLanguages]
      constructor
      · rintro ⟨e, he⟩
        exact ⟨hknown _ he, e, (h.classify_eq_iff (hknown _ he) e).mpr (hlast _ he)⟩
      · rintro ⟨hne, e, he⟩
        exact ⟨_, Claim.mem_of_last? ((h.classify_eq_iff hne e).mp he)⟩

/-- After any calls, a language lists all extensions that it claimed since the registry was new,
an extension is classified as the language that claimed it last, and the two indexes agree
exactly if no claim was overtaken. -/
theorem agreement (known : Regex.CharacterNames) (calls : List RegistryCall) :
    let r := RegistryCall.runAll known calls
    let claims := RegistryCall.noteAll known calls
    (∀ language e, e ∈ r.extensions language ↔ ⟨language, e⟩ ∈ claims) ∧
      (∀ x, r.classify x = (Claim.last? claims (normalizeExtension x)).getD .unknown) ∧
      (∀ language, language ∈ r.allLanguages ↔ ∃ e, ⟨language, e⟩ ∈ claims) ∧
      (r.Agrees ↔
        ∀ c ∈ claims, Claim.last? claims (normalizeExtension c.extension) = some c.language) := by
  intro r claims
  obtain ⟨hkeeps, hknown⟩ := RegistryCall.keeps_fold calls keeps_empty (by simp)
  exact ⟨hkeeps.mem_extensions, hkeeps.classify, hkeeps.mem_allLanguages,
    hkeeps.agrees_iff hknown⟩

end Registry

end SourceScan
