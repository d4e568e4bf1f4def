import SourceScan.Proofs.Language.Claims

/-!
# Registrations that are refused

A registration is refused if its name is no language, or if one of its patterns cannot be read.
No language has other patterns then than before.  The extensions, however, were claimed by the
time that the patterns are read, so that what a refused registration leaves behind is as if it
had been made without patterns.
-/

namespace SourceScan

namespace Claim

variable {name : Text} {extensions : List Text}

theorem last?_append (claims more : List Claim) (e : Text) :
    last? (claims ++ more) e = (last? more e).or (last? claims e) := by
  simp only [last?, List.reverse_append, List.find?_append, Option.map_or]

theorem mem_ofCall {c : Claim} :
    c ∈ ofCall name extensions ↔ Language.ofName name ≠ .unknown ∧
      ∃ x ∈ extensions, normalizeExtension x ≠ [] ∧
        c = ⟨Language.ofName name, normalizeExtension x⟩ := by
  by_cases hname : Language.ofName name = .unknown
  · simp [ofCall_unknown hname, hname]
  · rw [ofCall_known hname]
    simp only [ofExtensions, List.mem_map, List.mem_filter, Bool.not_eq_true',
      List.isEmpty_eq_false_iff]
    constructor
    · rintro ⟨e, ⟨⟨x, hx, rfl⟩, hne⟩, rfl⟩
      exact ⟨hname, x, hx, hne, rfl⟩
    · rintro ⟨-, x, hx, hne, rfl⟩
      exact ⟨_, ⟨⟨x, hx, rfl⟩, hne⟩, rfl⟩

theorem last?_ofCall (name : Text) (extensions : List Text) (e : Text) :
    last? (ofCall name extensions) e =
      if ⟨Language.ofName name, e⟩ ∈ ofCall name extensions then some (Language.ofName name)
      else none := by
  have hlanguage : ∀ {owner}, ⟨owner, e⟩ ∈ ofCall name extensions →
      owner = Language.ofName name := by
    intro owner howner
    obtain ⟨-, x, -, -, heq⟩ := mem_ofCall.1 howner
    exact congrArg Claim.language heq
  cases hlast : last? (ofCall name extensions) e with
  | none =>
      rw [if_neg]
      intro hmem
      simp only [last?, Option.map_eq_none_iff, List.find?_eq_none, List.mem_reverse,
        decide_eq_true_eq] at hlast
      exact hlast _ hmem rfl
  | some owner =>
      have howner := mem_of_last? hlast
      obtain rfl := hlanguage howner
      rw [if_pos howner]

end Claim

namespace Registry

variable {r r' : Registry} {claims : List Claim} {name : Text} {extensions : List Text}
  {dependencies declarations : Option Regex.Source} {e : RegisterError}
  {known : Regex.CharacterNames}

/-! ## When a registration is refused -/

def FailsWith (known : Regex.CharacterNames) (given : Option Regex.Source)
    (source : Regex.Source) (e : Regex.SyntaxError) : Prop :=
  given = some source ∧ source.letters ≠ [] ∧ Regex.parse known source = .error e

def Unreadable (known : Regex.CharacterNames) (given : Option Regex.Source) : Prop :=
  ∃ source e, FailsWith known given source e

theorem not_unreadable_none : ¬Unreadable known none := by
  rintro ⟨source, e, ⟨⟩, -⟩

theorem newPattern_cases (known : Regex.CharacterNames) (language : Language)
    (given : Option Regex.Source) (current : Option LinePattern) :
    (∃ p, newPattern known language given current = .ok p ∧ ¬Unreadable known given) ∨
      ∃ source e, newPattern known language given current =
          .error (.badPattern language source.letters e) ∧ FailsWith known given source e := by
  unfold newPattern
  split
  · exact .inl ⟨_, rfl, not_unreadable_none⟩
  · next source =>
      by_cases hnil : source.letters = []
      · refine .inl ⟨current, if_pos hnil, ?_⟩
        rintro ⟨_, e, ⟨⟩, hne, -⟩
        exact hne hnil
      rw [if_neg hnil]
      cases hparse : Regex.parse known source with
      | error e =>
          refine .inr ⟨source, e, ?_, rfl, hnil, hparse⟩
          simp [LinePattern.parse, hparse, Except.map]
      | ok p =>
          refine .inl ⟨some ⟨source.letters, source.isBinary, p⟩, ?_, ?_⟩
          · simp [LinePattern.parse, hparse, Except.map]
          · rintro ⟨other, e, hother, -, herror⟩
            cases hother
            cases hparse.symm.trans herror

def claimAll (r : Registry) (language : Language) (extensions : List Text) : Registry :=
  extensions.foldl (fun r x => r.claim language x) r

theorem patterns_claimAll (language : Language) (extensions : List Text) (r : Registry) :
    (r.claimAll language extensions).patterns = r.patterns := by
  induction extensions generalizing r with
  | nil => rfl
  | cons x xs ih =>
      have hclaim : (r.claim language x).patterns = r.patterns := by
        unfold claim
        dsimp only
        split <;> rfl
      exact (ih _).trans hclaim

theorem linePatterns_claimAll (language other : Language) (extensions : List Text) :
    (r.claimAll language extensions).linePatterns other = r.linePatterns other := by
  rw [linePatterns, patterns_claimAll, linePatterns]

theorem register_unknown (h : Language.ofName name = .unknown) :
    r.register name extensions dependencies declarations known =
      (r, some (.unknownLanguage name)) := by
  simp only [register, h]

theorem register_known (h : Language.ofName name ≠ .unknown) :
    r.register name extensions dependencies declarations known =
      let claimed := r.claimAll (Language.ofName name) extensions
      if dependencies.isNone && declarations.isNone then (claimed, none)
      else
        let current := r.linePatterns (Language.ofName name)
        match newPattern known (Language.ofName name) dependencies current.dependencies with
        | .error e => (claimed, some e)
        | .ok d =>
            match newPattern known (Language.ofName name) declarations current.declarations with
            | .error e => (claimed, some e)
            | .ok s =>
                ({ claimed with
                    patterns := Assoc.put (Language.ofName name) ⟨d, s⟩ claimed.patterns },
                  none) := by
  unfold register
  split
  · next hunknown => exact absurd hunknown h
  · have hpatterns := linePatterns_claimAll (r := r) (Language.ofName name) (Language.ofName name)
      extensions
    rw [← hpatterns]
    rfl

theorem register_cases (known : Regex.CharacterNames) (r : Registry) (extensions : List Text)
    (dependencies declarations : Option Regex.Source) (h : Language.ofName name ≠ .unknown) :
    (∃ patterns, r.register name extensions dependencies declarations known =
        ({ r.claimAll (Language.ofName name) extensions with patterns := patterns }, none) ∧
          ¬Unreadable known dependencies ∧ ¬Unreadable known declarations) ∨
      ∃ source e, r.register name extensions dependencies declarations known =
        (r.claimAll (Language.ofName name) extensions,
          some (.badPattern (Language.ofName name) source.letters e)) ∧
        (FailsWith known dependencies source e ∨
          ¬Unreadable known dependencies ∧ FailsWith known declarations source e) := by
  rw [register_known h]
  dsimp only
  split
  · next hnone =>
      simp only [Bool.and_eq_true, Option.isNone_iff_eq_none] at hnone
      obtain ⟨rfl, rfl⟩ := hnone
      exact .inl ⟨_, rfl, not_unreadable_none, not_unreadable_none⟩
  · rcases newPattern_cases known (Language.ofName name) dependencies
      (r.linePatterns (Language.ofName name)).dependencies with
      ⟨d, hd, hreadable⟩ | ⟨source, e, hd, hfails⟩
    · rcases newPattern_cases known (Language.ofName name) declarations
        (r.linePatterns (Language.ofName name)).declarations with
        ⟨s, hs, hreadable'⟩ | ⟨source, e, hs, hfails⟩
      · rw [hd, hs]
        exact .inl ⟨_, rfl, hreadable, hreadable'⟩
      · rw [hd, hs]
        exact .inr ⟨source, e, rfl, .inr ⟨hreadable, hfails⟩⟩
    · rw [hd]
      exact .inr ⟨source, e, rfl, .inl hfails⟩

theorem refused_register_iff :
    (∃ e, (r.register name extensions dependencies declarations known).2 = some e) ↔
      Language.ofName name = .unknown ∨ Unreadable known dependencies ∨
        Unreadable known declarations := by
  by_cases hname : Language.ofName name = .unknown
  · simp [register_unknown hname, hname]
  rcases register_cases known r extensions dependencies declarations hname with
    ⟨patterns, heq, hreadable, hreadable'⟩ | ⟨source, e, heq, hfails⟩
  · simp [heq, hname, hreadable, hreadable']
  · rw [heq]
    refine iff_of_true ⟨_, rfl⟩ (.inr ?_)
    rcases hfails with hfails | ⟨-, hfails⟩
    · exact .inl ⟨source, e, hfails⟩
    · exact .inr ⟨source, e, hfails⟩

/-- All that a refused registration does is to claim its extensions. -/
theorem register_refused (hname : Language.ofName name ≠ .unknown)
    (h : (r.register name extensions dependencies declarations known).2 = some e) :
    (r.register name extensions dependencies declarations known).1 =
      r.claimAll (Language.ofName name) extensions := by
  rcases register_cases known r extensions dependencies declarations hname with
    ⟨patterns, heq, -⟩ | ⟨source, e', heq, -⟩
  · rw [heq] at h
    cases h
  · rw [heq]

theorem linePatterns_refused
    (h : (r.register name extensions dependencies declarations known).2 = some e)
    (language : Language) :
    (r.register name extensions dependencies declarations known).1.linePatterns language =
      r.linePatterns language := by
  by_cases hname : Language.ofName name = .unknown
  · rw [register_unknown hname]
  · rw [register_refused hname h, linePatterns_claimAll]

/-! ## Registries that answer alike -/

structure SameAnswers (r r' : Registry) : Prop where
  classify : ∀ x, r.classify x = r'.classify x
  extensions : ∀ language x, x ∈ r.extensions language ↔ x ∈ r'.extensions language
  allLanguages : ∀ language, language ∈ r.allLanguages ↔ language ∈ r'.allLanguages
  linePatterns : ∀ language, r.linePatterns language = r'.linePatterns language

theorem SameAnswers.refl (r : Registry) : SameAnswers r r :=
  ⟨fun _ => rfl, fun _ _ => .rfl, fun _ => .rfl, fun _ => rfl⟩

theorem classify_claim (r : Registry) (language : Language) (x y : Text) :
    (r.claim language x).classify y =
      if normalizeExtension x ≠ [] ∧ normalizeExtension x = normalizeExtension y then language
      else r.classify y := by
  by_cases hempty : normalizeExtension x = []
  · simp [claim, hempty]
  · by_cases hsame : normalizeExtension x = normalizeExtension y
    · simp [claim, classify, hempty, ← hsame]
    · simp [claim, classify, hempty, hsame]

theorem mem_allLanguages_claim (r : Registry) (language other : Language) (x : Text) :
    other ∈ (r.claim language x).allLanguages ↔
      normalizeExtension x ≠ [] ∧ other = language ∨ other ∈ r.allLanguages := by
  by_cases hempty : normalizeExtension x = []
  · simp [claim, hempty]
  · rw [allLanguages, claim, if_neg (by simpa using hempty), Assoc.mem_keys_put]
    simp [hempty, allLanguages]

theorem SameAnswers.claim (h : SameAnswers r r') (language : Language) (x : Text) :
    SameAnswers (r.claim language x) (r'.claim language x) where
  classify y := by rw [classify_claim, classify_claim, h.classify]
  extensions other y := by rw [mem_extensions_claim, mem_extensions_claim, h.extensions]
  allLanguages other := by rw [mem_allLanguages_claim, mem_allLanguages_claim, h.allLanguages]
  linePatterns other :=
    (linePatterns_claimAll language other [x]).trans
      ((h.linePatterns other).trans (linePatterns_claimAll language other [x]).symm)

theorem SameAnswers.claimAll (h : SameAnswers r r') (language : Language)
    (extensions : List Text) :
    SameAnswers (r.claimAll language extensions) (r'.claimAll language extensions) := by
  induction extensions generalizing r r' with
  | nil => exact h
  | cons x xs ih => exact ih (h.claim language x)

theorem SameAnswers.putPatterns (h : SameAnswers r r') (language : Language) (p : LinePatterns) :
    SameAnswers { r with patterns := Assoc.put language p r.patterns }
      { r' with patterns := Assoc.put language p r'.patterns } where
  classify := h.classify
  extensions := h.extensions
  allLanguages := h.allLanguages
  linePatterns other := by
    have hother := h.linePatterns other
    simp only [Registry.linePatterns, Assoc.get?_put] at hother ⊢
    split
    · rfl
    · exact hother

theorem SameAnswers.register (h : SameAnswers r r') (name : Text) (extensions : List Text)
    (dependencies declarations : Option Regex.Source) (known : Regex.CharacterNames) :
    SameAnswers (r.register name extensions dependencies declarations known).1
      (r'.register name extensions dependencies declarations known).1 := by
  by_cases hname : Language.ofName name = .unknown
  · simpa only [register_unknown hname] using h
  · have hclaimed := h.claimAll (Language.ofName name) extensions
    rw [register_known hname, register_known hname, h.linePatterns]
    dsimp only
    split
    · exact hclaimed
    · split
      · exact hclaimed
      · split
        · exact hclaimed
        · exact hclaimed.putPatterns _ _

theorem SameAnswers.run (h : SameAnswers r r') (calls : List RegistryCall) :
    SameAnswers (calls.foldl (RegistryCall.run known) r)
      (calls.foldl (RegistryCall.run known) r') := by
  induction calls generalizing r r' with
  | nil => exact h
  | cons call calls ih =>
      refine ih ?_
      cases call with
      | make defaults => cases defaults <;> exact .refl _
      | load path content =>
          simp only [RegistryCall.run]
          split
          · exact .refl _
          · exact h
      | register name extensions dependencies declarations =>
          exact h.register name extensions dependencies declarations known

/-! ## What a refused registration leaves behind -/

/-- The second registry is the first one after the claims of a call, and has the same patterns. -/
structure OnlyClaimed (r r' : Registry) (name : Text) (extensions : List Text) : Prop where
  classify : ∀ x, r'.classify x =
    if ⟨Language.ofName name, normalizeExtension x⟩ ∈ Claim.ofCall name extensions then
      Language.ofName name
    else r.classify x
  mem_extensions : ∀ language x, x ∈ r'.extensions language ↔
    x ∈ r.extensions language ∨ ⟨language, x⟩ ∈ Claim.ofCall name extensions
  mem_allLanguages : ∀ language, language ∈ r'.allLanguages ↔
    language ∈ r.allLanguages ∨ ∃ x, ⟨language, x⟩ ∈ Claim.ofCall name extensions
  linePatterns : ∀ language, r'.linePatterns language = r.linePatterns language

theorem Keeps.onlyClaimed (h : r.Keeps claims)
    (h' : r'.Keeps (claims ++ Claim.ofCall name extensions))
    (hpatterns : ∀ language, r'.linePatterns language = r.linePatterns language) :
    OnlyClaimed r r' name extensions where
  classify x := by
    rw [h.classify, h'.classify, Claim.last?_append, Claim.last?_ofCall]
    split <;> rfl
  mem_extensions language x := by rw [h.mem_extensions, h'.mem_extensions, List.mem_append]
  mem_allLanguages language := by
    rw [h.mem_allLanguages, h'.mem_allLanguages]
    simp only [List.mem_append, exists_or]
  linePatterns := hpatterns

theorem OnlyClaimed.sameAnswers_iff (h : OnlyClaimed r r' name extensions)
    (hkeeps : r.Keeps claims) : SameAnswers r r' ↔
      Language.ofName name = .unknown ∨ ∀ x ∈ extensions,
        normalizeExtension x ≠ [] → r.classify x = Language.ofName name := by
  constructor
  · intro hsame
    by_cases hname : Language.ofName name = .unknown
    · exact .inl hname
    · refine .inr fun x hx hne => ?_
      rw [hsame.classify, h.classify, if_pos]
      exact Claim.mem_ofCall.2 ⟨hname, x, hx, hne, rfl⟩
  · intro howned
    -- All that the call claims belongs to its language already.
    have hheld : ∀ c ∈ Claim.ofCall name extensions,
        c.language ≠ .unknown ∧ Claim.last? claims c.extension = some c.language := by
      intro c hc
      obtain ⟨hname, x, hx, hne, rfl⟩ := Claim.mem_ofCall.1 hc
      exact ⟨hname, (hkeeps.classify_eq_iff hname x).1 ((howned.resolve_left hname) x hx hne)⟩
    have hlisted : ∀ {language x}, ⟨language, x⟩ ∈ Claim.ofCall name extensions →
        x ∈ r.extensions language :=
      fun hc => (hkeeps.mem_extensions _ _).2 (Claim.mem_of_last? (hheld _ hc).2)
    constructor
    case classify =>
      intro x
      rw [h.classify]
      split
      · next hmem => exact (hkeeps.classify_eq_iff (hheld _ hmem).1 x).2 (hheld _ hmem).2
      · rfl
    case extensions =>
      intro language x
      rw [h.mem_extensions]
      exact (or_iff_left_of_imp hlisted).symm
    case allLanguages =>
      intro language
      rw [h.mem_allLanguages]
      refine (or_iff_left_of_imp ?_).symm
      rintro ⟨x, hc⟩
      exact (hkeeps.mem_allLanguages language).2
        ⟨x, (hkeeps.mem_extensions language x).1 (hlisted hc)⟩
    case linePatterns => exact fun language => (h.linePatterns language).symm

/-- A registration is refused over its name or over a pattern.  The line patterns stay as they were,
but the extensions are claimed.  The call is without effect, on all that is asked now or after
further calls, exactly if its name is no language or each of its extensions belonged to the
language before. -/
theorem refused_register (known : Regex.CharacterNames) (calls : List RegistryCall) (name : Text)
    (extensions : List Text) (dependencies declarations : Option Regex.Source) :
    let r := RegistryCall.runAll known calls
    let r' := (r.register name extensions dependencies declarations known).1
    ((∃ e, (r.register name extensions dependencies declarations known).2 = some e) ↔
      Language.ofName name = .unknown ∨ Unreadable known dependencies ∨
        Unreadable known declarations) ∧
    ∀ e, (r.register name extensions dependencies declarations known).2 = some e →
      OnlyClaimed r r' name extensions ∧
      (SameAnswers r r' ↔ Language.ofName name = .unknown ∨ ∀ x ∈ extensions,
        normalizeExtension x ≠ [] → r.classify x = Language.ofName name) ∧
      (SameAnswers r r' → ∀ later : List RegistryCall,
        SameAnswers (later.foldl (RegistryCall.run known) r)
          (later.foldl (RegistryCall.run known) r')) := by
  intro r r'
  refine ⟨refused_register_iff, fun e he => ?_⟩
  obtain ⟨hkeeps, -⟩ := RegistryCall.keeps_fold calls keeps_empty (by simp)
  have hclaimed : OnlyClaimed r r' name extensions :=
    hkeeps.onlyClaimed (hkeeps.register name extensions dependencies declarations known)
      (linePatterns_refused he)
  exact ⟨hclaimed, hclaimed.sameAnswers_iff hkeeps, fun hsame later => hsame.run later⟩

/-- The extension of a language is lost to a call that is refused over its pattern. -/
theorem refused_register_halfway :
    let r := RegistryCall.runAll Regex.noNames [.make false, .register "Go" ["py"] none none]
    let call := r.register "Python" ["py"] (some "(") none Regex.noNames
    call.2 = some (.badPattern .python "(" (.at "missing ), unterminated subpattern" 0)) ∧
      r.classify "py" = .go ∧ call.1.classify "py" = .python ∧ ¬SameAnswers r call.1 := by
  intro r call
  have hrefused : call.2 =
      some (.badPattern .python "(" (.at "missing ), unterminated subpattern" 0)) := rfl
  have hbefore : r.classify "py" = .go := by decide
  obtain ⟨hclaimed, hsame, -⟩ := (refused_register Regex.noNames
    [.make false, .register "Go" ["py"] none none] "Python" ["py"] (some "(") none).2 _ hrefused
  refine ⟨hrefused, hbefore, ?_, fun h => ?_⟩
  · rw [hclaimed.classify, if_pos (by decide)]
    decide
  · rcases hsame.1 h with hname | howned
    · exact absurd hname (by decide)
    · have hother := howned "py" (by decide) (by decide)
      rw [hbefore] at hother
      exact absurd hother (by decide)

end Registry

end SourceScan
