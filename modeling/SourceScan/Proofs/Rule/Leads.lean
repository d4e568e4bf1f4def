import SourceScan.Proofs.Rule.Normal

/-!
# What stands in front of a path

A path is read without the slashes and the `./` in front of it, but all `./` are dropped before any
slash is.  A `./` behind a slash stays, and then the normal form is none.
-/

namespace SourceScan

/-! ## Trimming less and more -/

theorem Text.length_dropEndWhile_le_of_suffix {α : Type} {p : α → Bool} {s t : List α}
    (h : s <:+ t) : (Text.dropEndWhile p s).length ≤ (Text.dropEndWhile p t).length := by
  obtain ⟨before, rfl⟩ := h
  simp only [Text.dropEndWhile, List.reverse_append, List.length_reverse, List.dropWhile_append]
  split
  · next hnil =>
      rw [List.isEmpty_iff.1 hnil]
      exact Nat.zero_le _
  · simp

theorem Text.length_trim_le_of_suffix {α : Type} {p : α → Bool} {s t : List α} (h : s <:+ t) :
    (Text.trim p s).length ≤ (Text.trim p t).length := by
  obtain ⟨before, rfl⟩ := h
  refine Text.length_dropEndWhile_le_of_suffix ?_
  rw [List.dropWhile_append]
  split
  · exact List.suffix_rfl
  · exact (List.dropWhile_suffix p).trans (List.suffix_append _ _)

theorem Text.dropEndWhile_append {α : Type} {p : α → Bool} {t : List α} (s : List α)
    (h : ∃ c ∈ t, p c = false) : Text.dropEndWhile p (s ++ t) = s ++ Text.dropEndWhile p t := by
  have hne : t.reverse.dropWhile p ≠ [] := by
    obtain ⟨c, hc, hp⟩ := h
    rw [Ne, List.dropWhile_eq_nil_iff]
    intro hall
    rw [hall c (List.mem_reverse.2 hc)] at hp
    cases hp
  rw [Text.dropEndWhile, List.reverse_append, List.dropWhile_append,
    if_neg (by simpa using hne), List.reverse_append, List.reverse_reverse, Text.dropEndWhile]

theorem Text.dropEndWhile_cons {α : Type} {p : α → Bool} {c : α} {t : List α}
    (h : p c = false) : Text.dropEndWhile p (c :: t) = c :: Text.dropEndWhile p t := by
  rw [Text.dropEndWhile, List.reverse_cons, List.dropWhile_append, Text.dropEndWhile]
  split
  · next hnil =>
      rw [List.isEmpty_iff.1 hnil, List.dropWhile_cons_of_neg (by simp [h])]
      rfl
  · simp

/-! ## Leads -/

structure Lead where
  dotted : Bool
  back : Bool
  deriving DecidableEq, Repr

namespace Lead

def text (lead : Lead) : Text :=
  (if lead.dotted then ['.'] else []) ++ [if lead.back then '\\' else '/']

def texts (leads : List Lead) : Text := leads.flatMap text

def Orderly (leads : List Lead) : Prop :=
  leads.Pairwise fun lead later => later.dotted = true → lead.dotted = true

instance (leads : List Lead) : Decidable (Orderly leads) :=
  inferInstanceAs (Decidable (leads.Pairwise _))

end Lead

variable {s : Text} {leads : List Lead} {back : Bool}

def turned (c : Char) : Char := if c = '\\' then '/' else c

theorem normalizePath_eq (s : Text) :
    normalizePath s = Text.trim (· = '/') (normalizePath.dropDots (s.map turned)) := rfl

def slashFree (s : Text) : Text := Text.trim (· = '/') (s.map turned)

def BeginsDotted (s : Text) : Prop := ∃ back, Lead.text ⟨true, back⟩ <+: s

theorem exists_lead_of_turned {c : Char} (h : turned c = '/') :
    ∃ back, [c] = Lead.text ⟨false, back⟩ := by
  unfold turned at h
  split at h
  · next hc => exact ⟨true, by rw [hc]; rfl⟩
  · exact ⟨false, by rw [h]; rfl⟩

theorem turned_dotted (back : Bool) (s : Text) :
    (Lead.text ⟨true, back⟩ ++ s).map turned = '.' :: '/' :: s.map turned := by
  cases back <;> rfl

theorem turned_bare (back : Bool) (s : Text) :
    (Lead.text ⟨false, back⟩ ++ s).map turned = '/' :: s.map turned := by
  cases back <;> rfl

theorem beginsDotted_of_turned {r : Text} (h : s.map turned = '.' :: '/' :: r) :
    BeginsDotted s := by
  obtain ⟨c, s, rfl, hc, hs⟩ := List.map_eq_cons_iff.1 h
  obtain ⟨d, s, rfl, hd, -⟩ := List.map_eq_cons_iff.1 hs
  obtain ⟨back, hback⟩ := exists_lead_of_turned hd
  have hdot : c = '.' := by
    unfold turned at hc
    split at hc
    · cases hc
    · exact hc
  refine ⟨back, s, ?_⟩
  rw [hdot, ← List.singleton_append (x := d), hback]
  rfl

theorem slashFree_bare (back : Bool) (s : Text) :
    slashFree (Lead.text ⟨false, back⟩ ++ s) = slashFree s := by
  rw [slashFree, turned_bare, Text.trim, List.dropWhile_cons_of_pos (by decide)]
  rfl

theorem slashFree_dotted (back : Bool) (s : Text) :
    slashFree (Lead.text ⟨true, back⟩ ++ s) =
      Text.dropEndWhile (· = '/') ('.' :: '/' :: s.map turned) := by
  rw [slashFree, turned_dotted, Text.trim, List.dropWhile_cons_of_neg (by decide)]

theorem normalizePath_dotted (back : Bool) (s : Text) :
    normalizePath (Lead.text ⟨true, back⟩ ++ s) = normalizePath s := by
  rw [normalizePath_eq, turned_dotted, normalizePath.dropDots]
  rfl

theorem normalizePath_of_not_dotted (h : ¬BeginsDotted s) : normalizePath s = slashFree s := by
  rw [normalizePath_eq, normalizePath.dropDots_eq_self fun r hr => h (beginsDotted_of_turned hr)]
  rfl

theorem not_beginsDotted_bare (back : Bool) (s : Text) :
    ¬BeginsDotted (Lead.text ⟨false, back⟩ ++ s) := by
  rintro ⟨other, rest, heq⟩
  cases back <;> cases (List.cons.inj heq).1

theorem normalizePath_bare (back : Bool) (s : Text) :
    normalizePath (Lead.text ⟨false, back⟩ ++ s) = slashFree s := by
  rw [normalizePath_of_not_dotted (not_beginsDotted_bare back s), slashFree_bare]

/-! ## Leads that are dropped -/

namespace Lead

/-- The path is read as without the leads: no `./` stands behind a slash, be it the first of the
path. -/
def Dropped (leads : List Lead) (s : Text) : Prop :=
  Orderly leads ∧ ((∃ lead ∈ leads, lead.dotted = false) → ¬BeginsDotted s)

theorem texts_cons (lead : Lead) (leads : List Lead) (s : Text) :
    texts (lead :: leads) ++ s = text lead ++ (texts leads ++ s) := by
  rw [texts, List.flatMap_cons, List.append_assoc]
  rfl

theorem orderly_dotted : Orderly (⟨true, back⟩ :: leads) ↔ Orderly leads := by
  simp [Orderly]

theorem orderly_bare :
    Orderly (⟨false, back⟩ :: leads) ↔ ∀ lead ∈ leads, lead.dotted = false := by
  simp only [Orderly, List.pairwise_cons, Bool.false_eq_true, imp_false, Bool.not_eq_true]
  refine and_iff_left_of_imp fun hbare => ?_
  refine List.pairwise_of_forall_mem_list fun lead _ later hlater hdotted => ?_
  rw [hbare later hlater] at hdotted
  cases hdotted

theorem exists_dotted_bare : (∃ lead ∈ ⟨false, back⟩ :: leads, lead.dotted = true) ↔
    ∃ lead ∈ leads, lead.dotted = true := by
  simp

theorem dropped_dotted : Dropped (⟨true, back⟩ :: leads) s ↔ Dropped leads s := by
  simp [Dropped, orderly_dotted]

theorem dropped_bare : Dropped (⟨false, back⟩ :: leads) s ↔
    (∀ lead ∈ leads, lead.dotted = false) ∧ ¬BeginsDotted s := by
  simp [Dropped, orderly_bare]

theorem slashFree_texts (h : ∀ lead ∈ leads, lead.dotted = false) (s : Text) :
    slashFree (texts leads ++ s) = slashFree s := by
  induction leads with
  | nil => rfl
  | cons lead leads ih =>
      obtain ⟨hlead, hleads⟩ := List.forall_mem_cons.1 h
      obtain ⟨dotted, back⟩ := lead
      cases hlead
      rw [texts_cons, slashFree_bare, ih hleads]

end Lead

open Lead

theorem length_normalizePath_le (s : Text) :
    (normalizePath s).length ≤ (slashFree s).length :=
  Text.length_trim_le_of_suffix (normalizePath.dropDots_suffix _)

theorem length_slashFree_lt (back : Bool) (s : Text) :
    (slashFree s).length < (slashFree (text ⟨true, back⟩ ++ s)).length := by
  have hslash : slashFree (['/'] ++ s) = slashFree s := slashFree_bare false s
  rw [slashFree_dotted, Text.dropEndWhile_cons (by decide), List.length_cons, ← hslash,
    Nat.lt_succ_iff]
  exact Text.length_dropEndWhile_le_of_suffix (List.dropWhile_suffix _)

theorem length_lt_of_beginsDotted
    (h : (∃ lead ∈ leads, lead.dotted = true) ∨ BeginsDotted s) :
    (normalizePath s).length < (slashFree (texts leads ++ s)).length := by
  induction leads with
  | nil =>
      obtain ⟨back, r, rfl⟩ := h.resolve_left (by simp)
      rw [normalizePath_dotted]
      exact (length_normalizePath_le r).trans_lt (length_slashFree_lt back r)
  | cons lead leads ih =>
      obtain ⟨dotted, back⟩ := lead
      rw [texts_cons]
      cases dotted with
      | false =>
          rw [slashFree_bare]
          exact ih (h.imp_left exists_dotted_bare.1)
      | true =>
          have hlonger : (slashFree s).length ≤ (slashFree (texts leads ++ s)).length :=
            Text.length_trim_le_of_suffix ((List.suffix_append _ s).map turned)
          exact ((length_normalizePath_le s).trans hlonger).trans_lt (length_slashFree_lt back _)

theorem normalizePath_texts (h : Dropped leads s) :
    normalizePath (texts leads ++ s) = normalizePath s := by
  induction leads with
  | nil => rfl
  | cons lead leads ih =>
      obtain ⟨dotted, back⟩ := lead
      rw [texts_cons]
      cases dotted with
      | true => rw [normalizePath_dotted, ih (dropped_dotted.1 h)]
      | false =>
          obtain ⟨hbare, hs⟩ := dropped_bare.1 h
          rw [normalizePath_bare, slashFree_texts hbare, normalizePath_of_not_dotted hs]

theorem dropped_of_normalizePath (h : normalizePath (texts leads ++ s) = normalizePath s) :
    Dropped leads s := by
  induction leads with
  | nil => simp [Dropped, Orderly]
  | cons lead leads ih =>
      obtain ⟨dotted, back⟩ := lead
      rw [texts_cons] at h
      cases dotted with
      | true => exact dropped_dotted.2 (ih (by rwa [normalizePath_dotted] at h))
      | false =>
          rw [normalizePath_bare] at h
          by_contra hkept
          refine absurd (congrArg List.length h) (length_lt_of_beginsDotted ?_).ne'
          rw [dropped_bare, not_and_or, not_not] at hkept
          exact hkept.imp_left fun hbare => by simpa using hbare

/-! ## Paths whose normal form is none -/

/-- A `./` stands behind a slash, and the path does not end with the slashes that follow. -/
def Tangled (s : Text) : Prop :=
  ∃ leads rest, s = texts leads ++ rest ∧ ¬Orderly leads ∧ ∃ c ∈ rest, turned c ≠ '/'

theorem prefix_slashFree_dotted {rest : Text} :
    ['.', '/'] <+: slashFree (text ⟨true, back⟩ ++ rest) ↔ ∃ c ∈ rest, turned c ≠ '/' := by
  rw [slashFree_dotted]
  constructor
  · intro h
    -- If only slashes followed, the slash of the lead would be dropped with them.
    by_contra hslashes
    have hnil : Text.dropEndWhile (fun c => decide (c = '/')) ('/' :: rest.map turned) = [] :=
      List.rdropWhile_eq_nil_iff.2 (by simpa using hslashes)
    rw [Text.dropEndWhile_cons (by decide), hnil] at h
    simpa using h.length_le
  · rintro ⟨c, hc, hslash⟩
    have hsome : ∃ c ∈ rest.map turned, decide (c = '/') = false :=
      ⟨_, List.mem_map_of_mem hc, decide_eq_false hslash⟩
    exact ⟨_, (Text.dropEndWhile_append ['.', '/'] hsome).symm⟩

theorem prefix_of_dotted {rest : Text} (h : ∃ lead ∈ leads, lead.dotted = true)
    (hrest : ∃ c ∈ rest, turned c ≠ '/') : ['.', '/'] <+: slashFree (texts leads ++ rest) := by
  induction leads with
  | nil => simp at h
  | cons lead leads ih =>
      obtain ⟨dotted, back⟩ := lead
      rw [texts_cons]
      cases dotted with
      | false =>
          rw [slashFree_bare]
          exact ih (exists_dotted_bare.1 h)
      | true =>
          obtain ⟨c, hc, hslash⟩ := hrest
          exact prefix_slashFree_dotted.2 ⟨c, List.mem_append_right _ hc, hslash⟩

theorem prefix_of_tangled (h : Tangled s) : ['.', '/'] <+: normalizePath s := by
  obtain ⟨leads, rest, rfl, hmixed, hrest⟩ := h
  induction leads with
  | nil => exact absurd List.Pairwise.nil hmixed
  | cons lead leads ih =>
      obtain ⟨dotted, back⟩ := lead
      rw [texts_cons]
      cases dotted with
      | true =>
          rw [normalizePath_dotted]
          exact ih fun horder => hmixed (orderly_dotted.2 horder)
      | false =>
          rw [normalizePath_bare]
          refine prefix_of_dotted ?_ hrest
          simpa [orderly_bare] using hmixed

theorem exists_leads_of_dotted (h : ['.', '/'] <+: slashFree s) :
    ∃ leads back rest, s = texts leads ++ (text ⟨true, back⟩ ++ rest) ∧
      (∀ lead ∈ leads, lead.dotted = false) ∧ ∃ c ∈ rest, turned c ≠ '/' := by
  induction s with
  | nil => simp [slashFree, Text.trim, Text.dropEndWhile] at h
  | cons c s ih =>
      by_cases hc : turned c = '/'
      · obtain ⟨back, hback⟩ := exists_lead_of_turned hc
        have hcut : c :: s = text ⟨false, back⟩ ++ s := by
          rw [← hback]
          rfl
        rw [hcut, slashFree_bare] at h
        obtain ⟨leads, other, rest, rfl, hbare, hrest⟩ := ih h
        refine ⟨⟨false, back⟩ :: leads, other, rest, ?_, ?_, hrest⟩
        · rw [hcut, texts_cons]
        · exact List.forall_mem_cons.2 ⟨rfl, hbare⟩
      · have hstays : slashFree (c :: s) = Text.dropEndWhile (· = '/') ((c :: s).map turned) := by
          rw [slashFree, Text.trim, List.map_cons, List.dropWhile_cons_of_neg (by simpa using hc)]
        have hbegins : BeginsDotted (c :: s) := by
          rw [hstays] at h
          obtain ⟨r, hr⟩ := h.trans (List.rdropWhile_prefix _ _)
          exact beginsDotted_of_turned hr.symm
        obtain ⟨back, rest, hrest⟩ := hbegins
        rw [← hrest, prefix_slashFree_dotted] at h
        exact ⟨[], back, rest, hrest.symm, by simp, h⟩

theorem tangled_of_dotted (h : ['.', '/'] <+: normalizePath s) : Tangled s := by
  induction hlength : s.length using Nat.strong_induction_on generalizing s with
  | _ n ih =>
    by_cases hbegins : BeginsDotted s
    · obtain ⟨back, r, rfl⟩ := hbegins
      rw [normalizePath_dotted] at h
      obtain ⟨leads, rest, rfl, hmixed, hrest⟩ := ih r.length (by simp [← hlength, text]) h rfl
      refine ⟨⟨true, back⟩ :: leads, rest, ?_, fun horder => hmixed (orderly_dotted.1 horder),
        hrest⟩
      rw [texts_cons]
    · rw [normalizePath_of_not_dotted hbegins] at h
      obtain ⟨leads, back, rest, rfl, hbare, hrest⟩ := exists_leads_of_dotted h
      refine ⟨leads ++ [⟨true, back⟩], rest, by simp [texts], fun horder => ?_, hrest⟩
      cases leads with
      | nil => exact hbegins ⟨back, List.prefix_append _ _⟩
      | cons lead leads =>
          obtain ⟨dotted, other⟩ := lead
          cases hbare _ List.mem_cons_self
          have hlast := orderly_bare.1 horder ⟨true, back⟩ (by simp)
          cases hlast

theorem not_tangled_iff : ¬Tangled s ↔ ∀ r, normalizePath s ≠ '.' :: '/' :: r := by
  rw [not_iff_comm]
  constructor
  · intro h
    simp only [not_forall, not_not] at h
    obtain ⟨r, hr⟩ := h
    exact tangled_of_dotted ⟨r, hr.symm⟩
  · rintro h hnone
    obtain ⟨r, hr⟩ := prefix_of_tangled h
    exact hnone r hr.symm

/-! ## Normal forms -/

theorem backslash_not_mem_normalizePath (s : Text) : '\\' ∉ normalizePath s := by
  intro hmem
  have hsub := (Text.trim_infix _ _).subset hmem
  obtain ⟨c, -, hc⟩ := List.mem_map.1 ((normalizePath.dropDots_suffix _).subset hsub)
  split at hc
  · cases hc
  · next hne => exact hne hc

theorem normalizePath_ends (s : Text) :
    (normalizePath s).head? ≠ some '/' ∧ (normalizePath s).getLast? ≠ some '/' := by
  have htrim : Text.trim (fun c => decide (c = '/')) (normalizePath s) = normalizePath s :=
    Text.trim_trim _ _
  obtain ⟨hhead, hlast⟩ := Text.trim_eq_self_iff.1 htrim
  constructor
  · intro h
    simpa using hhead _ h
  · intro h
    simpa using hlast _ h

/-- What reading a path comes to.  The result has no backslash and no slash at either end.  It
begins with a `./`, and is then no normal form, exactly if a `./` stands behind a slash in front of
the path.  What is put in front of a path is dropped exactly if no `./` comes to stand behind a
slash by it, and then every set of rules decides as before. -/
theorem normalizePath_canonical (s : Text) :
    ('\\' ∉ normalizePath s ∧ (normalizePath s).head? ≠ some '/' ∧
      (normalizePath s).getLast? ≠ some '/') ∧
    (['.', '/'] <+: normalizePath s ↔ Tangled s) ∧
    (normalizePath (normalizePath s) = normalizePath s ↔ ¬Tangled s) ∧
    ∀ leads : List Lead,
      (normalizePath (texts leads ++ s) = normalizePath s ↔ Dropped leads s) ∧
      (Dropped leads s → ∀ (m : Matcher) (patterns : List Text) (isDir : Bool),
        m.excludes (texts leads ++ s) patterns isDir = m.excludes s patterns isDir) := by
  have hback := backslash_not_mem_normalizePath s
  have hends := normalizePath_ends s
  refine ⟨⟨hback, hends⟩, ⟨tangled_of_dotted, prefix_of_tangled⟩, ?_, fun leads => ?_⟩
  · rw [normalizePath_eq_self_iff, not_tangled_iff]
    exact ⟨fun h => h.2.1, fun h => ⟨hback, h, hends⟩⟩
  · refine ⟨⟨dropped_of_normalizePath, normalizePath_texts⟩, fun h m patterns isDir => ?_⟩
    simp only [Matcher.excludes, normalizePath_texts h]

theorem normalizePath_canonical_mixed :
    Dropped [⟨true, false⟩, ⟨true, true⟩, ⟨false, true⟩, ⟨false, false⟩] ['a'] ∧
    Matcher.standard.excludes ("./.\\\\/a" : Text) [("a/" : Text)] true = true := by
  have hdropped : Dropped [⟨true, false⟩, ⟨true, true⟩, ⟨false, true⟩, ⟨false, false⟩] ['a'] := by
    refine ⟨by decide, fun _ => ?_⟩
    rintro ⟨back, rest, heq⟩
    cases (List.cons.inj heq).1
  refine ⟨hdropped, ?_⟩
  exact ((normalizePath_canonical ['a']).2.2.2 _).2 hdropped .standard [("a/" : Text)] true

end SourceScan
