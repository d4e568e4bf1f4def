import SourceScan.Proofs.Yaml.Block
import SourceScan.Proofs.Yaml.Pen.Double
import SourceScan.Proofs.Yaml.Pen.Plain
import SourceScan.Proofs.Yaml.Pen.Single
import SourceScan.Yaml.Writer

/-!
# Scalars written in the style that is chosen for them

Whatever the style, a scalar is written as one that reads back with its tag, and with its text
as far as single quotes keep it.
-/

namespace SourceScan.Yaml

open Pen

variable {wide simpleKey plain : Bool} {tag : Tag} {t w : Text} {column : Nat} {p : Pen}

def readBack (wide : Bool) (t : Text) : Text := if canBeSingleQuoted wide t then reread t else t

def IsOrdinary (wide : Bool) (tag : Tag) (t : Text) : Prop :=
  tag = .str ∨ Tag.ofPlain t = tag ∧ canBePlain wide t = true

def onOneLine (wide : Bool) (t : Text) : Text :=
  match Style.choose wide true .str (RawText.ofText t) with
  | .plain => t
  | .single => '\'' :: quotesDoubled t ++ ['\'']
  | .double => '"' :: escaped wide t ++ ['"']

structure WritesScalar (wide : Bool) (tag : Tag) (t : Text) (column : Nat) (w : Text) : Prop where
  written : ∃ plain, Written column plain (readBack wide t) w ∧
    scalarNode plain (readBack wide t) = .scalar tag (readBack wide t)
  clean : ∀ ch ∈ w, IsClean wide ch

theorem readBack_of_canBePlain (h : canBePlain wide t = true) : readBack wide t = t := by
  have htext := IsPlainText.of_canBePlain h
  rw [readBack]
  split
  · refine reread_of_notMem fun hmem => ?_
    have hbreak := htext.not_break _ hmem
    revert hbreak
    decide
  · rfl

theorem writesScalar_plain (hplain : Plain column t w) (h : canBePlain wide t = true)
    (htag : Tag.ofPlain t = tag) (hclean : ∀ ch ∈ w, IsClean wide ch) :
    WritesScalar wide tag t column w := by
  have hmark : hasMark t = false := by
    simp only [canBePlain, Bool.and_eq_true, Bool.not_eq_true'] at h
    exact h.1.1.2
  refine ⟨⟨true, ?_, ?_⟩, hclean⟩
  · rw [readBack_of_canBePlain h]
    exact .plain hplain hmark
  · rw [readBack_of_canBePlain h, scalarNode, if_pos rfl, htag]

theorem isClean_quotes {quote : Char} (hquote : IsClean wide quote)
    (hclean : ∀ ch ∈ w, IsClean wide ch) : ∀ ch ∈ quote :: w ++ [quote], IsClean wide ch := by
  intro ch hch
  simp only [List.mem_append, List.mem_cons, List.not_mem_nil, or_false] at hch
  rcases hch with (rfl | hch) | rfl
  · exact hquote
  · exact hclean ch hch
  · exact hquote

theorem isClean_quoteOf (double : Bool) : IsClean wide (quoteOf double) := by
  refine isClean_of_isSober ?_
  cases double <;> exact ⟨by decide, by decide⟩

theorem writesScalar_quoted (double : Bool) (hquoted : Quoted double column (readBack wide t) w)
    (htag : tag = .str) (hclean : ∀ ch ∈ w, IsClean wide ch) :
    WritesScalar wide tag t column (quoteOf double :: w ++ [quoteOf double]) :=
  ⟨⟨false, .quoted double hquoted, by rw [htag]; rfl⟩,
    isClean_quotes (isClean_quoteOf double) hclean⟩

theorem choose_ofText : Style.choose wide simpleKey tag (RawText.ofText t) =
    if Tag.ofPlain t = tag && !(simpleKey && (t.isEmpty || isMultiline t)) && canBePlain wide t then
      .plain
    else if canBeSingleQuoted wide t && !(simpleKey && isMultiline t) then .single
    else .double := by
  rw [Style.choose, RawText.text?_ofText]

theorem choose_cases (wide simpleKey : Bool) (h : IsOrdinary wide tag t)
    (hne : Tag.ofPlain t = tag → t ≠ [])
    (hkey : simpleKey = true → isMultiline t = false) :
    (Style.choose wide simpleKey tag (RawText.ofText t) = .plain ∧ canBePlain wide t = true ∧
        Tag.ofPlain t = tag) ∨
      (Style.choose wide simpleKey tag (RawText.ofText t) = .single ∧
        canBeSingleQuoted wide t = true ∧ tag = .str) ∨
      Style.choose wide simpleKey tag (RawText.ofText t) = .double ∧
        canBeSingleQuoted wide t = false ∧ tag = .str := by
  have hmulti : (simpleKey && isMultiline t) = false := by
    cases simpleKey with
    | true => exact hkey rfl
    | false => rfl
  rw [choose_ofText]
  by_cases hplain : Tag.ofPlain t = tag ∧ canBePlain wide t = true
  · have hempty : t.isEmpty = false := by simpa using hne hplain.1
    have hstays : (simpleKey && (t.isEmpty || isMultiline t)) = false := by
      rw [hempty, Bool.false_or, hmulti]
    exact .inl ⟨by simp [hplain, hstays], hplain.2, hplain.1⟩
  · have htag : tag = .str := h.resolve_right hplain
    have hnot : (Tag.ofPlain t = tag && !(simpleKey && (t.isEmpty || isMultiline t)) &&
        canBePlain wide t) = false := by
      rw [Bool.eq_false_iff]
      simp only [ne_eq, Bool.and_eq_true, decide_eq_true_eq]
      exact fun hall => hplain ⟨hall.1.1, hall.2⟩
    rw [if_neg (by rw [hnot]; decide), hmulti]
    cases hsingle : canBeSingleQuoted wide t with
    | true => exact .inr (.inl ⟨rfl, rfl, htag⟩)
    | false => exact .inr (.inr ⟨rfl, rfl, htag⟩)

/-- Every ordinary scalar is written as one that reads back. -/
theorem putScalar_wrote (column : Nat) (simpleKey : Bool) (p : Pen) (h : IsOrdinary wide tag t)
    (hne : Tag.ofPlain t = tag → t ≠ []) (hpos : 0 < column) (hcolumn : column < width)
    (hkey : simpleKey = true → isMultiline t = false) :
    ∃ w, Wrote p ((if p.spaced then [] else [' ']) ++ w)
        (Form.putScalar wide simpleKey column tag (RawText.ofText t) p) ∧
      Settled (Form.putScalar wide simpleKey column tag (RawText.ofText t) p) ∧
      WritesScalar wide tag t column w := by
  rw [Form.putScalar]
  rcases choose_cases wide simpleKey h hne hkey with
    ⟨hstyle, hplain, htag⟩ | ⟨hstyle, hsingle, rfl⟩ | ⟨hstyle, hsingle, rfl⟩
  · obtain ⟨w, hw, hsettled, hread, hclean, -⟩ :=
      plain_wrote column (!simpleKey) p hplain (hne htag)
    simp only [hstyle, RawText.shown_ofText]
    exact ⟨w, hw, hsettled, writesScalar_plain hread hplain htag hclean⟩
  · obtain ⟨w, hw, hsettled, hread, hclean, -⟩ :=
      single_wrote (!simpleKey) p hsingle hpos (Nat.le_of_lt hcolumn)
    have hback : readBack wide t = reread t := if_pos hsingle
    simp only [hstyle, RawText.shown_ofText, Form.putTag, if_true]
    exact ⟨_, hw, hsettled, writesScalar_quoted false (by rwa [hback]) rfl hclean⟩
  · obtain ⟨w, hw, hsettled, hread, hclean, -⟩ := double_wrote wide (!simpleKey) p hcolumn t
    have hback : readBack wide t = t := if_neg (by rw [hsingle]; decide)
    simp only [hstyle, Form.putTag, if_true]
    exact ⟨_, hw, hsettled, writesScalar_quoted true (by rwa [hback]) rfl hclean⟩

/-! ## Keys on the lines of their values -/

theorem isFlat_quotes (double : Bool) (hflat : ∀ ch ∈ w, IsFlat ch) :
    ∀ ch ∈ quoteOf double :: w ++ [quoteOf double], IsFlat ch := by
  have hquote : IsFlat (quoteOf double) := by cases double <;> exact ⟨by decide, by decide⟩
  intro ch hch
  simp only [List.mem_append, List.mem_cons, List.not_mem_nil, or_false] at hch
  rcases hch with (rfl | hch) | rfl
  · exact hquote
  · exact hflat ch hch
  · exact hquote

theorem isFlat_escaped : ∀ ch ∈ escaped wide t, IsFlat ch := by
  intro ch hch
  obtain ⟨d, -, hch⟩ := List.mem_flatMap.mp hch
  rw [inDouble] at hch
  cases he : escape? wide (.char d) with
  | some e =>
      rw [he] at hch
      exact isFlat_of_isSober ((isEscape_of_escape? he).2 ch hch)
  | none =>
      rw [he] at hch
      rw [List.mem_singleton.mp hch]
      exact (isFlat_of_staysInDouble (escape?_eq_none he)).1

theorem isFlat_quotesDoubled (h : IsQuotable wide t) (hline : isMultiline t = false) :
    ∀ ch ∈ quotesDoubled t, IsFlat ch := by
  intro ch hch
  have hmem := mem_quotesDoubled.mp hch
  rw [isMultiline, List.any_eq_false] at hline
  exact isFlat_of_not_special (h.not_special ch hmem) (by simpa using hline ch hmem)

theorem putScalar_key (wide : Bool) (column : Nat) (p : Pen) (hne : t ≠ [])
    (hline : isMultiline t = false) (hpos : 0 < column) (hcolumn : column < width) :
    Wrote p ((if p.spaced then [] else [' ']) ++ onOneLine wide t)
        (Form.putScalar wide true column .str (RawText.ofText t) p) ∧
      WritesScalar wide .str t column (onOneLine wide t) ∧
      ∀ ch ∈ onOneLine wide t, IsFlat ch := by
  have hnot : ∀ ch ∈ t, isWrittenBreak ch = false := by
    rw [isMultiline, List.any_eq_false] at hline
    exact fun ch hch => by simpa using hline ch hch
  rw [Form.putScalar, onOneLine]
  rcases choose_cases wide true (.inl rfl) (fun _ => hne) fun _ => hline with
    ⟨hstyle, hplain, htag⟩ | ⟨hstyle, hsingle, -⟩ | ⟨hstyle, hsingle, -⟩
  · obtain ⟨w, hw, -, hread, hclean, hsame⟩ := plain_wrote column false p hplain hne
    obtain rfl := hsame rfl
    have htext := IsPlainText.of_canBePlain hplain
    simp only [hstyle, RawText.shown_ofText]
    exact ⟨hw, writesScalar_plain hread hplain htag hclean, fun ch hch =>
      isFlat_of_not_special (htext.not_special ch hch) (htext.not_break ch hch)⟩
  · obtain ⟨w, hw, -, hread, hclean, hsame⟩ :=
      single_wrote false p hsingle hpos (Nat.le_of_lt hcolumn)
    obtain rfl := hsame rfl hnot
    have hback : readBack wide t = reread t := if_pos hsingle
    simp only [hstyle, RawText.shown_ofText, Form.putTag, if_true]
    exact ⟨hw, writesScalar_quoted false (by rwa [hback]) rfl hclean,
      isFlat_quotes false (isFlat_quotesDoubled (.of_canBeSingleQuoted hsingle) hline)⟩
  · obtain ⟨w, hw, -, hread, hclean, hsame⟩ := double_wrote wide false p hcolumn t
    obtain rfl := hsame rfl
    have hback : readBack wide t = t := if_neg (by rw [hsingle]; decide)
    simp only [hstyle, Form.putTag, if_true]
    exact ⟨hw, writesScalar_quoted true (by rwa [hback]) rfl hclean,
      isFlat_quotes true isFlat_escaped⟩

end SourceScan.Yaml
