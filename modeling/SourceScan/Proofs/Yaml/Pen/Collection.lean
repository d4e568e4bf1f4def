import SourceScan.Proofs.Yaml.Pen.Scalar

/-!
# Collections written as blocks

The pen lays out one part of a block after the other: each lemma here says how the parts that it
has laid out make up the next larger one.
-/

namespace SourceScan.Yaml

open Pen

variable {wide short underKey : Bool} {part : Part} {p q r : Pen} {m : Nat} {out : Text}
  {n : Node} {ns : List Node} {ns' : List (Node × Node)}

/-- From one pen to the other a part is laid out, in characters that may stand there. -/
def Lays (wide : Bool) (part : Part) (m : Nat) (short : Bool) (p q : Pen) : Prop :=
  ∃ w toks, Wrote p w q ∧ Settled q ∧ Block part m short toks w ∧ ∀ ch ∈ w, IsClean wide ch

theorem Lays.settled (h : Lays wide part m short p q) : Settled q := by
  obtain ⟨w, toks, -, hsettled, -⟩ := h
  exact hsettled

theorem isClean_append {s t : Text} (hs : ∀ ch ∈ s, IsClean wide ch)
    (ht : ∀ ch ∈ t, IsClean wide ch) : ∀ ch ∈ s ++ t, IsClean wide ch := by
  intro ch hch
  rcases List.mem_append.mp hch with hch | hch
  · exact hs ch hch
  · exact ht ch hch

theorem isClean_cons {c : Char} {t : Text} (hc : IsClean wide c)
    (ht : ∀ ch ∈ t, IsClean wide ch) : ∀ ch ∈ c :: t, IsClean wide ch :=
  isClean_append (s := [c]) (by simpa using hc) ht

/-! ## Nodes -/

theorem lays_scalar {tag : Tag} {t : Text} (h : IsOrdinary wide tag t)
    (hne : Tag.ofPlain t = tag → t ≠ []) (hm : m + 2 < width) (hp : p.spaced = false) :
    Lays wide (.node p.fresh (.scalar tag (readBack wide t))) m true p
      (Form.put wide (some m) underKey false (.scalar tag t) p) := by
  obtain ⟨w, hw, hsettled, ⟨plain, hwritten, hnode⟩, hclean⟩ :=
    putScalar_wrote (m + 2) false p h hne (by omega) hm (by simp)
  rw [hp] at hw
  rw [← hnode]
  exact ⟨_, _, hw, hsettled, .scalar _ hwritten, isClean_cons isClean_space hclean⟩

theorem lays_emptySeq (hp : p.spaced = false) :
    Lays wide (.node p.fresh (.seq .seq [])) m true p
      (Form.put wide (some m) underKey false (.seq .seq []) p) := by
  have hw := wrote_mark ['[', ']'] p
  rw [hp] at hw
  exact ⟨_, _, hw, ⟨rfl, rfl⟩, .emptySeq m _, isClean_cons isClean_space <|
    isClean_cons (isClean_of_isSober ⟨by decide, by decide⟩) <|
      isClean_cons (isClean_of_isSober ⟨by decide, by decide⟩) (by simp)⟩

theorem lays_emptyMap (hp : p.spaced = false) :
    Lays wide (.node p.fresh (.map .map [])) m true p
      (Form.put wide (some m) underKey false (.map .map []) p) := by
  have hw := wrote_mark ['\x7b', '\x7d'] p
  rw [hp] at hw
  exact ⟨_, _, hw, ⟨rfl, rfl⟩, .emptyMap m _, isClean_cons isClean_space <|
    isClean_cons (isClean_of_isSober ⟨by decide, by decide⟩) <|
      isClean_cons (isClean_of_isSober ⟨by decide, by decide⟩) (by simp)⟩

def atColumn (out : Text) (column : Nat) : Pen := ⟨out, column, true, true⟩

theorem toColumn_settled (h : Settled p) :
    p.toColumn m = atColumn ((lineStart m).reverse ++ p.out) m :=
  toColumn_line (.inl h.not_fresh)

theorem toColumn_fresh (hfresh : p.fresh = true) (hcolumn : p.column = m + 1) :
    p.toColumn (m + 2) = atColumn (' ' :: p.out) (m + 2) := by
  rw [toColumn_pad hfresh (by omega), hcolumn]
  have hone : m + 2 - (m + 1) = 1 := by omega
  rw [hone]
  rfl

theorem lays_seqBelow (hp : Settled p)
    (h : Lays wide (.items ns) m short (p.toColumn m) q) :
    Lays wide (.node p.fresh (.seq .seq ns)) m short p q := by
  obtain ⟨w, toks, hw, hsettled, hblock, hclean⟩ := h
  rw [toColumn_settled hp] at hw
  rw [hp.not_fresh]
  have hline : Wrote p (lineStart m) (atColumn ((lineStart m).reverse ++ p.out) m) := rfl
  exact ⟨_, _, hline.trans hw, hsettled, .seqBelow hblock, isClean_append isClean_lineStart hclean⟩

theorem lays_seqBeside (hfresh : p.fresh = true) (hcolumn : p.column = m + 1)
    (h : Lays wide (.items ns) (m + 2) short (p.toColumn (m + 2)) q) :
    Lays wide (.node p.fresh (.seq .seq ns)) m short p q := by
  obtain ⟨w, toks, hw, hsettled, hblock, hclean⟩ := h
  rw [toColumn_fresh hfresh hcolumn] at hw
  rw [hfresh]
  have hspace : Wrote p [' '] (atColumn (' ' :: p.out) (m + 2)) := rfl
  exact ⟨_, _, hspace.trans hw, hsettled, .seqBeside hblock, isClean_cons isClean_space hclean⟩

theorem lays_map (hp : p.spaced = false) (hcolumn : p.fresh = true → p.column = m + 1)
    (h : Lays wide (.entries ns') (m + 2) short (p.toColumn (m + 2)) q) :
    Lays wide (.node p.fresh (.map .map ns')) m short p q := by
  obtain ⟨w, toks, hw, hsettled, hblock, hclean⟩ := h
  cases hfresh : p.fresh with
  | true =>
      rw [toColumn_fresh hfresh (hcolumn hfresh)] at hw
      have hspace : Wrote p [' '] (atColumn (' ' :: p.out) (m + 2)) := rfl
      exact ⟨_, _, hspace.trans hw, hsettled, .mapBeside hblock, isClean_cons isClean_space hclean⟩
  | false =>
      rw [toColumn_settled ⟨hp, hfresh⟩] at hw
      have hline : Wrote p (lineStart (m + 2))
          (atColumn ((lineStart (m + 2)).reverse ++ p.out) (m + 2)) := rfl
      exact ⟨_, _, hline.trans hw, hsettled, .mapBelow hblock,
        isClean_append isClean_lineStart hclean⟩

/-! ## Items -/

def behindMark (mark : Char) (out : Text) (column : Nat) : Pen :=
  ⟨mark :: out, column + 1, false, true⟩

theorem bullet_atColumn (mark : Char) :
    (atColumn out m).bullet [mark] = behindMark mark out m := rfl

theorem isClean_dash : IsClean wide '-' := isClean_of_isSober ⟨by decide, by decide⟩

theorem lays_lastItem (h : Lays wide (.node true n) m short (behindMark '-' out m) q) :
    Lays wide (.items [n]) m short (atColumn out m) q := by
  obtain ⟨w, toks, hw, hsettled, hblock, hclean⟩ := h
  have hdash : Wrote (atColumn out m) ['-'] (behindMark '-' out m) := rfl
  exact ⟨_, _, hdash.trans hw, hsettled, .lastItem hblock, isClean_cons isClean_dash hclean⟩

theorem lays_moreItems {short' : Bool}
    (h : Lays wide (.node true n) m short (behindMark '-' out m) q)
    (h' : Lays wide (.items ns) m short' (q.toColumn m) r) :
    Lays wide (.items (n :: ns)) m (short && short') (atColumn out m) r := by
  obtain ⟨w, toks, hw, hsettled, hblock, hclean⟩ := h
  obtain ⟨w', toks', hw', hsettled', hblock', hclean'⟩ := h'
  rw [toColumn_settled hsettled] at hw'
  have hdash : Wrote (atColumn out m) ['-'] (behindMark '-' out m) := rfl
  have hline : Wrote q (lineStart m) (atColumn ((lineStart m).reverse ++ q.out) m) := rfl
  exact ⟨_, _, ((hdash.trans hw).trans hline).trans hw', hsettled', .moreItems hblock hblock',
    isClean_append (isClean_append (isClean_cons isClean_dash hclean) isClean_lineStart) hclean'⟩

/-! ## Entries -/

theorem isClean_colon : IsClean wide ':' := isClean_of_isSober ⟨by decide, by decide⟩

theorem isSimpleKey_str {t : Text} (h : (Form.str t).isSimpleKey = true) :
    t ≠ [] ∧ isMultiline t = false := by
  simp only [Form.str, Form.isSimpleKey, RawText.ofText, Bool.and_eq_true, Bool.not_eq_true'] at h
  obtain ⟨⟨-, hne⟩, hline⟩ := h
  refine ⟨fun hnil => ?_, ?_⟩
  · subst hnil
    cases hne
  · rw [isMultiline]
    rw [List.any_eq_false] at hline ⊢
    intro ch hch
    simpa [TextUnit.char?] using hline (.char ch) (List.mem_map_of_mem hch)

theorem lays_simpleKey {t : Text} (hkey : (Form.str t).isSimpleKey = true) (hm : m + 2 < width)
    (h : Lays wide (.node false n) m short
      ((Form.put wide (some m) true true (.str t) (atColumn out m)).close [':']) q) :
    Lays wide (.entry (.scalar .str (readBack wide t), n)) m
      ((onOneLine wide t).length ≤ Lexer.keyLimit && short) (atColumn out m) q := by
  obtain ⟨w, toks, hw, hsettled, hblock, hclean⟩ := h
  obtain ⟨hne, hline⟩ := isSimpleKey_str hkey
  obtain ⟨hkey, ⟨⟨plain, hwritten, hnode⟩, hclean'⟩, hflat⟩ :=
    putScalar_key wide (m + 2) (atColumn out m) hne hline (by omega) hm
  have hcolon := hkey.trans (wrote_put [':'] _)
  rw [← hnode]
  have hall : Wrote (atColumn out m) (onOneLine wide t ++ ':' :: w) q := by
    have := hcolon.trans hw
    simpa [atColumn] using this
  exact ⟨_, _, hall, hsettled, .simpleKey hwritten hflat hblock,
    isClean_append hclean' (isClean_cons isClean_colon hclean)⟩

theorem lays_explicitKey {k : Node} {short' : Bool}
    (h : Lays wide (.node true k) m short (behindMark '?' out m) q)
    (h' : Lays wide (.node true n) m short' ((q.toColumn m).bullet [':']) r) :
    Lays wide (.entry (k, n)) m (short && short') (atColumn out m) r := by
  obtain ⟨w, toks, hw, hsettled, hblock, hclean⟩ := h
  obtain ⟨w', toks', hw', hsettled', hblock', hclean'⟩ := h'
  rw [toColumn_settled hsettled, bullet_atColumn] at hw'
  have hmark : Wrote (atColumn out m) ['?'] (behindMark '?' out m) := rfl
  have hline : Wrote q (lineStart m ++ [':'])
      (behindMark ':' ((lineStart m).reverse ++ q.out) m) := by
    rw [Wrote, behindMark, List.reverse_append]
    rfl
  have hall := ((hmark.trans hw).trans hline).trans hw'
  refine ⟨_, _, ?_, hsettled', .explicitKey hblock hblock',
    isClean_append (isClean_append (isClean_cons (isClean_of_isSober ⟨by decide, by decide⟩) hclean)
      isClean_lineStart) (isClean_cons isClean_colon hclean')⟩
  simpa using hall

theorem lays_lastEntry {e : Node × Node} (h : Lays wide (.entry e) m short p q) :
    Lays wide (.entries [e]) m short p q := by
  obtain ⟨w, toks, hw, hsettled, hblock, hclean⟩ := h
  exact ⟨w, toks, hw, hsettled, .lastEntry hblock, hclean⟩

theorem lays_moreEntries {e : Node × Node} {short' : Bool} (h : Lays wide (.entry e) m short p q)
    (h' : Lays wide (.entries ns') m short' (q.toColumn m) r) :
    Lays wide (.entries (e :: ns')) m (short && short') p r := by
  obtain ⟨w, toks, hw, hsettled, hblock, hclean⟩ := h
  obtain ⟨w', toks', hw', hsettled', hblock', hclean'⟩ := h'
  rw [toColumn_settled hsettled] at hw'
  have hline : Wrote q (lineStart m) (atColumn ((lineStart m).reverse ++ q.out) m) := rfl
  exact ⟨_, _, (hw.trans hline).trans hw', hsettled', .moreEntries hblock hblock',
    isClean_append (isClean_append hclean isClean_lineStart) hclean'⟩

end SourceScan.Yaml
