import SourceScan.Proofs.Value
import SourceScan.Proofs.Yaml.Pen.Runs

/-!
# Double-quoted scalars written

Between double quotes every text is written so that it reads back as it is, in lines that a
backslash joins.
-/

namespace SourceScan.Yaml.Pen

variable {wide split first : Bool} {s t w e run : Text} {column : Nat} {p : Pen} {ch : Char}

def inDouble (wide : Bool) (ch : Char) : Text := (escape? wide (.char ch)).getD [ch]

def escaped (wide : Bool) (t : Text) : Text := t.flatMap (inDouble wide)

structure WritesUnits (wide split : Bool) (column : Nat) (t w : Text) : Prop where
  quoted : Quoted true column t w
  not_break : ∀ ch, w.head? = some ch → isBreak ch = false
  light : t.head? ≠ some ' ' → Light w
  clean : ∀ ch ∈ w, IsClean wide ch
  same : split = false → w = escaped wide t

namespace WritesUnits

theorem nil : WritesUnits wide split column [] [] :=
  ⟨.nil, by simp, fun _ => by simp [Light], by simp, fun _ => rfl⟩

theorem isSober_backslash : IsSober '\\' := ⟨by decide, by decide⟩

theorem head_of_isEscape (h : IsEscape ch e) : ∃ rest, e = '\\' :: rest := by
  rcases h with ⟨x, rfl, -⟩ | ⟨x, ds, rfl, -⟩ <;> exact ⟨_, rfl⟩

theorem escape (h : WritesUnits wide split column t w) (he : escape? wide (.char ch) = some e) :
    WritesUnits wide split column (ch :: t) (e ++ w) := by
  obtain ⟨hescape, hsober⟩ := isEscape_of_escape? he
  obtain ⟨rest, rfl⟩ := head_of_isEscape hescape
  refine ⟨.escape rfl hescape h.quoted, ?_, ?_, ?_, ?_⟩
  · rintro d ⟨⟩
    decide
  · rintro - d ⟨⟩
    decide
  · intro d hd
    rcases List.mem_append.mp hd with hd | hd
    · exact isClean_of_isSober (hsober d hd)
    · exact h.clean d hd
  · intro hsplit
    rw [h.same hsplit, escaped, escaped, List.flatMap_cons, inDouble, he]
    rfl

theorem char (h : WritesUnits wide split column t w) (hstays : staysInDouble wide ch = true) :
    WritesUnits wide split column (ch :: t) (ch :: w) := by
  obtain ⟨hflat, hblank⟩ := isFlat_of_staysInDouble hstays
  obtain ⟨hmarks, -⟩ := stays_in_double hstays
  simp only [List.mem_cons, List.not_mem_nil, not_or] at hmarks
  refine ⟨?_, ?_, ?_, ?_, ?_⟩
  · by_cases hspace : ch = ' '
    · subst hspace
      exact .space h.not_break h.quoted
    · exact .char (hblank hspace) hmarks.1 (fun _ => hmarks.2.1) h.quoted
  · rintro d ⟨⟩
    exact hflat.1
  · rintro hhead d ⟨⟩
    exact hblank fun hspace => hhead (congrArg some hspace)
  · intro d hd
    rcases List.mem_cons.mp hd with rfl | hd
    · exact isClean_of_staysInDouble hstays
    · exact h.clean d hd
  · intro hsplit
    have hnone : escape? wide (.char ch) = none := by simp [escape?, hstays]
    rw [h.same hsplit, escaped, escaped, List.flatMap_cons, inDouble, hnone]
    rfl

theorem join (h : WritesUnits wide true column t w) (hlight : Light w) :
    WritesUnits wide true column t ('\\' :: lineStart column ++ w) := by
  refine ⟨.join rfl hlight h.quoted, ?_, ?_, ?_, by simp⟩
  · rintro d ⟨⟩
    decide
  · rintro - d ⟨⟩
    decide
  · intro d hd
    rcases List.mem_append.mp hd with hd | hd
    · rcases List.mem_cons.mp hd with rfl | hd
      · exact isClean_of_isSober isSober_backslash
      · exact isClean_lineStart d hd
    · exact h.clean d hd

theorem space (h : WritesUnits wide true column t w) :
    WritesUnits wide true column (' ' :: t) ('\\' :: lineStart column ++ '\\' :: ' ' :: w) := by
  have hescape : WritesUnits wide true column (' ' :: t) ('\\' :: ' ' :: w) := by
    refine ⟨.escape (e := ['\\', ' ']) rfl (.inl ⟨' ', rfl, rfl⟩) h.quoted, ?_, ?_, ?_, by simp⟩
    · rintro d ⟨⟩
      decide
    · rintro - d ⟨⟩
      decide
    · intro d hd
      simp only [List.mem_cons] at hd
      rcases hd with rfl | rfl | hd
      · exact isClean_of_isSober isSober_backslash
      · exact isClean_space
      · exact h.clean d hd
  refine hescape.join ?_
  rintro d ⟨⟩
  decide

end WritesUnits

theorem continueDouble_eq (hp : p.fresh = false) (next : Option TextUnit) :
    p.continueDouble column next =
      ⟨('\\' :: lineStart column ++
          if next = some (.char ' ') then ['\\'] else []).reverse ++ p.out,
        column + (if next = some (.char ' ') then 1 else 0), false, false⟩ := by
  rw [continueDouble, toColumn_line (p := p.put ['\\']) (.inl hp)]
  by_cases hnext : next = some (.char ' ') <;> simp [hnext, put]

theorem doubleUnits_escape (h : escape? wide (.char ch) = some e) :
    doubleUnits wide column split first run (.char ch :: RawText.ofText t) p =
      doubleUnits wide column split false [] (RawText.ofText t)
        (if !first && !(RawText.ofText t).isEmpty &&
            width + 1 < ((p.put run.reverse).put e).column && split then
          ((p.put run.reverse).put e).continueDouble column (RawText.ofText t).head?
        else (p.put run.reverse).put e) := by
  rw [doubleUnits.eq_def]
  simp only [h]

theorem doubleUnits_char (h : escape? wide (.char ch) = none) :
    doubleUnits wide column split first run (.char ch :: RawText.ofText t) p =
      if !first && !(RawText.ofText t).isEmpty && (ch = ' ' || run.isEmpty) &&
          width < p.column + run.length && split then
        doubleUnits wide column split false [ch] (RawText.ofText t)
          ((p.put run.reverse).continueDouble column (some (.char ch)))
      else doubleUnits wide column split false (ch :: run) (RawText.ofText t) p := by
  rw [doubleUnits.eq_def]
  simp only [h]

theorem wrote_continueDouble (column : Nat) (hp : p.fresh = false) (next : Option TextUnit) :
    Wrote p ('\\' :: lineStart column ++ if next = some (.char ' ') then ['\\'] else [])
      (p.continueDouble column next) := by
  rw [Wrote, continueDouble_eq hp]

theorem escape?_space : escape? wide (.char ' ') = none := by
  cases wide <;> decide

theorem doubleUnits_space (wide : Bool) (column : Nat) (split : Bool) (t : Text)
    (h : p.column ≤ width) :
    doubleUnits wide column split false [] (.char ' ' :: RawText.ofText t) p =
      doubleUnits wide column split false [' '] (RawText.ofText t) p := by
  have hnarrow : ¬width < p.column := Nat.not_lt.mpr h
  rw [doubleUnits_char escape?_space]
  simp [hnarrow]

/-- What the pen writes for the characters of a text between double quotes, behind a run that it
holds back. -/
def WritesDouble (wide split : Bool) (column : Nat) (t : Text) : Prop :=
  ∀ (run : Text) (first : Bool) (p : Pen), p.fresh = false →
    ∃ w, Wrote p (run.reverse ++ w)
        (doubleUnits wide column split first run (RawText.ofText t) p) ∧
      WritesUnits wide split column t w

namespace WritesDouble

theorem nil : WritesDouble wide split column [] := fun run _ p _ =>
  ⟨[], by simpa [doubleUnits, RawText.ofText] using wrote_put run.reverse p, .nil⟩

theorem break_behind (hcolumn : column < width) (hp : p.fresh = false) (hne : t ≠ [])
    (h : WritesDouble wide true column t) (h' : WritesDouble wide true column t.tail) :
    ∃ w, Wrote p w (doubleUnits wide column true false [] (RawText.ofText t)
        (p.continueDouble column (RawText.ofText t).head?)) ∧
      WritesUnits wide true column t w := by
  obtain ⟨d, t, rfl⟩ := List.exists_cons_of_ne_nil hne
  have hhead : (RawText.ofText (d :: t)).head? = some (.char d) := rfl
  rw [hhead]
  have hline := wrote_continueDouble column hp (some (.char d))
  have hfresh : (p.continueDouble column (some (.char d))).fresh = false := by
    rw [continueDouble_eq hp]
  by_cases hspace : d = ' '
  · subst hspace
    obtain ⟨w, hw, hunits⟩ := h' [' '] false _ hfresh
    have hnarrow : (p.continueDouble column (some (.char ' '))).column ≤ width := by
      rw [continueDouble_eq hp]
      exact hcolumn
    have hsame := doubleUnits_space wide column true t hnarrow
    refine ⟨_, ?_, hunits.space⟩
    have hcons : RawText.ofText (' ' :: t) = .char ' ' :: RawText.ofText t := rfl
    rw [hcons, hsame]
    simpa using hline.trans hw
  · obtain ⟨w, hw, hunits⟩ := h [] false _ hfresh
    refine ⟨_, ?_, hunits.join (hunits.light (by simpa using hspace))⟩
    simpa [hspace] using hline.trans hw

theorem break_before (hp : p.fresh = false) (hstays : staysInDouble wide ch = true)
    (h : WritesDouble wide true column t) :
    ∃ w, Wrote p w (doubleUnits wide column true false [ch] (RawText.ofText t)
        (p.continueDouble column (some (.char ch)))) ∧
      WritesUnits wide true column (ch :: t) w := by
  have hline := wrote_continueDouble column hp (some (.char ch))
  obtain ⟨w, hw, hunits⟩ := h [ch] false (p.continueDouble column (some (.char ch)))
    (by rw [continueDouble_eq hp])
  by_cases hspace : ch = ' '
  · subst hspace
    exact ⟨_, by simpa using hline.trans hw, hunits.space⟩
  · have hchar := hunits.char hstays
    refine ⟨_, ?_, hchar.join (hchar.light (by simpa using hspace))⟩
    simpa [hspace] using hline.trans hw

theorem cons (hcolumn : column < width) (h : WritesDouble wide split column t)
    (h' : WritesDouble wide split column t.tail) : WritesDouble wide split column (ch :: t) := by
  intro run first p hp
  have hcons : RawText.ofText (ch :: t) = .char ch :: RawText.ofText t := rfl
  rw [hcons]
  cases he : escape? wide (.char ch) with
  | some e =>
      have hput := (wrote_put run.reverse p).trans (wrote_put e _)
      rw [doubleUnits_escape he]
      split
      · next hfold =>
          simp only [Bool.and_eq_true, Bool.not_eq_true'] at hfold
          obtain ⟨⟨⟨-, hne⟩, -⟩, rfl⟩ := hfold
          obtain ⟨w, hw, hunits⟩ := break_behind (p := (p.put run.reverse).put e) hcolumn hp
            (by rintro rfl; cases hne) h h'
          exact ⟨e ++ w, by simpa using hput.trans hw, hunits.escape he⟩
      · obtain ⟨w, hw, hunits⟩ := h [] false ((p.put run.reverse).put e) hp
        exact ⟨e ++ w, by simpa using hput.trans hw, hunits.escape he⟩
  | none =>
      have hstays := escape?_eq_none he
      rw [doubleUnits_char he]
      split
      · next hfold =>
          simp only [Bool.and_eq_true] at hfold
          obtain ⟨-, rfl⟩ := hfold
          obtain ⟨w, hw, hunits⟩ := break_before (p := p.put run.reverse) hp hstays h
          exact ⟨w, (wrote_put run.reverse p).trans hw, hunits⟩
      · obtain ⟨w, hw, hunits⟩ := h (ch :: run) false p hp
        exact ⟨ch :: w, by simpa using hw, hunits.char hstays⟩

theorem of_text (wide split : Bool) (hcolumn : column < width) (t : Text) :
    WritesDouble wide split column t ∧ WritesDouble wide split column t.tail := by
  induction t with
  | nil => exact ⟨nil, nil⟩
  | cons ch t ih => exact ⟨cons hcolumn ih.1 ih.2, ih.1⟩

end WritesDouble

theorem double_wrote (wide split : Bool) (p : Pen) (hcolumn : column < width) (t : Text) :
    ∃ w, Wrote p ((if p.spaced then [] else [' ']) ++ ('"' :: w ++ ['"']))
        (double wide column split (RawText.ofText t) p) ∧
      Settled (double wide column split (RawText.ofText t) p) ∧ Quoted true column t w ∧
      (∀ ch ∈ w, IsClean wide ch) ∧ (split = false → w = escaped wide t) := by
  obtain ⟨w, hw, hunits⟩ := (WritesDouble.of_text wide split hcolumn t).1 [] true (p.mark ['"']) rfl
  refine ⟨w, ?_, ⟨rfl, rfl⟩, hunits.quoted, hunits.clean, hunits.same⟩
  have hclose := ((wrote_mark ['"'] p).trans hw).trans (wrote_put ['"'] _)
  simp only [List.append_assoc, List.reverse_nil, List.nil_append] at hclose ⊢
  exact hclose

end SourceScan.Yaml.Pen
