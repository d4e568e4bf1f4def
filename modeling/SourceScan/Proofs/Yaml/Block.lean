import SourceScan.Proofs.Yaml.Tokens

/-!
# Block collections cut into tokens

The grammar of block collections as they are written: the text next to its tokens and to the
node that it stands for.  A text of the grammar falls into those tokens, unless a key on the line
of its value is too long.
-/

namespace SourceScan.Yaml

/-- A scalar as it is written, `s`, and what it reads as, `t`.  The flag tells whether it stands
without quotes; lines are continued at the column `n`. -/
inductive Written (n : Nat) : Bool → Text → Text → Prop
  | plain {t s : Text} (h : Plain n t s) (hmark : hasMark t = false) : Written n true t s
  | quoted {t w : Text} (double : Bool) (h : Quoted double n t w) :
      Written n false t (quoteOf double :: w ++ [quoteOf double])

def scalarNode (plain : Bool) (t : Text) : Node :=
  .scalar (if plain then .ofPlain t else .str) t

/-- The parts of a block: a node behind the mark of a collection, where the line may be `fresh` so
that a collection can begin on it, and the rest of a collection from one of its places on. -/
inductive Part where
  | node (fresh : Bool) (n : Node)
  | items (ns : List Node)
  | entry (e : Node × Node)
  | entries (es : List (Node × Node))

/-- A part at a column: whether all keys on the lines of their values are short, its tokens, and
its text. -/
inductive Block : Part → Nat → Bool → List Token → Text → Prop
  | scalar {m : Nat} {plain : Bool} {t s : Text} (fresh : Bool) (hs : Written (m + 2) plain t s) :
      Block (.node fresh (scalarNode plain t)) m true [.scalar plain t] (' ' :: s)
  | emptySeq (m : Nat) (fresh : Bool) :
      Block (.node fresh (.seq .seq [])) m true [.flowSequenceStart, .flowSequenceEnd]
        [' ', '[', ']']
  | emptyMap (m : Nat) (fresh : Bool) :
      Block (.node fresh (.map .map [])) m true [.flowMappingStart, .flowMappingEnd]
        [' ', '\x7b', '\x7d']
  | seqBelow {m : Nat} {short : Bool} {ns : List Node} {toks : List Token} {w : Text}
      (h : Block (.items ns) m short toks w) :
      Block (.node false (.seq .seq ns)) m short toks (lineStart m ++ w)
  | seqBeside {m : Nat} {short : Bool} {ns : List Node} {toks : List Token} {w : Text}
      (h : Block (.items ns) (m + 2) short toks w) :
      Block (.node true (.seq .seq ns)) m short (.blockSequenceStart :: toks ++ [.blockEnd])
        (' ' :: w)
  | mapBelow {m : Nat} {short : Bool} {es : List (Node × Node)} {toks : List Token} {w : Text}
      (h : Block (.entries es) (m + 2) short toks w) :
      Block (.node false (.map .map es)) m short (.blockMappingStart :: toks ++ [.blockEnd])
        (lineStart (m + 2) ++ w)
  | mapBeside {m : Nat} {short : Bool} {es : List (Node × Node)} {toks : List Token} {w : Text}
      (h : Block (.entries es) (m + 2) short toks w) :
      Block (.node true (.map .map es)) m short (.blockMappingStart :: toks ++ [.blockEnd])
        (' ' :: w)
  | lastItem {m : Nat} {short : Bool} {n : Node} {toks : List Token} {w : Text}
      (h : Block (.node true n) m short toks w) :
      Block (.items [n]) m short (.blockEntry :: toks) ('-' :: w)
  | moreItems {m : Nat} {a b : Bool} {n : Node} {ns : List Node} {toks toks' : List Token}
      {w w' : Text} (h : Block (.node true n) m a toks w) (h' : Block (.items ns) m b toks' w') :
      Block (.items (n :: ns)) m (a && b) (.blockEntry :: toks ++ toks')
        ('-' :: w ++ lineStart m ++ w')
  | simpleKey {m : Nat} {plain short : Bool} {t s : Text} {n : Node} {toks : List Token} {w : Text}
      (hs : Written (m + 2) plain t s) (hline : ∀ ch ∈ s, IsFlat ch)
      (h : Block (.node false n) m short toks w) :
      Block (.entry (scalarNode plain t, n)) m (s.length ≤ Lexer.keyLimit && short)
        (.key :: .scalar plain t :: .value :: toks) (s ++ ':' :: w)
  | explicitKey {m : Nat} {a b : Bool} {k n : Node} {toks toks' : List Token} {w w' : Text}
      (h : Block (.node true k) m a toks w) (h' : Block (.node true n) m b toks' w') :
      Block (.entry (k, n)) m (a && b) (.key :: toks ++ .value :: toks')
        ('?' :: w ++ lineStart m ++ ':' :: w')
  | lastEntry {m : Nat} {short : Bool} {e : Node × Node} {toks : List Token} {w : Text}
      (h : Block (.entry e) m short toks w) : Block (.entries [e]) m short toks w
  | moreEntries {m : Nat} {a b : Bool} {e : Node × Node} {es : List (Node × Node)}
      {toks toks' : List Token} {w w' : Text} (h : Block (.entry e) m a toks w)
      (h' : Block (.entries es) m b toks' w') :
      Block (.entries (e :: es)) m (a && b) (toks ++ toks') (w ++ lineStart m ++ w')

namespace Written

open Cursor Lexer

variable {n : Nat} {plain : Bool} {c : Cursor} {s t tail : Text}

theorem exists_front (hs : Written n plain t s) (tail : Text) :
    ∃ ch r, s ++ tail = ch :: r ∧ isBlankOrEnd ch = false ∧ ch ≠ '#' := by
  cases hs with
  | plain h hmark =>
      obtain ⟨ch, r, hcons, hblank, hlead, -⟩ := h.exists_front hmark tail
      refine ⟨ch, r, hcons, hblank, ?_⟩
      rintro rfl
      cases hlead
  | quoted double h => cases double <;> exact ⟨_, _, rfl, by decide, by decide⟩

theorem begins (hs : Written n plain t s) (tail : Text) : Begins (s ++ tail) := by
  obtain ⟨ch, r, hcons, hblank, hcomment⟩ := hs.exists_front tail
  rw [hcons]
  rintro d ⟨⟩
  refine ⟨?_, hcomment, (not_blank_of_isBlankOrEnd hblank).2.1⟩
  rintro rfl
  cases hblank

theorem not_end (hs : Written n plain t s) (h : c.rest = s ++ tail) : isEnd c.here = false := by
  obtain ⟨ch, r, hcons, hblank, -⟩ := hs.exists_front tail
  rw [here_cons (h.trans hcons)]
  exact (not_blank_of_isBlankOrEnd hblank).2.2

theorem length_pos (hs : Written n plain t s) : 0 < s.length := by
  cases hs with
  | plain h hmark =>
      obtain ⟨s, r, rfl, hs⟩ := h.exists_word
      have := List.length_pos_iff.2 hs.ne_nil
      rw [List.length_append]
      omega
  | quoted double h => simp

end Written

theorem Block.gap {fresh : Bool} {n : Node} {m : Nat} {short : Bool} {toks : List Token} {w : Text}
    (h : Block (.node fresh n) m short toks w) (r : Text) :
    ∃ ch rest, w ++ r = ch :: rest ∧ (ch = ' ' ∨ ch = '\n') := by
  cases h <;> exact ⟨_, _, rfl, by simp⟩

open Lexer in
theorem Block.begins {p : Part} {m : Nat} {short : Bool} {toks : List Token} {w : Text}
    (h : Block p m short toks w) (hp : ∀ fresh n, p ≠ .node fresh n) (r : Text) :
    Begins (w ++ r) := by
  induction h generalizing r with
  | scalar | emptySeq | emptyMap | seqBelow | seqBeside | mapBelow | mapBeside =>
      exact absurd rfl (hp _ _)
  | lastItem | moreItems | explicitKey =>
      rintro ch ⟨⟩
      decide
  | simpleKey hs =>
      rw [List.append_assoc]
      exact hs.begins _
  | lastEntry h ih => exact ih (by simp) r
  | moreEntries h h' ih ih' =>
      rw [List.append_assoc, List.append_assoc]
      exact ih (by simp) _

theorem Block.head_ne_mark {p : Part} {m : Nat} {short : Bool} {toks : List Token} {w : Text}
    (h : Block p m short toks w) (r : Text) : (w ++ r).head? ≠ some '\uFEFF' := by
  induction h generalizing r with
  | simpleKey hs hline =>
      obtain ⟨ch, rest, rfl⟩ := List.exists_cons_of_length_pos hs.length_pos
      rintro ⟨⟩
      exact (hline _ (by simp)).2 rfl
  | lastEntry h ih => exact ih r
  | moreEntries h h' ih ih' =>
      rw [List.append_assoc, List.append_assoc]
      exact ih _
  | _ => rintro ⟨⟩

namespace Lexer

open Cursor

variable {c : Cursor} {r : Text} {x y z : Lexer} {k m n : Nat} {i : Int} {is : List Int}
  {toks : List Token} {allowed plain a b : Bool} {keys : List (Nat × SimpleKey)} {s t : Text}

/-! ## Results -/

def Yields (short : Bool) (x y : Lexer) : Prop := if short then Leads x y else Fails x

def YieldsBehind (short : Bool) (x y : Lexer) : Prop := if short then Comes x y else FailsBehind x

theorem Yields.of_leads (h : Leads x y) (h' : Yields a y z) : Yields a x z := by
  cases a with
  | true => exact h.trans h'
  | false => exact Fails.of_leads h h'

theorem Yields.of_comes (h : Comes x y) (h' : Yields a y z) : YieldsBehind a x z := by
  cases a with
  | true => exact h.trans h'
  | false => exact FailsBehind.of_comes h h'

theorem Yields.of_settle (h : x.settle = .ok y)
    (hle : y.cursor.rest.length ≤ x.cursor.rest.length) (h' : Yields a y z) :
    YieldsBehind a x z :=
  of_comes (comes_of_settle h hle) h'

theorem YieldsBehind.of_token (hend : isEnd x.cursor.here = false) (h : x.token = .ok y)
    (hlt : y.cursor.rest.length < x.cursor.rest.length) (h' : YieldsBehind a y z) :
    Yields a x z := by
  cases a with
  | true => exact leads_of_token hend h hlt h'
  | false => exact Fails.of_token hend h hlt h'

theorem Yields.and (h : Yields a x y) (h' : Yields b y z) : Yields (a && b) x z := by
  cases a with
  | true => exact h'.of_leads h
  | false => exact h

theorem YieldsBehind.and (h : YieldsBehind a x y) (h' : Yields b y z) :
    YieldsBehind (a && b) x z := by
  cases a with
  | true => exact h'.of_comes h
  | false => exact h

theorem length_rest_forward (hn : n ≤ c.rest.length) :
    (c.forward n).rest.length + n = c.rest.length := by
  rw [rest_forward, List.length_drop]
  omega

theorem cursor_unwindTo (x : Lexer) (column : Int) :
    (x.unwindTo column).cursor = x.cursor := by
  have hunwind : ∀ is x, (unwind column is x).cursor = x.cursor := by
    intro is
    induction is with
    | nil => exact fun x => rfl
    | cons outer is ih =>
        intro x
        rw [unwind]
        split
        · exact ih _
        · rfl
  exact hunwind _ x

/-! ## Scalars in their places -/

theorem token_written_plain {e : Nat} {fresh : Bool} {tail : Text} (hs : Plain n t s)
    (hmark : hasMark t = false) (hend : EndsPlain (i + 1) tail fresh e) (hn : i + 1 ≤ n)
    (hpos : 0 < n) (htail : tail.head? ≠ some '-' ∧ tail.head? ≠ some '.')
    (h : c.rest = s ++ tail) (hcolumn : i ≤ c.column) :
    token ⟨c, 0, i, is, allowed, [], toks⟩ =
      .ok ⟨c.forward (s.length + e), 0, i, is, fresh, noted allowed i c toks.length,
        .scalar true t :: toks⟩ := by
  obtain ⟨ch, rest, hcons, hblank, hlead, hsign⟩ := hs.exists_front hmark tail
  rw [token_plain rfl (h.trans hcons) hlead hblank hsign (hs.not_separator hmark htail h),
    plain_eq hs hend hn hpos h hcolumn]

theorem of_mem_noted {number : Nat} {key : Nat × SimpleKey} (hi : i < c.column)
    (hkey : key ∈ noted allowed i c number) : key.2.required = false ∧ key.2.line = c.line := by
  have hne : i ≠ c.column := Int.ne_of_lt hi
  cases allowed with
  | true =>
      rw [noted, if_pos rfl, List.mem_singleton] at hkey
      subst hkey
      simpa using hne
  | false => cases hkey

theorem comes_unwound {column : Int} (h : x.settle = .ok (y.unwindTo column))
    (hle : y.cursor.rest.length ≤ x.cursor.rest.length) : Comes x (y.unwindTo column) :=
  comes_of_settle h (by rwa [cursor_unwindTo])

theorem scalar_leads (hs : Written (m + 2) plain t s) (h : c.rest = s ++ (lineStart k ++ r))
    (hr : Begins r) (hk : k ≤ m) (hcolumn : m + 2 ≤ c.column) :
    Leads ⟨c, 0, m, is, allowed, [], toks⟩
      ((ready (c.forward (s.length + (k + 1))) m is (.scalar plain t :: toks)).unwindTo k) := by
  have hrest : (c.forward s.length).rest = lineStart k ++ r := rest_forward_append h
  have hright : (m : Int) < c.column := by omega
  have hpos := hs.length_pos
  have hend := hs.not_end h
  have hlength : c.rest.length = s.length + (k + 1 + r.length) := by
    rw [h, List.length_append, List.length_append, length_lineStart]
  have hmiddle := length_rest_forward (c := c) (n := s.length) (by omega)
  have hafter := length_rest_forward (c := c) (n := s.length + (k + 1)) (by omega)
  have hkeys : ∀ key ∈ noted allowed m c toks.length,
      key.2.required = false ∧ key.2.line = c.line := fun key hkey => of_mem_noted hright hkey
  cases hs with
  | @plain t s hplain hmark =>
      -- The scalar has read on to the next line, and what was noted as a key is over.
      have hlines : ∀ ch, r.head? = some ch → ch ≠ ' ' ∧ isBreak ch = false := fun ch hch =>
        ⟨(hr ch hch).1, (hr ch hch).2.2⟩
      have htoken : token ⟨c, 0, m, is, allowed, [], toks⟩ = _ := token_written_plain
        hplain hmark (Plain.endsPlain_line (by omega) hlines) (by omega) (by omega)
        (by constructor <;> simp [lineStart]) h (by omega)
      have hrest' : (c.forward (s.length + (k + 1))).rest = r := by
        rw [forward_add]
        simpa using rest_forward_append hrest
      have hstale : Stale (c.forward (s.length + (k + 1))) (noted allowed m c toks.length) := by
        intro key hkey
        refine ⟨(hkeys key hkey).1, ?_⟩
        rw [(hkeys key hkey).2, forward_add, line_lineStart hrest]
        exact Nat.lt_succ_of_le (line_le_forward _ _)
      have hsettle : settle ⟨c.forward (s.length + (k + 1)), 0, m, is, true,
          noted allowed m c toks.length, .scalar true t :: toks⟩ = _ :=
        settle_stale (by rwa [hrest']) hstale
      rw [forward_add, column_lineStart hrest, ← forward_add] at hsettle
      exact leads_of_token hend htoken (by simp only; omega)
        (comes_unwound hsettle (Nat.le_refl _))
  | @quoted t w double hquoted =>
      -- The scalar ends at its quote, so the line break comes afterwards.
      have htwo : (quoteOf double :: w ++ [quoteOf double]).length = w.length + 2 := by simp
      have hc : c.rest = quoteOf double :: w ++ quoteOf double :: (lineStart k ++ r) := by
        simpa using h
      have htoken : token ⟨c, 0, m, is, allowed, [], toks⟩ = _ :=
        token_quoted (by omega) (by simp [lineStart]) hquoted hc
      rw [← htwo] at htoken
      have hsettle : settle ⟨_, 0, m, is, false, noted allowed m c toks.length,
          .scalar false t :: toks⟩ = _ := settle_lineStart hrest hr
        fun key hkey => ⟨(hkeys key hkey).1, by
          rw [(hkeys key hkey).2]
          exact line_le_forward _ _⟩
      rw [← forward_add] at hsettle
      exact leads_of_token hend htoken (by simp only; omega)
        (comes_unwound hsettle (by simp only [ready]; omega))

/-! ## Keys -/

inductive Opens (start : Token) (m : Nat) : Int → List Int → List Token → List Int →
    List Token → Prop
  | already (is : List Int) (pre : List Token) : Opens start m m is pre is pre
  | now {i : Int} (is : List Int) (pre : List Token) (h : i < m) :
      Opens start m i is pre (i :: is) (start :: pre)

variable {is' : List Int} {pre pre' : List Token} {start : Token}

theorem Opens.le (h : Opens start m i is pre is' pre') : i ≤ m := by
  cases h with
  | already => exact Int.le_refl _
  | now _ _ h => exact Int.le_of_lt h

theorem opened_eq (hcolumn : c.column = m) (h : Opens start m i is pre is' pre') :
    opened (ready c i is pre) start = ready c m is' pre' := by
  subst hcolumn
  cases h with
  | already => exact opened_of_le (Int.le_refl _)
  | now _ _ h => exact opened_of_lt h

theorem valueMark_noted (c : Cursor) (t : Token) (required : Bool) (index line : Nat)
    (h : Opens .blockMappingStart m i is pre is' pre') :
    valueMark ⟨c, 0, i, is, false, [(0, ⟨pre.length, required, index, line, m⟩)], t :: pre⟩ =
      .ok ⟨c.next, 0, m, is', false, [], .value :: t :: .key :: pre'⟩ := by
  have hone : pre.length + 1 - pre.length = 1 := by omega
  have htwo : pre.length + 1 + 1 - pre.length = 2 := by omega
  cases h with
  | already =>
      simp [valueMark, insertAt, addIndent, mark, emit, hone, pure, Except.pure, forward_one]
  | now _ _ h =>
      simp [valueMark, insertAt, addIndent, mark, emit, hone, htwo, h, pure, Except.pure,
        forward_one]

theorem valueMark_none : valueMark ⟨c, 0, i, is, false, [], pre⟩ = .error .malformed := rfl

theorem token_key (hs : Written (m + 2) plain t s) (h : c.rest = s ++ ':' :: r)
    (hr : isBlankOrEnd (r.headD '\x00') = true) (hi : i ≤ m) (hcolumn : c.column = m) :
    (ready c i is pre).token =
      .ok ⟨c.forward s.length, 0, i, is, false, noted true i c pre.length,
        .scalar plain t :: pre⟩ := by
  cases hs with
  | @plain t s hplain hmark =>
      exact token_written_plain hplain hmark (Plain.endsPlain_colon hr) (by omega) (by omega)
        (by constructor <;> simp) h (by omega)
  | @quoted t w double hquoted =>
      have htwo : (quoteOf double :: w ++ [quoteOf double]).length = w.length + 2 := by simp
      rw [htwo]
      have hc : c.rest = quoteOf double :: w ++ quoteOf double :: ':' :: r := by simpa using h
      exact token_quoted (by omega) (by simp) hquoted hc

theorem begins_colon : Begins (':' :: r) := by
  rintro ch ⟨⟩
  decide

theorem key_leads (hs : Written (m + 2) plain t s) (hline : ∀ ch ∈ s, IsFlat ch)
    (h : c.rest = s ++ ':' :: r) (hr : isBlankOrEnd (r.headD '\x00') = true)
    (hcolumn : c.column = m) (hi : i ≤ m) (hshort : s.length ≤ keyLimit) :
    Leads (ready c i is pre)
      ⟨c.forward s.length, 0, i, is, false, noted true i c pre.length, .scalar plain t :: pre⟩ := by
  have hrest : (c.forward s.length).rest = ':' :: r := rest_forward_append h
  have hflat := forward_flat h hline
  have hpos := hs.length_pos
  have hmiddle := length_rest_forward (c := c) (n := s.length) (by
    rw [h, List.length_append]
    omega)
  have hlive : Live (c.forward s.length) (noted true i c pre.length) := by
    intro key hkey
    rw [noted, if_pos rfl, List.mem_singleton] at hkey
    subst hkey
    refine ⟨hflat.1.symm, ?_⟩
    rw [index_forward_append h]
    exact Nat.add_le_add_left hshort _
  refine leads_of_token (hs.not_end h) (token_key hs h hr hi hcolumn) (by simp only [ready]; omega)
    (comes_of_settle (settle_here ?_ hlive (.inr ?_)) (Nat.le_refl _))
  · rw [hrest]
    exact begins_colon
  · simp only [column, hflat.2]
    omega

theorem settle_long {d : Cursor} {key : SimpleKey} {level : Nat}
    (hr : Begins d.rest) (hlong : key.index + keyLimit < d.index) (hi : i ≤ d.column) :
    settle ⟨d, 0, i, is, false, [(level, key)], pre⟩ =
      if key.required then .error .malformed else .ok ⟨d, 0, i, is, false, [], pre⟩ := by
  have hfar : keyLimit < d.index - key.index := by omega
  have hstale : isStale d key = true := by simp [isStale, hfar]
  rw [settle, skipToToken_spaces (k := 0) rfl hr]
  simp only [forward_zero]
  rw [dropStaleKeys_eq]
  cases hrequired : key.required with
  | true => simp [hstale, hrequired, bind, Except.bind]
  | false =>
      simp only [List.any_cons, List.any_nil, hstale, hrequired, List.filter_cons, List.filter_nil]
      exact congrArg Except.ok (unwindTo_of_le hi)

theorem key_fails (hs : Written (m + 2) plain t s) (hline : ∀ ch ∈ s, IsFlat ch)
    (h : c.rest = s ++ ':' :: r) (hr : isBlankOrEnd (r.headD '\x00') = true)
    (hcolumn : c.column = m) (hi : i ≤ m) (hlong : keyLimit < s.length) :
    Fails (ready c i is pre) := by
  have hrest : (c.forward s.length).rest = ':' :: r := rest_forward_append h
  have hflat := forward_flat h hline
  have hmiddle := length_rest_forward (c := c) (n := s.length) (by
    rw [h, List.length_append]
    omega)
  have hindex := index_forward_append h
  refine Fails.of_token (hs.not_end h) (token_key hs h hr hi hcolumn)
    (by simp only [ready]; omega) ?_
  have hsettle : settle ⟨c.forward s.length, 0, i, is, false,
      [(0, ⟨pre.length, i = c.column, c.index, c.line, c.column⟩)], .scalar plain t :: pre⟩ = _ :=
    settle_long (hrest ▸ begins_colon)
    (by rw [hindex]; exact Nat.add_lt_add_left hlong _) (by omega)
  rw [noted, if_pos rfl]
  by_cases hrequired : i = c.column
  · refine failsBehind_of_settle (hsettle.trans ?_)
    simp [hrequired]
  · rw [if_neg (by simpa using hrequired)] at hsettle
    refine FailsBehind.of_comes (comes_of_settle hsettle (Nat.le_refl _)) (fails_of_token ?_ ?_)
    · rw [here_cons hrest]
      decide
    · rw [token_colon rfl hrest hr, valueMark_none]

theorem key_yields {b : Bool} (hs : Written (m + 2) plain t s) (hline : ∀ ch ∈ s, IsFlat ch)
    (h : c.rest = s ++ ':' :: r) (hr : isBlankOrEnd (r.headD '\x00') = true)
    (hcolumn : c.column = m) (hopens : Opens .blockMappingStart m i is pre is' pre')
    (hy : YieldsBehind b ⟨c.forward (s.length + 1), 0, m, is', false, [],
      .value :: .scalar plain t :: .key :: pre'⟩ y) :
    Yields (s.length ≤ keyLimit && b) (ready c i is pre) y := by
  by_cases hshort : s.length ≤ keyLimit
  · have hrest : (c.forward s.length).rest = ':' :: r := rest_forward_append h
    have hvalue := valueMark_noted (c.forward s.length) (.scalar plain t) (decide (i = c.column))
      c.index c.line hopens
    rw [next_forward] at hvalue
    have hmark : Yields b ⟨c.forward s.length, 0, i, is, false, noted true i c pre.length,
        .scalar plain t :: pre⟩ y := by
      refine YieldsBehind.of_token ?_ ((token_colon rfl hrest hr).trans ?_) ?_ hy
      · rw [here_cons hrest]
        decide
      · rw [noted, if_pos rfl, hcolumn]
        rw [hcolumn] at hvalue
        exact hvalue
      · simp only [← next_forward, rest_next, hrest]
        simp
    simpa [hshort] using hmark.of_leads (key_leads hs hline h hr hcolumn hopens.le hshort)
  · have hfails : Fails (ready c i is pre) :=
      key_fails hs hline h hr hcolumn hopens.le (Nat.lt_of_not_le hshort)
    simpa [hshort, Yields] using hfails

/-! ## Empty collections -/

inductive Brackets : Char → Char → Token → Token → Prop
  | seq : Brackets '[' ']' .flowSequenceStart .flowSequenceEnd
  | map : Brackets '\x7b' '\x7d' .flowMappingStart .flowMappingEnd

variable {left right : Char} {first last : Token} {level : Nat}

theorem Brackets.flat (h : Brackets left right first last) : IsFlat left ∧ IsFlat right := by
  cases h <;> exact ⟨⟨by decide, by decide⟩, by decide, by decide⟩

theorem Brackets.begins (h : Brackets left right first last) :
    Begins (left :: s) ∧ Begins (right :: s) := by
  cases h <;> constructor <;> (rintro ch ⟨⟩; decide)

theorem Brackets.not_end (h : Brackets left right first last) :
    isEnd left = false ∧ isEnd right = false := by
  cases h <;> decide

theorem Brackets.token_left (h : Brackets left right first last) (hc : c.rest = left :: s) :
    token ⟨c, 0, i, is, allowed, [], toks⟩ =
      .ok ⟨c.next, 1, i, is, true, noted allowed i c toks.length, first :: toks⟩ := by
  rw [token, here_cons hc]
  cases h <;> cases allowed <;> rfl

theorem Brackets.token_right {number : Nat} {d : Cursor} (h : Brackets left right first last)
    (hc : c.rest = right :: s) :
    token ⟨c, 1, i, is, true, noted allowed i d number, toks⟩ =
      .ok ⟨c.next, 0, i, is, false, noted allowed i d number, last :: toks⟩ := by
  rw [token, here_cons hc]
  cases h <;> cases allowed <;> rfl

theorem brackets_leads (h : Brackets left right first last)
    (hc : c.rest = left :: right :: (lineStart k ++ r)) (hr : Begins r)
    (hcolumn : m + 2 ≤ c.column) :
    Leads ⟨c, 0, m, is, allowed, [], toks⟩
      ((ready (c.forward (k + 3)) m is (last :: first :: toks)).unwindTo k) := by
  have hright : (m : Int) < c.column := by omega
  have hrest : c.next.rest = right :: (lineStart k ++ r) := rest_next_cons hc
  have hrest' : c.next.next.rest = lineStart k ++ r := rest_next_cons hrest
  have hkeys : ∀ key ∈ noted allowed m c toks.length,
      key.2.required = false ∧ key.2.line = c.line := fun key hkey => of_mem_noted hright hkey
  have hlive : Live c.next (noted allowed m c toks.length) := by
    intro key hkey
    rw [noted] at hkey
    split at hkey
    · rw [List.mem_singleton] at hkey
      subst hkey
      refine ⟨(next_flat hc h.flat.1).1.symm, ?_⟩
      rw [index_next hc]
      exact Nat.add_le_add_left (by decide) _
    · cases hkey
  have hsettle : settle ⟨_, 0, m, is, false, noted allowed m c toks.length,
      last :: first :: toks⟩ = _ := settle_lineStart hrest' hr
    fun key hkey => ⟨(hkeys key hkey).1, by
      rw [(hkeys key hkey).2]
      exact Nat.le_trans (line_le_next c) (line_le_next c.next)⟩
  have hforward : c.next.next.forward (k + 1) = c.forward (k + 3) := rfl
  rw [hforward] at hsettle
  have hend : isEnd c.here = false := by
    rw [here_cons hc]
    exact h.not_end.1
  have hend' : isEnd c.next.here = false := by
    rw [here_cons hrest]
    exact h.not_end.2
  have hlength : (c.forward (k + 3)).rest.length ≤ c.next.next.rest.length := by
    rw [← hforward, rest_forward, List.length_drop]
    omega
  refine leads_of_token hend (h.token_left hc) (by simp [hc, hrest])
    (Comes.trans (comes_of_settle (settle_here ?_ hlive (.inl Nat.one_ne_zero)) (Nat.le_refl _)) ?_)
  · rw [hrest]
    exact h.begins.2
  · exact leads_of_token hend' (h.token_right hrest) (by simp [hrest, hrest'])
      (comes_unwound hsettle hlength)

end Lexer

end SourceScan.Yaml
