import SourceScan.Proofs.Yaml.Block

/-!
# Blocks fall into their tokens

One lemma for each way in which a block is built: the lexer, which has settled at a place or
stands behind a mark, goes on to the end of the part and closes what is open to the right of
the line that follows.
-/

namespace SourceScan.Yaml

namespace Lexer

open Cursor

variable {c : Cursor} {r s t w w' : Text} {x y : Lexer} {k m n : Nat} {i : Int}
  {is is' : List Int} {toks toks' pre pre' : List Token}
  {allowed plain fresh short a b : Bool} {left right : Char} {first last : Token}
  {nd key : Node} {ns : List Node} {e : Node × Node} {es : List (Node × Node)}

/-- What it means for a part to fall into its tokens.  The line that follows is moved in by `k`
columns at most, and everything open to the right of it is closed. -/
def Reads : Part → Nat → Bool → List Token → Text → Prop
  | .node fresh _, m, short, toks, w =>
      ∀ (c : Cursor) (is : List Int) (pre : List Token) (k : Nat) (r : Text),
        c.rest = w ++ (lineStart k ++ r) → Begins r → k ≤ m → m + 1 ≤ c.column →
          (fresh = true → c.column = m + 1) →
          YieldsBehind short ⟨c, 0, m, is, fresh, [], pre⟩
            ((ready (c.forward (w.length + (k + 1))) m is (toks.reverse ++ pre)).unwindTo k)
  | .items _, m, short, toks, w =>
      ∀ (c : Cursor) (i : Int) (is is' : List Int) (pre pre' : List Token) (k : Nat) (r : Text),
        Opens .blockSequenceStart m i is pre is' pre' →
          c.rest = w ++ (lineStart k ++ r) → Begins r → k ≤ m → c.column = m →
          Yields short (ready c i is pre)
            ((ready (c.forward (w.length + (k + 1))) m is' (toks.reverse ++ pre')).unwindTo k)
  | .entry _, m, short, toks, w | .entries _, m, short, toks, w =>
      ∀ (c : Cursor) (i : Int) (is is' : List Int) (pre pre' : List Token) (k : Nat) (r : Text),
        Opens .blockMappingStart m i is pre is' pre' →
          c.rest = w ++ (lineStart k ++ r) → Begins r → k ≤ m → c.column = m →
          Yields short (ready c i is pre)
            ((ready (c.forward (w.length + (k + 1))) m is' (toks.reverse ++ pre')).unwindTo k)

/-! ## Nodes -/

theorem leads_of_space (h : c.rest = ' ' :: r) (hr : Begins r) (hcolumn : m + 1 ≤ c.column)
    (hy : Yields b ⟨c.next, 0, m, is, allowed, [], pre⟩ y) :
    YieldsBehind b ⟨c, 0, m, is, allowed, [], pre⟩ y := by
  refine Yields.of_settle (settle_space h hr (by omega)) ?_ hy
  simp [rest_next_cons h, h]

theorem reads_scalar (hs : Written (m + 2) plain t s) :
    Reads (.node fresh (scalarNode plain t)) m true [.scalar plain t] (' ' :: s) := by
  intro c is pre k r h hr hk hcolumn _
  have hnext := (next_flat h isFlat_space).2
  refine leads_of_space h (hs.begins _) hcolumn ?_
  have hleads : Leads ⟨c.next, 0, m, is, fresh, [], pre⟩ _ :=
    scalar_leads hs (rest_next_cons h) hr hk (by omega)
  rwa [← forward_succ, Nat.add_right_comm] at hleads

theorem reads_brackets (hpair : Brackets left right first last) (nd : Node) :
    Reads (.node fresh nd) m true [first, last] [' ', left, right] := by
  intro c is pre k r h hr hk hcolumn _
  have hnext := (next_flat h isFlat_space).2
  refine leads_of_space h hpair.begins.1 hcolumn ?_
  have hleads : Leads ⟨c.next, 0, m, is, fresh, [], pre⟩ _ :=
    brackets_leads hpair (rest_next_cons h) hr (by omega)
  rwa [← forward_succ, show k + 3 + 1 = 3 + (k + 1) by omega] at hleads

theorem yields_below (h : c.rest = lineStart n ++ r) (hr : Begins r) (hmn : m ≤ n)
    (hy : Yields b (ready (c.forward (n + 1)) m is pre) y) :
    YieldsBehind b ⟨c, 0, m, is, allowed, [], pre⟩ y := by
  have hsettle : settle ⟨c, 0, m, is, allowed, [], pre⟩ = _ := settle_lineStart h hr (by simp)
  rw [unwindTo_of_le (by simp only [ready]; omega)] at hsettle
  refine Yields.of_settle hsettle ?_ hy
  simp [ready, rest_forward]

theorem unwindTo_inner (hk : k ≤ m) :
    (ready c (m + 2 : Nat) ((m : Int) :: is) toks).unwindTo k =
      (ready c m is (.blockEnd :: toks)).unwindTo k :=
  unwindTo_ready (by omega)

theorem reverse_enclosed (first last : Token) :
    (first :: toks ++ [last]).reverse ++ pre = last :: (toks.reverse ++ first :: pre) := by
  simp

theorem reads_seqBelow (hb : Block (.items ns) m short toks w)
    (h : Reads (.items ns) m short toks w) :
    Reads (.node false (.seq .seq ns)) m short toks (lineStart m ++ w) := by
  intro c is pre k r hc hr hk hcolumn _
  rw [List.append_assoc] at hc
  have hy := h _ m is is pre pre k r (.already is pre)
    (by simpa using rest_forward_append hc) hr hk (column_lineStart hc)
  rw [← forward_add] at hy
  refine yields_below hc (hb.begins (by simp) _) (Nat.le_refl m) ?_
  rwa [List.length_append, length_lineStart, Nat.add_assoc (m + 1)]

def Fills (start : Token) (m : Nat) (short : Bool) (toks : List Token) (w : Text) : Prop :=
  ∀ (c : Cursor) (i : Int) (is is' : List Int) (pre pre' : List Token) (k : Nat) (r : Text),
    Opens start m i is pre is' pre' →
      c.rest = w ++ (lineStart k ++ r) → Begins r → k ≤ m → c.column = m →
      Yields short (ready c i is pre)
        ((ready (c.forward (w.length + (k + 1))) m is' (toks.reverse ++ pre')).unwindTo k)

theorem reads_beside (hw : ∀ r, Begins (w ++ r)) (h : Fills first (m + 2) short toks w) :
    Reads (.node true nd) m short (first :: toks ++ [.blockEnd]) (' ' :: w) := by
  intro c is pre k r hc hr hk hcolumn hfresh
  have hnext := (next_flat hc isFlat_space).2
  have hcolumn' := hfresh rfl
  have hy := h c.next m is _ pre _ k r (.now is pre (by omega)) (rest_next_cons hc) hr (by omega)
    (by omega)
  rw [unwindTo_inner hk, ← forward_succ, Nat.add_right_comm] at hy
  refine leads_of_space hc (hw _) hcolumn ?_
  rwa [reverse_enclosed]

theorem reads_seqBeside (hb : Block (.items ns) (m + 2) short toks w)
    (h : Reads (.items ns) (m + 2) short toks w) :
    Reads (.node true (.seq .seq ns)) m short (.blockSequenceStart :: toks ++ [.blockEnd])
      (' ' :: w) :=
  reads_beside (hb.begins (by simp)) h

theorem reads_mapBelow (hb : Block (.entries es) (m + 2) short toks w)
    (h : Reads (.entries es) (m + 2) short toks w) :
    Reads (.node false (.map .map es)) m short (.blockMappingStart :: toks ++ [.blockEnd])
      (lineStart (m + 2) ++ w) := by
  intro c is pre k r hc hr hk hcolumn _
  rw [List.append_assoc] at hc
  have hy := h _ m is _ pre _ k r (.now is pre (by omega))
    (by simpa using rest_forward_append hc) hr (by omega) (column_lineStart hc)
  rw [unwindTo_inner hk, ← forward_add] at hy
  refine yields_below hc (hb.begins (by simp) _) (Nat.le_add_right m 2) ?_
  rwa [reverse_enclosed, List.length_append, length_lineStart, Nat.add_assoc (m + 2 + 1)]

theorem reads_mapBeside (hb : Block (.entries es) (m + 2) short toks w)
    (h : Reads (.entries es) (m + 2) short toks w) :
    Reads (.node true (.map .map es)) m short (.blockMappingStart :: toks ++ [.blockEnd])
      (' ' :: w) :=
  reads_beside (hb.begins (by simp)) h

/-! ### Items and entries -/

theorem yields_dash (hopens : Opens .blockSequenceStart m i is pre is' pre')
    (h : c.rest = '-' :: r) (hr : ∃ ch rest, r = ch :: rest ∧ (ch = ' ' ∨ ch = '\n'))
    (hcolumn : c.column = m)
    (hy : YieldsBehind b ⟨c.next, 0, m, is', true, [], .blockEntry :: pre'⟩ y) :
    Yields b (ready c i is pre) y := by
  obtain ⟨ch, rest, rfl, hch⟩ := hr
  have hblank : isBlankOrEnd ((ch :: rest).headD '\x00') = true := by
    rcases hch with rfl | rfl <;> rfl
  have hsep : c.atSeparator = false := by
    rcases hch with rfl | rfl <;> simp [atSeparator, h]
  refine YieldsBehind.of_token ?_
    ((token_dash h hblank hsep).trans (blockEntry_ready.trans ?_)) ?_ hy
  · simp only [ready]
    rw [here_cons h]
    decide
  · rw [opened_eq hcolumn hopens]
    rfl
  · simp [ready, rest_next_cons h, h]

theorem yields_question (hopens : Opens .blockMappingStart m i is pre is' pre')
    (h : c.rest = '?' :: r) (hr : ∃ ch rest, r = ch :: rest ∧ (ch = ' ' ∨ ch = '\n'))
    (hcolumn : c.column = m)
    (hy : YieldsBehind b ⟨c.next, 0, m, is', true, [], .key :: pre'⟩ y) :
    Yields b (ready c i is pre) y := by
  obtain ⟨ch, rest, rfl, hch⟩ := hr
  have hblank : isBlankOrEnd ((ch :: rest).headD '\x00') = true := by
    rcases hch with rfl | rfl <;> rfl
  refine YieldsBehind.of_token ?_ ((token_question h hblank).trans (explicitKey_ready.trans ?_)) ?_
    hy
  · simp only [ready]
    rw [here_cons h]
    decide
  · rw [opened_eq hcolumn hopens]
    rfl
  · simp [ready, rest_next_cons h, h]

theorem yields_colon (h : c.rest = ':' :: r)
    (hr : ∃ ch rest, r = ch :: rest ∧ (ch = ' ' ∨ ch = '\n')) (hcolumn : c.column = m)
    (hy : YieldsBehind b ⟨c.next, 0, m, is, true, [], .value :: pre⟩ y) :
    Yields b (ready c m is pre) y := by
  obtain ⟨ch, rest, rfl, hch⟩ := hr
  have hblank : isBlankOrEnd ((ch :: rest).headD '\x00') = true := by
    rcases hch with rfl | rfl <;> rfl
  refine YieldsBehind.of_token ?_
    ((token_colon rfl h hblank).trans (valueMark_ready (by omega))) ?_ hy
  · simp only [ready]
    rw [here_cons h]
    decide
  · simp [ready, marked, rest_next_cons h, h]

theorem reads_lastItem (hb : Block (.node true nd) m short toks w)
    (h : Reads (.node true nd) m short toks w) :
    Reads (.items [nd]) m short (.blockEntry :: toks) ('-' :: w) := by
  intro c i is is' pre pre' k r hopens hc hr hk hcolumn
  have hnext := (next_flat hc ⟨by decide, by decide⟩).2
  have hy := h c.next is' (.blockEntry :: pre') k r (rest_next_cons hc) hr hk (by omega)
    fun _ => by omega
  refine yields_dash hopens hc (hb.gap _) hcolumn ?_
  rwa [← forward_succ, Nat.add_right_comm, List.append_cons, ← List.reverse_cons] at hy

theorem unwindTo_self : (ready c i is toks).unwindTo i = ready c i is toks :=
  unwindTo_of_le (Int.le_refl _)

theorem forward_to_line (h : c.rest = w ++ (lineStart m ++ r)) :
    (c.forward (w.length + (m + 1))).rest = r ∧
      (c.forward (w.length + (m + 1))).column = m := by
  have hrest := rest_forward_append h
  rw [forward_add]
  exact ⟨by simpa using rest_forward_append hrest, column_lineStart hrest⟩

theorem reads_moreItems (hb : Block (.node true nd) m a toks w)
    (h : Reads (.node true nd) m a toks w) (hb' : Block (.items ns) m b toks' w')
    (h' : Reads (.items ns) m b toks' w') :
    Reads (.items (nd :: ns)) m (a && b) (.blockEntry :: toks ++ toks')
      ('-' :: w ++ lineStart m ++ w') := by
  intro c i is is' pre pre' k r hopens hc hr hk hcolumn
  rw [List.append_assoc, List.append_assoc] at hc
  have hrest := rest_next_cons hc
  have hnext := (next_flat hc ⟨by decide, by decide⟩).2
  obtain ⟨hline, hstart⟩ := forward_to_line hrest
  have hy := h c.next is' (.blockEntry :: pre') m _ hrest (hb'.begins (by simp) _)
    (Nat.le_refl m) (by omega) fun _ => by omega
  have hy' := h' _ m is' is' _ _ k r (.already is' (toks.reverse ++ .blockEntry :: pre')) hline hr
    hk hstart
  rw [unwindTo_self] at hy
  have hboth := hy.and hy'
  have hlength : ('-' :: w ++ lineStart m ++ w').length + (k + 1) =
      w.length + (m + 1) + 1 + (w'.length + (k + 1)) := by
    simp only [List.length_append, List.length_cons, length_lineStart]
    omega
  have htokens : (Token.blockEntry :: toks ++ toks').reverse ++ pre' =
      toks'.reverse ++ (toks.reverse ++ .blockEntry :: pre') := by simp
  refine yields_dash hopens hc (hb.gap _) hcolumn ?_
  rwa [hlength, htokens, forward_add, forward_succ]

theorem reads_simpleKey (hs : Written (m + 2) plain t s) (hflat : ∀ ch ∈ s, IsFlat ch)
    (hb : Block (.node false nd) m short toks w) (h : Reads (.node false nd) m short toks w) :
    Reads (.entry (scalarNode plain t, nd)) m (s.length ≤ keyLimit && short)
      (.key :: .scalar plain t :: .value :: toks) (s ++ ':' :: w) := by
  intro c i is is' pre pre' k r hopens hc hr hk hcolumn
  rw [List.append_assoc, List.cons_append] at hc
  have hcolon := rest_forward_append hc
  have hflat' := (forward_flat hc hflat).2
  have hnext := (next_flat hcolon ⟨by decide, by decide⟩).2
  rw [next_forward] at hnext
  have hrest : (c.forward (s.length + 1)).rest = w ++ (lineStart k ++ r) := by
    rw [← next_forward]
    exact rest_next_cons hcolon
  have hy := h _ is' (.value :: .scalar plain t :: .key :: pre') k r hrest hr hk (by omega)
    (by simp)
  obtain ⟨ch, rest, hgap, hch⟩ := hb.gap (lineStart k ++ r)
  have hlength : (s ++ ':' :: w).length + (k + 1) = s.length + 1 + (w.length + (k + 1)) := by
    simp only [List.length_append, List.length_cons]
    omega
  have htokens : (Token.key :: .scalar plain t :: .value :: toks).reverse ++ pre' =
      toks.reverse ++ .value :: .scalar plain t :: .key :: pre' := by simp
  refine key_yields hs hflat hc ?_ hcolumn hopens ?_
  · rw [hgap]
    rcases hch with rfl | rfl <;> rfl
  · rw [← forward_add] at hy
    rwa [hlength, htokens]

theorem reads_explicitKey (hb : Block (.node true key) m a toks w)
    (h : Reads (.node true key) m a toks w) (hb' : Block (.node true nd) m b toks' w')
    (h' : Reads (.node true nd) m b toks' w') :
    Reads (.entry (key, nd)) m (a && b) (.key :: toks ++ .value :: toks')
      ('?' :: w ++ lineStart m ++ ':' :: w') := by
  intro c i is is' pre pre' k r hopens hc hr hk hcolumn
  rw [List.append_assoc, List.append_assoc] at hc
  have hrest := rest_next_cons hc
  have hnext := (next_flat hc ⟨by decide, by decide⟩).2
  obtain ⟨hline, hstart⟩ := forward_to_line hrest
  have hnext' := (next_flat hline ⟨by decide, by decide⟩).2
  have hy := h c.next is' (.key :: pre') m _ hrest begins_colon (Nat.le_refl m) (by omega)
    fun _ => by omega
  have hy' := yields_colon hline (hb'.gap _) hstart <|
    h' _ is' (.value :: (toks.reverse ++ .key :: pre')) k r (rest_next_cons hline) hr hk (by omega)
      fun _ => by omega
  rw [unwindTo_self] at hy
  have hboth := hy.and hy'
  have hlength : ('?' :: w ++ lineStart m ++ ':' :: w').length + (k + 1) =
      w.length + (m + 1) + 1 + 1 + (w'.length + (k + 1)) := by
    simp only [List.length_append, List.length_cons, length_lineStart]
    omega
  have htokens : (Token.key :: toks ++ .value :: toks').reverse ++ pre' =
      toks'.reverse ++ .value :: (toks.reverse ++ .key :: pre') := by simp
  refine yields_question hopens hc (hb.gap _) hcolumn ?_
  rwa [hlength, htokens, forward_add, ← next_forward, forward_succ]

theorem reads_moreEntries (h : Reads (.entry e) m a toks w)
    (hb' : Block (.entries es) m b toks' w') (h' : Reads (.entries es) m b toks' w') :
    Reads (.entries (e :: es)) m (a && b) (toks ++ toks') (w ++ lineStart m ++ w') := by
  intro c i is is' pre pre' k r hopens hc hr hk hcolumn
  rw [List.append_assoc, List.append_assoc] at hc
  obtain ⟨hline, hstart⟩ := forward_to_line hc
  have hy := h c i is is' pre pre' m _ hopens hc (hb'.begins (by simp) _) (Nat.le_refl m) hcolumn
  have hy' := h' _ m is' is' _ _ k r (.already is' (toks.reverse ++ pre')) hline hr hk hstart
  rw [unwindTo_self] at hy
  have hboth := hy.and hy'
  have hlength : (w ++ lineStart m ++ w').length + (k + 1) =
      w.length + (m + 1) + (w'.length + (k + 1)) := by
    simp only [List.length_append, length_lineStart]
    omega
  rwa [hlength, List.reverse_append, List.append_assoc, forward_add]

/-- Every part falls into its tokens. -/
theorem reads_of_block {p : Part} (h : Block p m short toks w) : Reads p m short toks w := by
  induction h with
  | scalar fresh hs => exact reads_scalar hs
  | emptySeq m fresh => exact reads_brackets .seq _
  | emptyMap m fresh => exact reads_brackets .map _
  | seqBelow h ih => exact reads_seqBelow h ih
  | seqBeside h ih => exact reads_seqBeside h ih
  | mapBelow h ih => exact reads_mapBelow h ih
  | mapBeside h ih => exact reads_mapBeside h ih
  | lastItem h ih => exact reads_lastItem h ih
  | moreItems h h' ih ih' => exact reads_moreItems h ih h' ih'
  | simpleKey hs hline h ih => exact reads_simpleKey hs hline h ih
  | explicitKey h h' ih ih' => exact reads_explicitKey h ih h' ih'
  | lastEntry h ih => exact ih
  | moreEntries h h' ih ih' => exact reads_moreEntries ih h' ih'

/-! ## Documents -/

theorem run_document (h : Block (.entries es) 0 short toks w) :
    (start (w ++ ['\n'])).run ((w ++ ['\n']).length + 2) =
      if short then .ok (.blockMappingStart :: toks ++ [.blockEnd]) else .error .malformed := by
  have hstart : start (w ++ ['\n']) = ready (Cursor.start (w ++ ['\n'])) (-1) [] [] := by
    have hhere : (Cursor.start (w ++ ['\n'])).here ≠ '\uFEFF' := by
      intro hmark
      have hhead := h.head_ne_mark ['\n']
      cases hcons : w ++ ['\n'] with
      | nil => simp at hcons
      | cons ch r =>
          rw [hcons] at hhead hmark
          rw [here_cons (c := Cursor.start (ch :: r)) rfl] at hmark
          exact hhead (congrArg some hmark)
    rw [start, if_neg hhere]
    rfl
  have hsettle : (ready (Cursor.start (w ++ ['\n'])) (-1) [] []).settle =
      .ok (ready (Cursor.start (w ++ ['\n'])) (-1) [] []) :=
    settle_here (h.begins (by simp) _) (by simp [Live, ready])
      (.inr (by simp [ready, column, Cursor.start]))
  have hy := reads_of_block h (Cursor.start (w ++ ['\n'])) (-1) [] _ [] _ 0 []
    (.now [] [] (by omega)) (by simp [Cursor.start, lineStart]) (by simp [Begins])
    (Nat.le_refl 0) rfl
  have hself : (ready ((Cursor.start (w ++ ['\n'])).forward (w.length + (0 + 1))) (0 : Nat) [-1]
      (toks.reverse ++ [.blockMappingStart])).unwindTo (0 : Nat) = _ := unwindTo_self
  have hrest : ((Cursor.start (w ++ ['\n'])).forward (w.length + (0 + 1))).rest = [] := by
    simp [rest_forward, Cursor.start]
  rw [hself] at hy
  rw [hstart, run_succ, hsettle]
  show proceed _ _ = _
  cases short with
  | true =>
      obtain ⟨n, hn, hrun⟩ := hy
      have hfuel : (w ++ ['\n']).length + 1 = n + ((w ++ ['\n']).length + 1 - n) := by
        simp only [ready, Cursor.start] at hn
        omega
      have hend :
          isEnd ((Cursor.start (w ++ ['\n'])).forward (w.length + (0 + 1))).here = true := by
        rw [here_nil hrest]
        decide
      rw [hfuel, hrun, proceed]
      simp [ready, hend, unwindTo, unwind, removeKey, bind, Except.bind, pure, Except.pure]
  | false => exact hy _ (by simp [ready, Cursor.start])

/-- A document is cut into the tokens of its outermost mapping, unless one of the keys on the
lines of their values is too long. -/
theorem scan_eq (h : Block (.entries es) 0 short toks w)
    (hallowed : ∀ ch ∈ w, isAllowed ch = true) :
    Token.scan (w ++ ['\n']) =
      if short then .ok (.blockMappingStart :: toks ++ [.blockEnd]) else .error .malformed := by
  rw [Token.scan, if_pos, run_document h]
  rw [List.all_eq_true]
  intro ch hch
  rcases List.mem_append.mp hch with hch | hch
  · exact hallowed ch hch
  · rw [List.mem_singleton.mp hch]
    decide

end Lexer

end SourceScan.Yaml
