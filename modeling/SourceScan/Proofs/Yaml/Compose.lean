import SourceScan.Proofs.Yaml.Scan
import SourceScan.Yaml.Document

/-!
# Blocks composed into their nodes

The tokens of a part are read back into the node that the part stands for.  What the reader
does at a token comes first, then one induction over the parts.
-/

namespace SourceScan.Yaml.Compose

variable {fuel : Nat} {block indentless plain fresh short : Bool} {t : Text} {tok : Token}
  {rest toks ends : List Token} {as : List (Text × Node)} {os : List Text}
  {hs : List (Text × Text)} {n : Node} {ns : List Node} {e : Node × Node}
  {es : List (Node × Node)} {m : Nat} {w : Text}

/-! ## One token -/

theorem node_scalar : node block indentless (fuel + 1) ⟨.scalar plain t :: rest, as, os, hs⟩ =
    .ok (scalarNode plain t, ⟨rest, as, os, hs⟩) := by
  cases plain <;> rfl

theorem node_emptySeq :
    node block indentless (fuel + 2) ⟨.flowSequenceStart :: .flowSequenceEnd :: rest, as, os, hs⟩ =
      .ok (.seq .seq [], ⟨rest, as, os, hs⟩) :=
  rfl

theorem node_emptyMap :
    node block indentless (fuel + 2) ⟨.flowMappingStart :: .flowMappingEnd :: rest, as, os, hs⟩ =
      .ok (.map .map [], ⟨rest, as, os, hs⟩) :=
  rfl

theorem node_blockSequence :
    node true indentless (fuel + 1) ⟨.blockSequenceStart :: toks, as, os, hs⟩ =
      blockItems fuel ⟨toks, as, os, hs⟩ >>= fun p => .ok (.seq .seq p.1, p.2) :=
  rfl

theorem node_indentless :
    node true true (fuel + 1) ⟨.blockEntry :: toks, as, os, hs⟩ =
      indentlessItems fuel ⟨.blockEntry :: toks, as, os, hs⟩ >>= fun p =>
        .ok (.seq .seq p.1, p.2) :=
  rfl

theorem node_blockMapping :
    node true indentless (fuel + 1) ⟨.blockMappingStart :: toks, as, os, hs⟩ =
      blockEntries fuel ⟨toks, as, os, hs⟩ >>= fun p => .ok (.map .map p.1, p.2) :=
  rfl

theorem nodeUnless_node (htok : tok ∉ ends) :
    nodeUnless ends false block indentless (fuel + 1) ⟨tok :: toks, as, os, hs⟩ =
      node block indentless fuel ⟨tok :: toks, as, os, hs⟩ := by
  have hcontains : ends.contains tok = false := by simpa using htok
  have hunfold : nodeUnless ends false block indentless (fuel + 1) ⟨tok :: toks, as, os, hs⟩ =
      (if ends.contains tok || false then (pure emptyNode : Compose Node)
        else node block indentless fuel) ⟨tok :: toks, as, os, hs⟩ := rfl
  rw [hunfold, hcontains]
  rfl

theorem blockItems_entry :
    blockItems (fuel + 1) ⟨.blockEntry :: toks, as, os, hs⟩ =
      nodeUnless [.blockEntry, .blockEnd] false true false fuel ⟨toks, as, os, hs⟩ >>= fun p =>
        blockItems fuel p.2 >>= fun q => .ok (p.1 :: q.1, q.2) :=
  rfl

theorem blockItems_end :
    blockItems (fuel + 1) ⟨.blockEnd :: rest, as, os, hs⟩ = .ok ([], ⟨rest, as, os, hs⟩) :=
  rfl

theorem indentlessItems_entry :
    indentlessItems (fuel + 1) ⟨.blockEntry :: toks, as, os, hs⟩ =
      nodeUnless [.blockEntry, .key, .value, .blockEnd] false true false fuel
        ⟨toks, as, os, hs⟩ >>= fun p =>
          indentlessItems fuel p.2 >>= fun q => .ok (p.1 :: q.1, q.2) :=
  rfl

theorem accept_other {s : Composer} (h : s.tokens.head? ≠ some tok) :
    accept tok s = .ok (false, s) := by
  have hunfold : accept tok s =
      (if s.tokens.head? = some tok then (do skip; return true) else return false : Compose Bool)
        s := rfl
  rw [hunfold, if_neg h]
  rfl

theorem indentlessItems_end (h : rest.head? ≠ some .blockEntry) :
    indentlessItems (fuel + 1) ⟨rest, as, os, hs⟩ = .ok ([], ⟨rest, as, os, hs⟩) := by
  have hunfold : indentlessItems (fuel + 1) ⟨rest, as, os, hs⟩ =
      accept .blockEntry ⟨rest, as, os, hs⟩ >>= fun p =>
        (if p.1 then (do
            let item ← nodeUnless [.blockEntry, .key, .value, .blockEnd] false true false fuel
            return item :: (← indentlessItems fuel))
          else return [] : Compose (List Node)) p.2 := rfl
  rw [hunfold, accept_other h]
  rfl

theorem blockEntries_key :
    blockEntries (fuel + 1) ⟨.key :: toks, as, os, hs⟩ =
      nodeUnless [.key, .value, .blockEnd] false true true fuel ⟨toks, as, os, hs⟩ >>= fun p =>
        blockValue fuel p.2 >>= fun q =>
          blockEntries fuel q.2 >>= fun r => .ok ((p.1, q.1) :: r.1, r.2) :=
  rfl

theorem blockEntries_end :
    blockEntries (fuel + 1) ⟨.blockEnd :: rest, as, os, hs⟩ = .ok ([], ⟨rest, as, os, hs⟩) :=
  rfl

theorem blockValue_value :
    blockValue (fuel + 1) ⟨.value :: toks, as, os, hs⟩ =
      nodeUnless [.key, .value, .blockEnd] false true true fuel ⟨toks, as, os, hs⟩ :=
  rfl

/-! ## Parts -/

/-- What it means for the tokens of a part to be composed, with fuel for each of them. -/
def Composes : Part → List Token → Prop
  | .node fresh n, toks =>
      ∀ (fuel : Nat) (indentless : Bool) (rest : List Token), 4 * toks.length + 2 ≤ fuel →
        (fresh = false → indentless = true ∧ rest.head? ≠ some .blockEntry) →
        ∀ as os hs, node true indentless fuel ⟨toks ++ rest, as, os, hs⟩ =
          .ok (n, ⟨rest, as, os, hs⟩)
  | .items ns, toks =>
      ∀ (fuel : Nat) (rest : List Token), 4 * toks.length < fuel → ∀ as os hs,
        blockItems fuel ⟨toks ++ .blockEnd :: rest, as, os, hs⟩ = .ok (ns, ⟨rest, as, os, hs⟩) ∧
          (rest.head? ≠ some .blockEntry →
            indentlessItems fuel ⟨toks ++ rest, as, os, hs⟩ = .ok (ns, ⟨rest, as, os, hs⟩))
  | .entry e, toks =>
      ∀ (fuel : Nat) (rest : List Token), 4 * toks.length ≤ fuel →
        rest.head? ≠ some .blockEntry → ∀ as os hs,
          blockEntries (fuel + 1) ⟨toks ++ rest, as, os, hs⟩ =
            blockEntries fuel ⟨rest, as, os, hs⟩ >>= fun r => .ok (e :: r.1, r.2)
  | .entries es, toks =>
      ∀ (fuel : Nat) (rest : List Token), 4 * toks.length < fuel → ∀ as os hs,
        blockEntries fuel ⟨toks ++ .blockEnd :: rest, as, os, hs⟩ = .ok (es, ⟨rest, as, os, hs⟩)

theorem items_head (h : Block (.items ns) m short toks w) :
    ∃ toks', toks = .blockEntry :: toks' := by
  cases h <;> exact ⟨_, rfl⟩

theorem node_head (h : Block (.node fresh n) m short toks w) :
    ∃ tok toks', toks = tok :: toks' ∧ tok ∉ [Token.key, .value, .blockEnd] ∧
      (fresh = true → tok ≠ .blockEntry) := by
  cases h with
  | seqBelow h =>
      obtain ⟨toks', rfl⟩ := items_head h
      exact ⟨_, _, rfl, by decide, by simp⟩
  | _ => exact ⟨_, _, rfl, by simp, by simp⟩

theorem entry_head (h : Block (.entry e) m short toks w) : ∃ toks', toks = .key :: toks' := by
  cases h <;> exact ⟨_, rfl⟩

theorem entries_head (h : Block (.entries es) m short toks w) : ∃ toks', toks = .key :: toks' := by
  cases h with
  | lastEntry h => exact entry_head h
  | moreEntries h h' =>
      obtain ⟨toks', rfl⟩ := entry_head h
      exact ⟨_, rfl⟩

theorem nodeUnless_of_block (hb : Block (.node fresh n) m short toks w)
    (h : Composes (.node fresh n) toks) (hfuel : 4 * toks.length + 2 < fuel)
    (hends : ends ⊆ [.key, .value, .blockEnd] ∨
      fresh = true ∧ ends ⊆ [.blockEntry, .key, .value, .blockEnd])
    (hrest : fresh = false → indentless = true ∧ rest.head? ≠ some .blockEntry) :
    nodeUnless ends false true indentless fuel ⟨toks ++ rest, as, os, hs⟩ =
      .ok (n, ⟨rest, as, os, hs⟩) := by
  obtain ⟨fuel, rfl⟩ : ∃ k, fuel = k + 1 := ⟨fuel - 1, by omega⟩
  have hnode := h fuel indentless rest (by omega) hrest as os hs
  obtain ⟨tok, toks', rfl, hother, hentry⟩ := node_head hb
  have htok : tok ∉ ends := by
    intro htok
    rcases hends with hends | ⟨rfl, hends⟩
    · exact hother (hends htok)
    · rcases List.mem_cons.mp (hends htok) with heq | hmem
      · exact hentry rfl heq
      · exact hother hmem
  rw [List.cons_append] at hnode ⊢
  rw [nodeUnless_node htok, hnode]

theorem composes_seqBelow (hb : Block (.items ns) m short toks w) (h : Composes (.items ns) toks) :
    Composes (.node false (.seq .seq ns)) toks := by
  intro fuel indentless rest hfuel hrest as os hs
  obtain ⟨rfl, hnext⟩ := hrest rfl
  obtain ⟨toks', rfl⟩ := items_head hb
  obtain ⟨fuel, rfl⟩ : ∃ k, fuel = k + 1 := ⟨fuel - 1, by omega⟩
  have hitems := (h fuel rest (by omega) as os hs).2 hnext
  rw [List.cons_append] at hitems ⊢
  rw [node_indentless, hitems]
  rfl

theorem composes_seqBeside (h : Composes (.items ns) toks) :
    Composes (.node true (.seq .seq ns)) (.blockSequenceStart :: toks ++ [.blockEnd]) := by
  intro fuel indentless rest hfuel _ as os hs
  simp only [List.length_append, List.length_cons, List.length_nil] at hfuel
  obtain ⟨fuel, rfl⟩ : ∃ k, fuel = k + 1 := ⟨fuel - 1, by omega⟩
  have hitems := (h fuel rest (by omega) as os hs).1
  simp only [List.cons_append, List.append_assoc, List.nil_append]
  rw [node_blockSequence, hitems]
  rfl

theorem composes_map (h : Composes (.entries es) toks) :
    Composes (.node fresh (.map .map es)) (.blockMappingStart :: toks ++ [.blockEnd]) := by
  intro fuel indentless rest hfuel _ as os hs
  simp only [List.length_append, List.length_cons, List.length_nil] at hfuel
  obtain ⟨fuel, rfl⟩ : ∃ k, fuel = k + 1 := ⟨fuel - 1, by omega⟩
  have hentries := h fuel rest (by omega) as os hs
  simp only [List.cons_append, List.append_assoc, List.nil_append]
  rw [node_blockMapping, hentries]
  rfl

variable {toks' : List Token} {key : Node} {a b : Bool} {w' : Text}

theorem item_step (hb : Block (.node true n) m short toks w) (h : Composes (.node true n) toks)
    (hfuel : 4 * toks.length + 2 < fuel) :
    blockItems (fuel + 1) ⟨.blockEntry :: (toks ++ rest), as, os, hs⟩ =
        blockItems fuel ⟨rest, as, os, hs⟩ >>= (fun q => .ok (n :: q.1, q.2)) ∧
      indentlessItems (fuel + 1) ⟨.blockEntry :: (toks ++ rest), as, os, hs⟩ =
        indentlessItems fuel ⟨rest, as, os, hs⟩ >>= fun q => .ok (n :: q.1, q.2) := by
  constructor
  · rw [blockItems_entry, nodeUnless_of_block hb h hfuel (.inr ⟨rfl, by simp⟩) (by simp)]
    rfl
  · rw [indentlessItems_entry, nodeUnless_of_block hb h hfuel (.inr ⟨rfl, by simp⟩) (by simp)]
    rfl

theorem composes_lastItem (hb : Block (.node true n) m short toks w)
    (h : Composes (.node true n) toks) : Composes (.items [n]) (.blockEntry :: toks) := by
  intro fuel rest hfuel as os hs
  simp only [List.length_cons] at hfuel
  obtain ⟨fuel, rfl⟩ : ∃ k, fuel = k + 2 := ⟨fuel - 2, by omega⟩
  constructor
  · rw [List.cons_append, (item_step hb h (by omega)).1, blockItems_end]
    rfl
  · intro hrest
    rw [List.cons_append, (item_step hb h (by omega)).2, indentlessItems_end hrest]
    rfl

theorem composes_moreItems (hb : Block (.node true n) m short toks w)
    (h : Composes (.node true n) toks) (h' : Composes (.items ns) toks') :
    Composes (.items (n :: ns)) (.blockEntry :: toks ++ toks') := by
  intro fuel rest hfuel as os hs
  simp only [List.length_cons, List.length_append] at hfuel
  obtain ⟨fuel, rfl⟩ : ∃ k, fuel = k + 1 := ⟨fuel - 1, by omega⟩
  have hrest := h' fuel rest (by omega) as os hs
  simp only [List.cons_append, List.append_assoc]
  constructor
  · rw [(item_step hb h (by omega)).1, hrest.1]
    rfl
  · intro hnext
    rw [(item_step hb h (by omega)).2, hrest.2 hnext]
    rfl

theorem entry_step {fresh' short' : Bool} (hb : Block (.node fresh key) m short toks w)
    (h : Composes (.node fresh key) toks) (hb' : Block (.node fresh' n) m short' toks' w')
    (h' : Composes (.node fresh' n) toks') (hrest : rest.head? ≠ some .blockEntry)
    (hfuel : 4 * (toks.length + toks'.length) + 4 ≤ fuel) :
    blockEntries (fuel + 1) ⟨.key :: (toks ++ .value :: (toks' ++ rest)), as, os, hs⟩ =
      blockEntries fuel ⟨rest, as, os, hs⟩ >>= fun r => .ok ((key, n) :: r.1, r.2) := by
  obtain ⟨fuel, rfl⟩ : ∃ k, fuel = k + 1 := ⟨fuel - 1, by omega⟩
  have hkey : nodeUnless [.key, .value, .blockEnd] false true true (fuel + 1)
      ⟨toks ++ .value :: (toks' ++ rest), as, os, hs⟩ = _ :=
    nodeUnless_of_block hb h (by omega) (.inl (by simp)) (by simp)
  have hvalue : nodeUnless [.key, .value, .blockEnd] false true true fuel
      ⟨toks' ++ rest, as, os, hs⟩ = _ :=
    nodeUnless_of_block hb' h' (by omega) (.inl (by simp)) (fun _ => ⟨rfl, hrest⟩)
  have hboth : blockValue (fuel + 1) ⟨.value :: (toks' ++ rest), as, os, hs⟩ =
      .ok (n, ⟨rest, as, os, hs⟩) := blockValue_value.trans hvalue
  rw [blockEntries_key, hkey]
  simp only [bind, Except.bind, hboth]

theorem composes_scalar : Composes (.node fresh (scalarNode plain t)) [.scalar plain t] := by
  intro fuel indentless rest hfuel _ as os hs
  obtain ⟨fuel, rfl⟩ : ∃ k, fuel = k + 1 := ⟨fuel - 1, by omega⟩
  exact node_scalar

theorem composes_entry {fresh' short' : Bool} (hb : Block (.node fresh key) m short toks w)
    (h : Composes (.node fresh key) toks) (hb' : Block (.node fresh' n) m short' toks' w')
    (h' : Composes (.node fresh' n) toks') :
    Composes (.entry (key, n)) (.key :: toks ++ .value :: toks') := by
  intro fuel rest hfuel hrest as os hs
  simp only [List.length_cons, List.length_append] at hfuel
  simp only [List.cons_append, List.append_assoc]
  exact entry_step hb h hb' h' hrest (by omega)

theorem composes_lastEntry (h : Composes (.entry e) toks) (hpos : 0 < toks.length) :
    Composes (.entries [e]) toks := by
  intro fuel rest hfuel as os hs
  obtain ⟨fuel, rfl⟩ : ∃ k, fuel = k + 2 := ⟨fuel - 2, by omega⟩
  rw [h (fuel + 1) _ (by omega) (by simp), blockEntries_end]
  rfl

theorem composes_moreEntries (h : Composes (.entry e) toks)
    (hb' : Block (.entries es) m short toks' w') (h' : Composes (.entries es) toks')
    (hpos : 0 < toks.length) : Composes (.entries (e :: es)) (toks ++ toks') := by
  intro fuel rest hfuel as os hs
  simp only [List.length_append] at hfuel
  obtain ⟨fuel, rfl⟩ : ∃ k, fuel = k + 1 := ⟨fuel - 1, by omega⟩
  have hnext : (toks' ++ .blockEnd :: rest).head? ≠ some .blockEntry := by
    obtain ⟨toks'', rfl⟩ := entries_head hb'
    simp
  rw [List.append_assoc, h fuel _ (by omega) hnext, h' fuel rest (by omega)]
  rfl

/-- The tokens of every part are composed into what it stands for. -/
theorem composes_of_block {p : Part} (h : Block p m short toks w) : Composes p toks := by
  induction h with
  | scalar fresh hs => exact composes_scalar
  | emptySeq m fresh =>
      intro fuel indentless rest hfuel _ as os hs
      obtain ⟨fuel, rfl⟩ : ∃ k, fuel = k + 2 := ⟨fuel - 2, by omega⟩
      exact node_emptySeq
  | emptyMap m fresh =>
      intro fuel indentless rest hfuel _ as os hs
      obtain ⟨fuel, rfl⟩ : ∃ k, fuel = k + 2 := ⟨fuel - 2, by omega⟩
      exact node_emptyMap
  | seqBelow h ih => exact composes_seqBelow h ih
  | seqBeside h ih => exact composes_seqBeside ih
  | mapBelow h ih => exact composes_map ih
  | mapBeside h ih => exact composes_map ih
  | lastItem h ih => exact composes_lastItem h ih
  | moreItems h h' ih ih' => exact composes_moreItems h ih ih'
  | simpleKey hs hline h ih => exact composes_entry (.scalar true hs) composes_scalar h ih
  | explicitKey h h' ih ih' => exact composes_entry h ih h' ih'
  | lastEntry h ih =>
      obtain ⟨toks', rfl⟩ := entry_head h
      exact composes_lastEntry ih (by simp)
  | moreEntries h h' ih ih' =>
      obtain ⟨toks', rfl⟩ := entry_head h
      exact composes_moreEntries ih h' ih' (by simp)

theorem document_eq (h : node true false (fuel + 1) ⟨.blockMappingStart :: toks, as, os, hs⟩ =
      .ok (n, ⟨[], as, os, hs⟩)) :
    document (fuel + 1) ⟨.blockMappingStart :: toks, as, os, hs⟩ =
      .ok (some n, ⟨[], as, os, hs⟩) := by
  have hunfold : document (fuel + 1) ⟨.blockMappingStart :: toks, as, os, hs⟩ =
      node true false (fuel + 1) ⟨.blockMappingStart :: toks, as, os, hs⟩ >>= fun p =>
        (do
          skipEnds (fuel + 1)
          if (← peek).isSome then let _ : Unit ← malformed
          return some p.1 : Compose (Option Node)) p.2 := rfl
  rw [hunfold, h]
  rfl

end Compose

open Lexer Compose

variable {es : List (Node × Node)} {short : Bool} {toks : List Token} {w : Text}

theorem Node.ofTokens_eq (h : Block (.entries es) 0 short toks w) :
    Node.ofTokens (.blockMappingStart :: toks ++ [.blockEnd]) = .ok (some (.map .map es)) := by
  have hmap : Composes (.node true _) _ := composes_map (composes_of_block h)
  have hnode := hmap (4 * (Token.blockMappingStart :: (toks ++ [Token.blockEnd])).length + 4)
    false [] (by simp) (by simp) [] [] defaultHandles
  rw [List.append_nil, List.cons_append] at hnode
  rw [Node.ofTokens, StateT.run, List.cons_append, document_eq hnode]
  rfl

/-- A written document reads as the node it stands for, unless one of the keys on the lines of
their values is too long. -/
theorem Node.read_eq (h : Block (.entries es) 0 short toks w)
    (hallowed : ∀ ch ∈ w, isAllowed ch = true) :
    Node.read (w ++ ['\n']) =
      if short then .ok (some (.map .map es)) else .error .malformed := by
  rw [Node.read, scan_eq h hallowed]
  cases short with
  | true => exact Node.ofTokens_eq h
  | false => rfl

end SourceScan.Yaml
