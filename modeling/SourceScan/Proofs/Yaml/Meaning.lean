import SourceScan.Proofs.Steps
import SourceScan.Proofs.Yaml.Compose
import SourceScan.Proofs.Yaml.Layout

/-!
# Simple values read back

The node of a simple value has that value again.  So what is written of a simple value reads as
the value with what is read back of its texts, unless a key is too long to be found.
-/

namespace SourceScan.Value

open Yaml

variable {v : Value} {vs : List Value} {es : List (Value × Value)} {n : Node} {fuel : Nat}

theorem nodes_eq (vs : List Value) : nodes vs = vs.map node := by
  induction vs with
  | nil => rfl
  | cons v vs ih => rw [nodes, ih, List.map_cons]

theorem nodeEntries_eq (es : List (Value × Value)) :
    nodeEntries es = es.map fun e => (e.1.node, e.2.node) := by
  induction es with
  | nil => rfl
  | cons e es ih => rw [nodeEntries, ih, List.map_cons]

/-! ## Keys -/

theorem flatten_nodeEntries (h : SimpleEntries es) :
    Node.flatten (nodeEntries es) = .ok ([], nodeEntries es) := by
  induction es with
  | nil => rfl
  | cons e es ih =>
      obtain ⟨k, v⟩ := e
      obtain ⟨⟨s, rfl⟩, -, hes⟩ := h
      rw [nodeEntries, Node.flatten, ih hes]
      rfl

theorem allEntries_node (h : SimpleEntries es) :
    (node (.map es)).allEntries = .ok (nodeEntries es) := by
  rw [node, Node.allEntries, flatten_nodeEntries h]
  rfl

/-! ## No fault counts -/

def Deferred (n : Node) : Prop :=
  (∃ vs, SimpleAll vs ∧ n = node (.list vs)) ∨ ∃ es, SimpleEntries es ∧ n = node (.map es)

def Defers (x : Except Fault (List Node)) : Prop := ∃ ns, x = .ok ns ∧ ∀ n ∈ ns, Deferred n

theorem defers_mapM {α : Type} {f : α → Except Fault (List Node)} {xs : List α}
    (h : ∀ x ∈ xs, Defers (f x)) : Defers (do return (← xs.mapM f).flatten) := by
  obtain ⟨nss, hnss⟩ := exists_mapM_ok fun x hx => (h x hx).imp fun _ => And.left
  refine ⟨nss.flatten, by rw [hnss]; rfl, fun n hn => ?_⟩
  obtain ⟨ns, hns, hn⟩ := List.mem_flatten.mp hn
  obtain ⟨x, hx, hstep⟩ := (mem_of_mapM hnss).mp hns
  obtain ⟨ns', hok, hdeferred⟩ := h x hx
  rw [hok] at hstep
  cases hstep
  exact hdeferred n hn

theorem scalarValue_int {i : Int} (h : Short i) :
    scalarValue .int (Text.ofInt i) = .ok (.int i) := by
  rw [scalarValue, readInt_ofInt h]
  rfl

theorem defers_glance (h : v.Simple) : Defers (node v).glance := by
  cases v with
  | null => exact ⟨[], rfl, by simp⟩
  | bool b => cases b <;> exact ⟨[], by cbv, by simp⟩
  | str s => exact ⟨[], rfl, by simp⟩
  | int i =>
      refine ⟨[], ?_, by simp⟩
      have hunfold : (node (.int i)).glance =
          (scalarValue .int (Text.ofInt i) >>= fun _ => .ok []) := rfl
      rw [hunfold, scalarValue_int h]
      rfl
  | list vs => exact ⟨[node (.list vs)], rfl, by simpa using .inl ⟨vs, h, rfl⟩⟩
  | map es => exact ⟨[node (.map es)], rfl, by simpa using .inr ⟨es, h.2, rfl⟩⟩
  | float | bytes | date | dateTime | pair | set => cases h

theorem defers_expand (h : Deferred n) : Defers n.expand := by
  rcases h with ⟨vs, hvs, rfl⟩ | ⟨es, hes, rfl⟩
  · have hunfold : (node (.list vs)).expand =
        (do return (← (nodes vs).mapM Node.glance).flatten) := rfl
    rw [hunfold, nodes_eq]
    refine defers_mapM fun n hn => ?_
    obtain ⟨v, hv, rfl⟩ := List.mem_map.mp hn
    exact defers_glance (simpleAll_iff.mp hvs v hv)
  · have hunfold : (node (.map es)).expand = (do
        return (← (← (node (.map es)).allEntries).mapM fun e => do
          if e.1.isCollection then throw .malformed
          let _ ← e.1.glance
          e.2.glance).flatten) := rfl
    rw [hunfold, allEntries_node hes, nodeEntries_eq]
    refine defers_mapM fun e he => ?_
    obtain ⟨⟨k, v⟩, hkv, rfl⟩ := List.mem_map.mp he
    obtain ⟨⟨s, hk⟩, hv⟩ := simpleEntries_iff.mp hes _ hkv
    simp only at hk hv
    subst hk
    exact defers_glance hv

theorem expandLevels_eq {ns : List Node} (h : ∀ n ∈ ns, Deferred n) :
    Node.expandLevels fuel ns = .ok () := by
  induction fuel generalizing ns with
  | zero => rfl
  | succ fuel ih =>
      obtain ⟨ns', hns', hdeferred⟩ := defers_mapM fun n hn => defers_expand (h n hn)
      cases ns with
      | nil => rfl
      | cons n ns =>
          have hunfold : Node.expandLevels (fuel + 1) (n :: ns) =
              ((do return (← (n :: ns).mapM Node.expand).flatten) >>= Node.expandLevels fuel) := by
            rw [Node.expandLevels]
            simp
          rw [hunfold, hns']
          exact ih hdeferred

/-! ## Values -/

theorem le_depthAll (h : v ∈ vs) : (node v).depth ≤ Node.depthAll (nodes vs) := by
  induction vs with
  | nil => cases h
  | cons w vs ih =>
      rw [nodes, Node.depthAll]
      rcases List.mem_cons.mp h with rfl | h
      · exact le_max_left _ _
      · exact le_max_of_le_right (ih h)

theorem le_depthEntries {e : Value × Value} (h : e ∈ es) :
    (node e.1).depth ≤ Node.depthEntries (nodeEntries es) ∧
      (node e.2).depth ≤ Node.depthEntries (nodeEntries es) := by
  induction es with
  | nil => cases h
  | cons e' es ih =>
      rw [nodeEntries, Node.depthEntries]
      rcases List.mem_cons.mp h with rfl | h
      · exact ⟨le_max_of_le_left (le_max_left _ _), le_max_of_le_left (le_max_right _ _)⟩
      · exact ⟨le_max_of_le_right (ih h).1, le_max_of_le_right (ih h).2⟩

theorem foldlM_putEntry
    {step : List (Value × Value) → Node × Node → Except Fault (List (Value × Value))}
    (hstep : ∀ e ∈ es, ∀ front, step front (node e.1, node e.2) = .ok (putEntry e.1 e.2 front))
    (hkeys : SimpleEntries es) {front : List (Value × Value)}
    (hnodup : ((front ++ es).map (·.1)).Nodup) :
    (nodeEntries es).foldlM step front = .ok (front ++ es) := by
  induction es generalizing front with
  | nil =>
      rw [List.append_nil]
      rfl
  | cons e es ih =>
      obtain ⟨k, v⟩ := e
      obtain ⟨⟨s, rfl⟩, -, hes⟩ := hkeys
      have hnew : .str s ∉ front.map (·.1) := by
        intro hmem
        rw [List.map_append, List.map_cons] at hnodup
        exact (List.nodup_append.mp hnodup).2.2 _ hmem _ (by simp) rfl
      have hnodup' : ((front ++ [(Value.str s, v)] ++ es).map (·.1)).Nodup := by simpa using hnodup
      have hrest := ih (fun e he => hstep e (by simp [he])) hes hnodup'
      have hfirst := hstep (.str s, v) (by simp) front
      rw [putEntry_new hnew] at hfirst
      rw [nodeEntries, List.foldlM_cons, hfirst]
      exact hrest.trans (by simp)

theorem value_scalar {tag : Tag} {t : Text} (hvalue : scalarValue tag t = .ok v)
    (htag : (Node.scalar tag t).isCollection = false) :
    Node.value (fuel + 1) (.scalar tag t) = .ok v := by
  rw [Node.value]
  cases tag <;> first | exact hvalue | cases htag

theorem value_list (h : ∀ v ∈ vs, Node.value fuel (node v) = .ok v) :
    Node.value (fuel + 1) (node (.list vs)) = .ok (.list vs) := by
  have hunfold : Node.value (fuel + 1) (node (.list vs)) =
      (do return .list (← (nodes vs).mapM (Node.value fuel))) := by
    rw [Node.value]
    rfl
  have hitems : (nodes vs).mapM (Node.value fuel) = .ok vs := by
    clear hunfold
    induction vs with
    | nil => rfl
    | cons v vs ih =>
        rw [nodes, List.mapM_cons, h v (by simp), ih fun w hw => h w (by simp [hw])]
        rfl
  rw [hunfold, hitems]
  rfl

theorem value_map (hsimple : (Value.map es).Simple)
    (h : ∀ e ∈ es, Node.value fuel (node e.1) = .ok e.1 ∧ Node.value fuel (node e.2) = .ok e.2) :
    Node.value (fuel + 1) (node (.map es)) = .ok (.map es) := by
  have hunfold : Node.value (fuel + 1) (node (.map es)) =
      (do return .map (← Node.value.entries fuel (node (.map es)))) := by
    rw [Node.value]
    rfl
  have hentries : Node.value.entries fuel (node (.map es)) = .ok es := by
    rw [Node.value.entries, allEntries_node hsimple.2]
    refine foldlM_putEntry (fun e he front => ?_) hsimple.2 hsimple.1
    obtain ⟨k, v⟩ := e
    obtain ⟨hkey, hvalue⟩ := h _ he
    obtain ⟨s, hs⟩ := (simpleEntries_iff.mp hsimple.2 _ he).1
    simp only at hkey hvalue hs
    subst hs
    simp only [hkey, hvalue]
    rfl
  rw [hunfold, hentries]
  rfl

/-- The node of a simple value has the value. -/
theorem value_node (h : v.Simple) (hdepth : (node v).depth ≤ fuel) :
    Node.value fuel (node v) = .ok v := by
  induction fuel generalizing v with
  | zero => cases v <;> simp [node, Node.depth] at hdepth
  | succ fuel ih =>
      cases v with
      | null => exact value_scalar rfl rfl
      | bool b => cases b <;> exact value_scalar (by cbv) rfl
      | str s => exact value_scalar rfl rfl
      | int i => exact value_scalar (scalarValue_int h) rfl
      | list vs =>
          refine value_list fun v hv => ih (simpleAll_iff.mp h v hv) ?_
          have hle := le_depthAll hv
          simp only [node, Node.depth] at hdepth
          omega
      | map es =>
          refine value_map h fun e he => ?_
          obtain ⟨⟨s, hs⟩, hv⟩ := simpleEntries_iff.mp h.2 e he
          have hle := le_depthEntries he
          simp only [node, Node.depth] at hdepth
          refine ⟨ih (by rw [hs]; trivial) (by omega), ih hv (by omega)⟩
      | float | bytes | date | dateTime | pair | set => cases h

theorem documentValue_node (h : v.Simple) : (node v).documentValue = .ok v := by
  obtain ⟨ns, hns, hdeferred⟩ := defers_glance h
  rw [Node.documentValue, hns]
  have hlevels : Node.expandLevels ((node v).depth + 1) ns = .ok () := expandLevels_eq hdeferred
  change (Node.expandLevels ((node v).depth + 1) ns >>= fun _ =>
    Node.value ((node v).depth + 1) (node v)) = .ok v
  rw [hlevels]
  exact value_node h (Nat.le_succ _)

/-! ## Texts read back -/

mutual

def keys : Value → List Text
  | .list vs => keysAll vs
  | .map es => keysEntries es
  | _ => []

def keysAll : List Value → List Text
  | [] => []
  | v :: vs => keys v ++ keysAll vs

def keysEntries : List (Value × Value) → List Text
  | [] => []
  | (k, v) :: es => k.scalar.2 :: keys v ++ keysEntries es

end

theorem mem_keysAll {k : Text} : k ∈ keysAll vs ↔ ∃ v ∈ vs, k ∈ v.keys := by
  induction vs with
  | nil => simp [keysAll]
  | cons v vs ih => simp [keysAll, ih]

theorem depthAll_le {n : Nat} (h : ∀ v ∈ vs, v.depth ≤ n) : depthAll vs ≤ n := by
  induction vs with
  | nil => exact Nat.zero_le n
  | cons v vs ih => exact max_le (h v (by simp)) (ih fun w hw => h w (by simp [hw]))

variable {wide : Bool}

theorem readBackEntries_keys (hsimple : SimpleEntries es)
    (hkeys : ∀ k ∈ keysEntries es, Yaml.readBack wide k = k) :
    (readBackEntries wide es).map (·.1) = es.map (·.1) := by
  induction es with
  | nil => rfl
  | cons e es ih =>
      obtain ⟨k, v⟩ := e
      obtain ⟨⟨s, rfl⟩, -, hes⟩ := hsimple
      have hk : Yaml.readBack wide s = s := hkeys s List.mem_cons_self
      rw [readBackEntries, List.map_cons, List.map_cons, ih hes fun k hk => hkeys k
        (List.mem_cons_of_mem _ (List.mem_append_right _ hk)), readBack, hk]

mutual

theorem simple_readBack : ∀ v : Value, v.Simple → (∀ k ∈ v.keys, Yaml.readBack wide k = k) →
    (v.readBack wide).Simple
  | .null, _, _ | .bool _, _, _ | .str _, _, _ => trivial
  | .int _, h, _ => h
  | .list vs, h, hkeys => simpleAll_readBack vs h hkeys
  | .map es, h, hkeys =>
      ⟨by rw [readBackEntries_keys h.2 hkeys]; exact h.1, simpleEntries_readBack es h.2 hkeys⟩

theorem simpleAll_readBack : ∀ vs : List Value, SimpleAll vs →
    (∀ k ∈ keysAll vs, Yaml.readBack wide k = k) → SimpleAll (readBackAll wide vs)
  | [], _, _ => trivial
  | v :: vs, h, hkeys =>
      ⟨simple_readBack v h.1 fun k hk => hkeys k (List.mem_append_left _ hk),
        simpleAll_readBack vs h.2 fun k hk => hkeys k (List.mem_append_right _ hk)⟩

theorem simpleEntries_readBack : ∀ es : List (Value × Value), SimpleEntries es →
    (∀ k ∈ keysEntries es, Yaml.readBack wide k = k) → SimpleEntries (readBackEntries wide es)
  | [], _, _ => trivial
  | (k, v) :: es, h, hkeys => by
      obtain ⟨⟨s, rfl⟩, hv, hes⟩ := h
      refine ⟨⟨_, rfl⟩, simple_readBack v hv fun k hk => hkeys k ?_,
        simpleEntries_readBack es hes fun k hk => hkeys k ?_⟩
      · exact List.mem_cons_of_mem _ (List.mem_append_left _ hk)
      · exact List.mem_cons_of_mem _ (List.mem_append_right _ hk)

end

mutual

theorem keysFit_iff : ∀ v : Value, v.Simple →
    (v.keysFit wide = true ↔ ∀ k ∈ v.keys, keyFits wide (.str k) = true)
  | .null, _ | .bool _, _ | .str _, _ | .int _, _ => by simp [keysFit, keys]
  | .list vs, h => keysFitAll_iff vs h
  | .map es, h => keysFitEntries_iff es h.2

theorem keysFitAll_iff : ∀ vs : List Value, SimpleAll vs →
    (keysFitAll wide vs = true ↔ ∀ k ∈ keysAll vs, keyFits wide (.str k) = true)
  | [], _ => by simp [keysFitAll, keysAll]
  | v :: vs, h => by
      rw [keysFitAll, Bool.and_eq_true, keysFit_iff v h.1, keysFitAll_iff vs h.2, keysAll,
        List.forall_mem_append]

theorem keysFitEntries_iff : ∀ es : List (Value × Value), SimpleEntries es →
    (keysFitEntries wide es = true ↔ ∀ k ∈ keysEntries es, keyFits wide (.str k) = true)
  | [], _ => by simp [keysFitEntries, keysEntries]
  | (k, v) :: es, h => by
      obtain ⟨⟨s, rfl⟩, hv, hes⟩ := h
      rw [keysFitEntries, Bool.and_eq_true, Bool.and_eq_true, keysFit_iff v hv,
        keysFitEntries_iff es hes, keysEntries, List.cons_append, List.forall_mem_cons,
        List.forall_mem_append, and_assoc]
      rfl

end

theorem length_quotesDoubled (t : Text) : (Pen.quotesDoubled t).length ≤ 2 * t.length := by
  induction t with
  | nil => exact le_rfl
  | cons c t ih =>
      rw [Pen.quotesDoubled, List.flatMap_cons, List.length_append, List.length_cons]
      have hfirst : (if c = '\'' then ['\'', '\''] else [c]).length ≤ 2 := by split <;> simp
      rw [Pen.quotesDoubled] at ih
      omega

theorem keyFits_of_canBeSingleQuoted {t : Text} (h : canBeSingleQuoted wide t = true) :
    keyFits wide (.str t) = true := by
  rw [keyFits, Bool.or_eq_true, Bool.not_eq_true', decide_eq_true_eq]
  by_cases hkey : (Form.str t).isSimpleKey = true
  · have hlength : t.length ≤ Form.keyWidth := by
      simp only [Form.str, Form.isSimpleKey, Bool.and_eq_true, decide_eq_true_eq,
        RawText.ofText, List.length_map] at hkey
      omega
    have hdoubled := length_quotesDoubled t
    have hline := (isSimpleKey_str hkey).2
    refine .inr ?_
    have hstyle : Style.choose wide true .str (RawText.ofText t) = .plain ∨
        Style.choose wide true .str (RawText.ofText t) = .single := by
      rw [choose_ofText, h, hline, Bool.and_false, Bool.not_false, Bool.and_true, if_pos rfl]
      exact ite_eq_or_eq _ _ _
    simp only [Form.keyWidth] at hlength
    simp only [onOneLine, Lexer.keyLimit]
    rcases hstyle with hstyle | hstyle
    · simp only [hstyle]
      omega
    · simp only [hstyle, List.cons_append, List.length_cons, List.length_append, List.length_nil]
      omega
  · exact .inl (Bool.eq_false_iff.mpr hkey)

theorem keyFits_of_special {t : Text} (hkey : (Form.str t).isSimpleKey = true)
    (h : canBeSingleQuoted wide t = false) :
    keyFits wide (.str t) = decide ((Pen.escaped wide t).length + 2 ≤ Lexer.keyLimit) := by
  obtain ⟨hne, hline⟩ := isSimpleKey_str hkey
  have hplain : canBePlain wide t = false := by rw [canBePlain, h]; rfl
  have hstyle : Style.choose wide true .str (RawText.ofText t) = .double := by
    rw [choose_ofText, h, hplain, Bool.and_false, Bool.false_and]
    rfl
  rw [keyFits, hkey, onOneLine]
  simp [hstyle, Nat.succ_le_iff]

theorem readBack_eq_self_iff {t : Text} :
    Yaml.readBack wide t = t ↔ ('\x85' ∈ t → canBeSingleQuoted wide t = false) := by
  rw [Yaml.readBack]
  cases canBeSingleQuoted wide t with
  | true => simp [reread_eq_self]
  | false => simp

/-- Without characters beyond ASCII there is no next-line character between single quotes. -/
theorem readBack_narrow (t : Text) : Yaml.readBack false t = t := by
  refine readBack_eq_self_iff.mpr fun hmem => ?_
  have hspecial : t.any (isSpecial false) = true := List.any_eq_true.mpr ⟨_, hmem, by decide⟩
  rw [canBeSingleQuoted, hspecial]
  rfl

mutual

theorem readBack_eq_self (h : ∀ t, Yaml.readBack wide t = t) : ∀ v : Value, v.readBack wide = v
  | .str s => congrArg Value.str (h s)
  | .list vs => congrArg Value.list (readBackAll_eq_self h vs)
  | .map es => congrArg Value.map (readBackEntries_eq_self h es)
  | .null | .bool _ | .int _ | .float _ | .bytes _ | .date _ | .dateTime _ => rfl
  | .pair .. | .set _ => rfl

theorem readBackAll_eq_self (h : ∀ t, Yaml.readBack wide t = t) :
    ∀ vs : List Value, readBackAll wide vs = vs
  | [] => rfl
  | v :: vs => by rw [readBackAll, readBack_eq_self h v, readBackAll_eq_self h vs]

theorem readBackEntries_eq_self (h : ∀ t, Yaml.readBack wide t = t) :
    ∀ es : List (Value × Value), readBackEntries wide es = es
  | [] => rfl
  | (k, v) :: es => by
      rw [readBackEntries, readBack_eq_self h k, readBack_eq_self h v,
        readBackEntries_eq_self h es]

end

/-! ## Writing and reading -/

/-- What is written of a mapping reads as the mapping with what is read back of its texts, unless
one of its keys is too long to be found. -/
theorem read_write (wide : Bool) (hne : es ≠ []) (hsimple : (Value.map es).Simple)
    (hdepth : 2 * depthEntries es < Pen.width)
    (hkeys : ∀ k ∈ keysEntries es, Yaml.readBack wide k = k) :
    Yaml.read ((Form.map .map (formEntries es)).write wide) =
      if keysFitEntries wide es then .ok (.map (readBackEntries wide es))
      else .error .malformed := by
  obtain ⟨w, toks, hwrite, hblock, hclean⟩ := write_eq wide hne hsimple.2 hdepth
  have hread := Node.read_eq hblock fun ch hch => (hclean ch hch).allowed
  rw [Yaml.read, hwrite, hread]
  cases keysFitEntries wide es with
  | true => exact documentValue_node (simple_readBack (.map es) hsimple hkeys)
  | false => rfl

end SourceScan.Value
