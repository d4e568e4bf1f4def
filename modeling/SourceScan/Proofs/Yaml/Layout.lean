import SourceScan.Proofs.Value
import SourceScan.Proofs.Yaml.Integer
import SourceScan.Proofs.Yaml.Pen.Collection

/-!
# Simple values laid out

A simple value is written as a block, in which every scalar reads back.  The block is one of the
node that the value as it reads back has.
-/

namespace SourceScan

open Yaml

def Value.scalar : Value → Tag × Text
  | .null => (.null, "null")
  | .bool b => (.bool, if b then "true" else "false")
  | .int i => (.int, Text.ofInt i)
  | .str s => (.str, s)
  | _ => default

namespace Value

mutual

def form : Value → Form
  | .list vs => .seq .seq (forms vs)
  | .map es => .map .map (formEntries es)
  | v => .scalar v.scalar.1 v.scalar.2

def forms : List Value → List Form
  | [] => []
  | v :: vs => form v :: forms vs

def formEntries : List (Value × Value) → List (Form × Form)
  | [] => []
  | (k, v) :: es => (form k, form v) :: formEntries es

end

mutual

def node : Value → Node
  | .list vs => .seq .seq (nodes vs)
  | .map es => .map .map (nodeEntries es)
  | v => .scalar v.scalar.1 v.scalar.2

def nodes : List Value → List Node
  | [] => []
  | v :: vs => node v :: nodes vs

def nodeEntries : List (Value × Value) → List (Node × Node)
  | [] => []
  | (k, v) :: es => (node k, node v) :: nodeEntries es

end

mutual

def readBack (wide : Bool) : Value → Value
  | .list vs => .list (readBackAll wide vs)
  | .map es => .map (readBackEntries wide es)
  | .str s => .str (Yaml.readBack wide s)
  | v => v

def readBackAll (wide : Bool) : List Value → List Value
  | [] => []
  | v :: vs => readBack wide v :: readBackAll wide vs

def readBackEntries (wide : Bool) : List (Value × Value) → List (Value × Value)
  | [] => []
  | (k, v) :: es => (readBack wide k, readBack wide v) :: readBackEntries wide es

end

mutual

def depth : Value → Nat
  | .list vs => depthAll vs + 1
  | .map es => depthEntries es + 1
  | _ => 1

def depthAll : List Value → Nat
  | [] => 0
  | v :: vs => max (depth v) (depthAll vs)

def depthEntries : List (Value × Value) → Nat
  | [] => 0
  | (_, v) :: es => max (depth v) (depthEntries es)

end

def keyFits (wide : Bool) : Value → Bool
  | .str s => !(Form.str s).isSimpleKey || (onOneLine wide s).length ≤ Lexer.keyLimit
  | _ => true

mutual

def keysFit (wide : Bool) : Value → Bool
  | .list vs => keysFitAll wide vs
  | .map es => keysFitEntries wide es
  | _ => true

def keysFitAll (wide : Bool) : List Value → Bool
  | [] => true
  | v :: vs => keysFit wide v && keysFitAll wide vs

def keysFitEntries (wide : Bool) : List (Value × Value) → Bool
  | [] => true
  | (k, v) :: es => (keyFits wide k && keysFit wide v) && keysFitEntries wide es

end

/-! ## Forms -/

mutual

theorem ofValue_eq : ∀ v : Value, v.Simple → Form.ofValue v = .ok v.form
  | .null, _ | .bool _, _ | .str _, _ => rfl
  | .int i, h => by
      rw [Form.ofValue, intText_of_short h]
      rfl
  | .list vs, h => by
      rw [Form.ofValue, ofValues_eq vs h, form]
      rfl
  | .map es, h => by
      rw [Form.ofValue, ofEntries_eq es h.2, form]
      rfl

theorem ofValues_eq : ∀ vs : List Value, SimpleAll vs → Form.ofValues vs = .ok (forms vs)
  | [], _ => rfl
  | v :: vs, h => by
      rw [Form.ofValues, ofValue_eq v h.1, ofValues_eq vs h.2, forms]
      rfl

theorem ofEntries_eq : ∀ es : List (Value × Value), SimpleEntries es →
    Form.ofEntries es = .ok (formEntries es)
  | [], _ => rfl
  | (k, v) :: es, h => by
      obtain ⟨⟨s, rfl⟩, hv, hes⟩ := h
      rw [Form.ofEntries, ofValue_eq v hv, ofEntries_eq es hes, formEntries]
      rfl

end

/-! ## Layout -/

open Pen

variable {wide underKey short : Bool} {m : Nat} {p : Pen} {tag : Tag} {t : Text} {out : Text}

structure Awaits (m : Nat) (underKey : Bool) (p : Pen) : Prop where
  not_spaced : p.spaced = false
  column : p.fresh = true → p.column = m + 1
  under_key : p.fresh = false → underKey = true

theorem awaits_behindMark (mark : Char) (out : Text) : Awaits m underKey (behindMark mark out m) :=
  ⟨rfl, fun _ => rfl, nofun⟩

theorem awaits_close (s : Text) : Awaits m true (p.close s) := ⟨rfl, nofun, fun _ => rfl⟩

theorem Awaits.settled (h : Awaits m underKey p) (hfresh : p.fresh = false) : Settled p :=
  ⟨h.not_spaced, hfresh⟩

theorem Awaits.toColumn_inner (h : Awaits m underKey p) :
    ∃ out, p.toColumn (m + 2) = atColumn out (m + 2) := by
  cases hfresh : p.fresh with
  | true => exact ⟨_, toColumn_fresh hfresh (h.column hfresh)⟩
  | false => exact ⟨_, toColumn_settled (h.settled hfresh)⟩

theorem lays_plain (htag : Tag.ofPlain t = tag) (hplain : canBePlain wide t = true) (hne : t ≠ [])
    (hm : m + 2 < width) (hp : Awaits m underKey p) :
    Lays wide (.node p.fresh (.scalar tag t)) m true p
      (Form.put wide (some m) underKey false (.scalar tag (RawText.ofText t)) p) := by
  have hlays : Lays wide (.node p.fresh (.scalar tag (Yaml.readBack wide t))) m true p
      (Form.put wide (some m) underKey false (.scalar tag (RawText.ofText t)) p) :=
    lays_scalar (.inr ⟨htag, hplain⟩) (fun _ => hne) hm hp.not_spaced
  rwa [readBack_of_canBePlain hplain] at hlays

theorem lays_str (hm : m + 2 < width) (hp : Awaits m underKey p) :
    Lays wide (.node p.fresh (.scalar .str (Yaml.readBack wide t))) m true p
      (Form.put wide (some m) underKey false (Form.str t) p) := by
  refine lays_scalar (.inl rfl) ?_ hm hp.not_spaced
  rintro htag rfl
  cases htag

theorem ofInt_ne_nil (i : Int) : Text.ofInt i ≠ [] := by
  rw [Text.ofInt_eq]
  exact List.append_ne_nil_of_right_ne_nil _ Numeral.ofNat_ne_nil

/-- The items of a list below its key stand at the column of the key, all others further in. -/
theorem lays_seq {f : Form} {fs : List Form} {n : Node} {ns : List Node}
    (hp : Awaits m underKey p)
    (h : ∀ column ≤ m + 2, (∃ out, p.toColumn column = atColumn out column) →
      Lays wide (.items (n :: ns)) column short (p.toColumn column)
        (Form.putItems wide column (f :: fs) p)) :
    Lays wide (.node p.fresh (.seq .seq (n :: ns))) m short p
      (Form.put wide (some m) underKey false (.seq .seq (f :: fs)) p) := by
  have hput : Form.put wide (some m) underKey false (.seq .seq (f :: fs)) p =
      Form.putItems wide (if underKey && !p.fresh then m else m + 2) (f :: fs) p := rfl
  rw [hput]
  cases hfresh : p.fresh with
  | true =>
      have hitems := lays_seqBeside hfresh (hp.column hfresh) (h (m + 2) le_rfl hp.toColumn_inner)
      simpa [hfresh] using hitems
  | false =>
      have hsettled := hp.settled hfresh
      have hitems := lays_seqBelow hsettled (h m (by omega) ⟨_, toColumn_settled hsettled⟩)
      simpa [hp.under_key hfresh, hfresh] using hitems

theorem lays_mapping {f : Form × Form} {fs : List (Form × Form)} {e : Node × Node}
    {ns : List (Node × Node)} (hp : Awaits m underKey p)
    (h : Lays wide (.entries (e :: ns)) (m + 2) short (p.toColumn (m + 2))
      (Form.putEntries wide (m + 2) (f :: fs) p)) :
    Lays wide (.node p.fresh (.map .map (e :: ns))) m short p
      (Form.put wide (some m) underKey false (.map .map (f :: fs)) p) := by
  exact lays_map hp.not_spaced hp.column h

def behindKey (wide : Bool) (m : Nat) (key : Form) (p : Pen) : Pen :=
  if key.isSimpleKey then (Form.put wide (some m) true true key p).close [':']
  else ((Form.put wide (some m) true false key (p.bullet ['?'])).toColumn m).bullet [':']

theorem lays_entry (out s : Text) {n : Node} {f : Form} (hm : m + 2 < width)
    (h : ∀ q, Awaits m true q → Lays wide (.node q.fresh n) m short q
      (Form.put wide (some m) true false f q)) :
    Lays wide (.entry (.scalar .str (Yaml.readBack wide s), n)) m
      (keyFits wide (.str s) && short) (atColumn out m)
      (Form.put wide (some m) true false f (behindKey wide m (Form.str s) (atColumn out m))) := by
  rw [behindKey]
  cases hkey : (Form.str s).isSimpleKey with
  | true =>
      rw [if_pos rfl, keyFits, hkey, Bool.not_true, Bool.false_or]
      exact lays_simpleKey hkey hm (h _ (awaits_close _))
  | false =>
      have hlays : Lays wide (.node true (.scalar .str (Yaml.readBack wide s))) m true
          (behindMark '?' out m) (Form.put wide (some m) true false (Form.str s) _) :=
        lays_str hm (awaits_behindMark '?' out)
      have hvalue := h (((Form.put wide (some m) true false (Form.str s)
        (behindMark '?' out m)).toColumn m).bullet [':'])
      rw [toColumn_settled hlays.settled, bullet_atColumn] at hvalue
      rw [if_neg (by decide), keyFits, hkey, Bool.not_false, Bool.true_or, bullet_atColumn,
        toColumn_settled hlays.settled, bullet_atColumn]
      refine lays_explicitKey hlays ?_
      rw [toColumn_settled hlays.settled, bullet_atColumn]
      exact hvalue (awaits_behindMark ':' _)

theorem putEntries_cons (key value : Form) (fs : List (Form × Form)) :
    Form.putEntries wide m ((key, value) :: fs) p =
      Form.putEntries wide m fs
        (Form.put wide (some m) true false value (behindKey wide m key (p.toColumn m))) := by
  rw [Form.putEntries, behindKey]

theorem depth_pos (v : Value) : 0 < v.depth := by
  cases v <;> simp [depth]

mutual

theorem lays_node : ∀ (v : Value) (m : Nat) (underKey : Bool) (p : Pen), v.Simple →
    m + 2 * v.depth < width → Awaits m underKey p →
    Lays wide (.node p.fresh (v.readBack wide).node) m (v.keysFit wide) p
      (Form.put wide (some m) underKey false v.form p)
  | .null, _, _, _, _, hm, hp =>
      lays_plain (t := "null") (by cbv) (by cases wide <;> cbv) (by decide) hm hp
  | .bool true, _, _, _, _, hm, hp =>
      lays_plain (t := "true") (by cbv) (by cases wide <;> cbv) (by decide) hm hp
  | .bool false, _, _, _, _, hm, hp =>
      lays_plain (t := "false") (by cbv) (by cases wide <;> cbv) (by decide) hm hp
  | .int i, _, _, _, _, hm, hp =>
      lays_plain (ofPlain_ofInt i) (canBePlain_ofInt wide i) (ofInt_ne_nil i) hm hp
  | .str s, _, _, _, _, hm, hp => lays_str hm hp
  | .list [], _, _, _, _, _, hp => lays_emptySeq hp.not_spaced
  | .list (v :: vs), m, _, p, h, hm, hp => by
      simp only [depth] at hm
      exact lays_seq hp fun column hcolumn hat =>
        lays_items (v :: vs) column p (by simp) h (by omega) hat
  | .map [], _, _, _, _, _, hp => lays_emptyMap hp.not_spaced
  | .map ((k, v) :: es), m, _, p, h, hm, hp => by
      simp only [depth] at hm
      exact lays_mapping hp <|
        lays_entries ((k, v) :: es) (m + 2) p (by simp) h.2 (by omega) hp.toColumn_inner

theorem lays_items : ∀ (vs : List Value) (m : Nat) (p : Pen), vs ≠ [] → SimpleAll vs →
    m + 2 * depthAll vs < width → (∃ out, p.toColumn m = atColumn out m) →
    Lays wide (.items (nodes (readBackAll wide vs))) m (keysFitAll wide vs) (p.toColumn m)
      (Form.putItems wide m (forms vs) p)
  | [v], m, p, _, h, hm, ⟨out, hp⟩ => by
      simp only [depthAll, Nat.max_zero] at hm
      have hnode := lays_node v m false _ h.1 hm (awaits_behindMark '-' out)
      rw [forms, forms, Form.putItems, Form.putItems, hp, bullet_atColumn, keysFitAll, keysFitAll,
        Bool.and_true]
      exact lays_lastItem hnode
  | v :: w :: vs, m, p, _, h, hm, ⟨out, hp⟩ => by
      rw [depthAll] at hm
      have hnode := lays_node v m false _ h.1 (by omega) (awaits_behindMark '-' out)
      have hitems := lays_items (w :: vs) m _ (by simp) h.2 (by omega)
        ⟨_, toColumn_settled hnode.settled⟩
      rw [forms, Form.putItems, hp, bullet_atColumn, keysFitAll]
      exact lays_moreItems hnode hitems

theorem lays_entries : ∀ (es : List (Value × Value)) (m : Nat) (p : Pen), es ≠ [] →
    SimpleEntries es → m + 2 * depthEntries es < width →
    (∃ out, p.toColumn m = atColumn out m) →
    Lays wide (.entries (nodeEntries (readBackEntries wide es))) m (keysFitEntries wide es)
      (p.toColumn m) (Form.putEntries wide m (formEntries es) p)
  | [(k, v)], m, p, _, h, hm, ⟨out, hp⟩ => by
      obtain ⟨⟨s, rfl⟩, hv, -⟩ := h
      simp only [depthEntries, Nat.max_zero] at hm
      have hdepth := depth_pos v
      have hentry := lays_entry out s (by omega) fun q hq => lays_node v m true q hv hm hq
      rw [formEntries, formEntries, putEntries_cons, Form.putEntries, hp, keysFitEntries,
        keysFitEntries, Bool.and_true]
      exact lays_lastEntry hentry
  | (k, v) :: e :: es, m, p, _, h, hm, ⟨out, hp⟩ => by
      obtain ⟨⟨s, rfl⟩, hv, hes⟩ := h
      rw [depthEntries] at hm
      have hdepth := depth_pos v
      have hentry := lays_entry out s (by omega) fun q hq => lays_node v m true q hv (by omega) hq
      have hentries := lays_entries (e :: es) m _ (by simp) hes (by omega)
        ⟨_, toColumn_settled hentry.settled⟩
      rw [formEntries, putEntries_cons, hp, keysFitEntries]
      exact lays_moreEntries hentry hentries

end

/-- A document with a mapping is a block at the edge, and a line end. -/
theorem write_eq (wide : Bool) {es : List (Value × Value)} (hne : es ≠ []) (h : SimpleEntries es)
    (hdepth : 2 * depthEntries es < width) :
    ∃ w toks, (Form.map .map (formEntries es)).write wide = w ++ ['\n'] ∧
      Block (.entries (nodeEntries (readBackEntries wide es))) 0 (keysFitEntries wide es) toks w ∧
      ∀ ch ∈ w, IsClean wide ch := by
  have hstart : Pen.start.toColumn 0 = atColumn [] 0 := rfl
  obtain ⟨w, toks, hw, hsettled, hblock, hclean⟩ : Lays wide _ 0 _ (Pen.start.toColumn 0) _ :=
    lays_entries es 0 Pen.start hne h (by omega) ⟨_, hstart⟩
  refine ⟨w, toks, ?_, hblock, hclean⟩
  have hput : Form.put wide none false false (.map .map (formEntries es)) .start =
      Form.putEntries wide 0 (formEntries es) .start := by
    obtain ⟨e, es, rfl⟩ := List.exists_cons_of_ne_nil hne
    rfl
  have hout : (Form.putEntries wide 0 (formEntries es) .start).out = w.reverse := by
    rw [hw, hstart, atColumn, List.append_nil]
  rw [Form.write, hput, toColumn_settled hsettled, Pen.text, atColumn, hout]
  simp [lineStart]

end Value

end SourceScan
