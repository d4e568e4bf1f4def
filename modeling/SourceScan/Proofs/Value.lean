import SourceScan.Proofs.Report.Payload

/-!
# Values that every file format holds

Null, truth values, texts and integers that are not too long are written the same in JSON
and in YAML, and so are lists of such values and maps from distinct texts to them.
-/

namespace SourceScan

namespace Value

theorem sameKey_str {v : Value} {s : Text} : sameKey v (.str s) = true ↔ v = .str s := by
  cases v <;> simp [sameKey, int?]

theorem putEntry_new {s : Text} {v : Value} {es : List (Value × Value)}
    (h : .str s ∉ es.map (·.1)) : putEntry (.str s) v es = es ++ [(.str s, v)] := by
  induction es with
  | nil => rfl
  | cons e es ih =>
      simp only [List.map_cons, List.mem_cons, not_or] at h
      have hother : ¬sameKey e.1 (.str s) = true := by
        rw [sameKey_str]
        exact Ne.symm h.1
      rw [putEntry, if_neg hother, ih h.2]
      rfl

mutual

/-- The value is made of what JSON and YAML both have. -/
def Simple : Value → Prop
  | .null | .bool _ | .str _ => True
  | .int i => Short i
  | .list vs => SimpleAll vs
  | .map es => (es.map (·.1)).Nodup ∧ SimpleEntries es
  | _ => False

def SimpleAll : List Value → Prop
  | [] => True
  | v :: vs => Simple v ∧ SimpleAll vs

def SimpleEntries : List (Value × Value) → Prop
  | [] => True
  | (k, v) :: es => (∃ s, k = .str s) ∧ Simple v ∧ SimpleEntries es

end

theorem simpleAll_iff {vs : List Value} : SimpleAll vs ↔ ∀ v ∈ vs, v.Simple := by
  induction vs with
  | nil => simp [SimpleAll]
  | cons v vs ih => simp [SimpleAll, ih]

theorem simpleEntries_iff {es : List (Value × Value)} :
    SimpleEntries es ↔ ∀ e ∈ es, (∃ s, e.1 = .str s) ∧ e.2.Simple := by
  induction es with
  | nil => simp [SimpleEntries]
  | cons e es ih =>
      obtain ⟨k, v⟩ := e
      simp [SimpleEntries, ih, and_assoc]

theorem intText_of_short {i : Int} (h : Short i) : intText i = .ok (Text.ofInt i) :=
  if_neg (Nat.not_le.2 h)

end Value

namespace Document

mutual

def value : Document → Value
  | .str s => .str s.shown
  | .int i => .int i
  | .list items => .list (valueItems items)
  | .object members => .map (valueMembers members)

def valueItems : List Document → List Value
  | [] => []
  | d :: ds => value d :: valueItems ds

def valueMembers : List (Text × Document) → List (Value × Value)
  | [] => []
  | (key, d) :: ds => (.str key, value d) :: valueMembers ds

end

theorem valueItems_eq (ds : List Document) : valueItems ds = ds.map value := by
  induction ds with
  | nil => rfl
  | cons d ds ih => simp [valueItems, ih]

end Document

theorem RawText.ofText_shown {s : RawText} (h : s.Whole) : ofText s.shown = s := by
  induction s with
  | nil => rfl
  | cons u s ih =>
      rw [whole_cons] at h
      cases u with
      | char c =>
          have ih := ih h.2
          simp only [shown, ofText, List.map_cons] at ih ⊢
          rw [ih]
          rfl
      | stray b => cases h.1

theorem RawText.shown_ofText (s : Text) : shown (ofText s) = s := by
  induction s with
  | nil => rfl
  | cons c s ih =>
      simp only [shown, ofText, List.map_cons] at ih ⊢
      rw [ih]
      rfl

end SourceScan
