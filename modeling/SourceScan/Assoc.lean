/-!
# Keyed lists

A list of pairs in which each key stands once, in the order in which the keys came
first.
-/

namespace SourceScan.Assoc

variable {α β : Type} [DecidableEq α]

def get? (key : α) (entries : List (α × β)) : Option β :=
  (entries.find? (·.1 = key)).map (·.2)

def put (key : α) (value : β) : List (α × β) → List (α × β)
  | [] => [(key, value)]
  | e :: es => if e.1 = key then (key, value) :: es else e :: put key value es

def erase (key : α) (entries : List (α × β)) : List (α × β) := entries.filter (·.1 ≠ key)

@[simp] theorem get?_put (key other : α) (value : β) (entries : List (α × β)) :
    get? other (put key value entries) =
      if key = other then some value else get? other entries := by
  induction entries with
  | nil => by_cases h : key = other <;> simp [put, get?, h]
  | cons e es ih =>
      simp only [get?] at ih
      by_cases he : e.1 = key <;> by_cases h : key = other <;> by_cases ho : e.1 = other <;>
        simp_all [put, get?]

@[simp] theorem get?_erase (key other : α) (entries : List (α × β)) :
    get? other (erase key entries) = if key = other then none else get? other entries := by
  induction entries with
  | nil => simp [get?, erase]
  | cons e es ih =>
      simp only [get?, erase] at ih
      by_cases he : e.1 = key <;> by_cases h : key = other <;> by_cases ho : e.1 = other <;>
        simp_all [get?, erase]

theorem mem_keys_put (key other : α) (value : β) (entries : List (α × β)) :
    other ∈ (put key value entries).map (·.1) ↔ other = key ∨ other ∈ entries.map (·.1) := by
  induction entries with
  | nil => simp [put]
  | cons e es ih =>
      by_cases h : e.1 = key
      · simp [put, h]
      · simp only [put, h, if_false, List.map_cons, List.mem_cons, ih]
        exact or_left_comm

theorem nodup_keys_put {entries : List (α × β)} (h : (entries.map (·.1)).Nodup) (key : α)
    (value : β) : ((put key value entries).map (·.1)).Nodup := by
  induction entries with
  | nil => simp [put]
  | cons e es ih =>
      rw [List.map_cons, List.nodup_cons] at h
      by_cases he : e.1 = key
      · rw [put, if_pos he, List.map_cons, List.nodup_cons]
        exact he ▸ h
      · rw [put, if_neg he, List.map_cons, List.nodup_cons, mem_keys_put]
        exact ⟨fun hmem => hmem.elim he h.1, ih h.2⟩

/-- Each key stands once, so it is found with the value that it stands with. -/
theorem get?_eq_some_iff {entries : List (α × β)} (h : (entries.map (·.1)).Nodup) {key : α}
    {value : β} : get? key entries = some value ↔ (key, value) ∈ entries := by
  induction entries with
  | nil => simp [get?]
  | cons e es ih =>
      rw [List.map_cons, List.nodup_cons] at h
      by_cases he : e.1 = key
      · have hout : (key, value) ∉ es := fun hmem => h.1 (he ▸ List.mem_map_of_mem hmem)
        simp [get?, he, hout, Prod.ext_iff, eq_comm]
      · have hne : (key, value) ≠ e := fun heq => he (heq ▸ rfl)
        simpa [get?, he, hne] using ih h.2

end SourceScan.Assoc
