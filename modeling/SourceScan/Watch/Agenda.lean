/-!
# Agendas

An agenda keeps items by the time at which they are due and hands them out from the
earliest on. It is a binary heap: the item at place `i` is due no later than the
items at places `2 * i + 1` and `2 * i + 2`. Of items that are due at one time, the
shape of the heap decides which one is first.
-/

namespace SourceScan

structure Agenda (α : Type) where
  items : Array (Nat × α)
  deriving Repr

namespace Agenda

variable {α : Type}

def empty : Agenda α := ⟨#[]⟩

instance : Inhabited (Agenda α) := ⟨empty⟩

def size (a : Agenda α) : Nat := a.items.size

def rise (i : Nat) (items : Array (Nat × α)) : Array (Nat × α) :=
  if i = 0 then items
  else
    let above := (i - 1) / 2
    match items[i]?, items[above]? with
    | some x, some y => if x.1 < y.1 then rise above (items.swapIfInBounds i above) else items
    | _, _ => items
termination_by i
decreasing_by omega

/-- Moves the item at a place down to the end of the heap, past the item that is due earlier at each
step, and answers where it got to. -/
def sink (i : Nat) (items : Array (Nat × α)) : Nat × Array (Nat × α) :=
  let left := 2 * i + 1
  if h : left < items.size then
    let below :=
      if h' : left + 1 < items.size then
        -- Of two items that are due at one time the right one is passed.
        if items[left].1 < items[left + 1].1 then left else left + 1
      else left
    sink below (items.swapIfInBounds i below)
  else (i, items)
termination_by items.size - i
decreasing_by
  simp only [Array.size_swapIfInBounds]
  split
  · split <;> omega
  · omega

def push (time : Nat) (x : α) (a : Agenda α) : Agenda α :=
  ⟨rise a.items.size (a.items.push (time, x))⟩

def next? (a : Agenda α) : Option Nat := a.items[0]?.map (·.1)

/-- Takes out the next item. The last item of the heap takes its place, sinks to the end of the heap
and rises from there. -/
def pop? (a : Agenda α) : Option ((Nat × α) × Agenda α) :=
  match a.items[0]? with
  | none => none
  | some first =>
      let rest := (a.items.swapIfInBounds 0 (a.items.size - 1)).pop
      let (i, sunk) := sink 0 rest
      some (first, ⟨rise i sunk⟩)

theorem size_rise (i : Nat) (items : Array (Nat × α)) : (rise i items).size = items.size := by
  fun_induction rise i items <;> simp_all

theorem size_sink (i : Nat) (items : Array (Nat × α)) : (sink i items).2.size = items.size := by
  fun_induction sink i items <;> simp_all

@[simp] theorem size_push (time : Nat) (x : α) (a : Agenda α) :
    (a.push time x).size = a.size + 1 := by
  simp [push, size, size_rise]

theorem size_of_pop? {a b : Agenda α} {x : Nat × α} (h : a.pop? = some (x, b)) :
    b.size + 1 = a.size := by
  unfold pop? at h
  split at h
  · simp at h
  · rename_i first hf
    obtain ⟨hlt, _⟩ := Array.getElem?_eq_some_iff.1 hf
    simp only [Option.some.injEq, Prod.mk.injEq] at h
    obtain ⟨_, rfl⟩ := h
    simp only [size, size_rise, size_sink, Array.size_pop, Array.size_swapIfInBounds]
    omega

end Agenda

end SourceScan
