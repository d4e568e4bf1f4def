/-!
# Texts

A text is a list of characters, so that every function on it is plain recursion.
This module cuts texts apart, trims them and looks for one inside another.
-/

namespace SourceScan

abbrev Text := List Char

namespace Text

instance : Coe String Text := ⟨String.toList⟩

instance : LawfulBEq Text := inferInstance

/-- The pieces between the separators; one more than there are separators. -/
def splitOn {α : Type} [DecidableEq α] (sep : α) (s : List α) : List (List α) :=
  go s [] []
where
  go : List α → List α → List (List α) → List (List α)
    | [], word, words => (word.reverse :: words).reverse
    | c :: cs, word, words =>
        if c = sep then go cs [] (word.reverse :: words) else go cs (c :: word) words

def dropEndWhile {α : Type} (p : α → Bool) (s : List α) : List α :=
  (s.reverse.dropWhile p).reverse

def trim {α : Type} (p : α → Bool) (s : List α) : List α :=
  dropEndWhile p (s.dropWhile p)

def occursIn {α : Type} [DecidableEq α] (needle : List α) : List α → Bool
  | [] => needle.isEmpty
  | c :: cs => needle.isPrefixOf (c :: cs) || occursIn needle cs

def dropPrefix? {α : Type} [DecidableEq α] : List α → List α → Option (List α)
  | [], s => some s
  | _ :: _, [] => none
  | p :: ps, c :: cs => if p = c then dropPrefix? ps cs else none

def cutWhere {α : Type} (p : α → Bool) : List α → Option (List α × α × List α)
  | [] => none
  | c :: cs =>
      if p c then some ([], c, cs)
      else (cutWhere p cs).map fun (before, d, after) => (c :: before, d, after)

def ofNat (n : Nat) : Text := Nat.toDigits 10 n

def ofInt : Int → Text
  | .ofNat n => ofNat n
  | .negSucc n => '-' :: ofNat (n + 1)

def ofNatPadded (base width n : Nat) : Text :=
  let digits := Nat.toDigits base n
  List.replicate (width - digits.length) '0' ++ digits

def asciiUpper (s : Text) : Text := s.map Char.toUpper

theorem dropPrefix?_eq_some {α : Type} [DecidableEq α] {p s r : List α} :
    dropPrefix? p s = some r ↔ s = p ++ r := by
  induction p generalizing s with
  | nil => simp [dropPrefix?]
  | cons c p ih =>
      cases s with
      | nil => simp [dropPrefix?]
      | cons d s =>
          by_cases h : c = d
          · simp [dropPrefix?, h, ih]
          · simp [dropPrefix?, h, Ne.symm h]

theorem eq_of_cutWhere {α : Type} {p : α → Bool} {s before after : List α} {d : α}
    (h : cutWhere p s = some (before, d, after)) :
    s = before ++ d :: after ∧ p d = true ∧ ∀ c ∈ before, p c = false := by
  induction s generalizing before with
  | nil => simp [cutWhere] at h
  | cons c cs ih =>
      simp only [cutWhere] at h
      split at h
      · simp only [Option.some.injEq, Prod.mk.injEq] at h
        obtain ⟨rfl, rfl, rfl⟩ := h
        simp_all
      · obtain ⟨⟨b, d', r⟩, hr, he⟩ := Option.map_eq_some_iff.1 h
        simp only [Prod.mk.injEq] at he
        obtain ⟨rfl, rfl, rfl⟩ := he
        obtain ⟨rfl, hd, hb⟩ := ih hr
        simp_all

end Text

end SourceScan
