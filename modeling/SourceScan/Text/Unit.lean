import SourceScan.Text.Quoted

/-!
# Texts with stray bytes

A file name is a sequence of bytes. Read as UTF-8 it becomes a sequence of text
units: characters, and stray bytes where no character could be read. Each unit
has a code, by which names are ordered; a stray byte is counted among the
surrogate code points, which no character has.
-/

namespace SourceScan

inductive TextUnit where
  | char (c : Char)
  | stray (byte : UInt8)
  deriving DecidableEq, Repr

abbrev RawText := List TextUnit

instance : Inhabited TextUnit := ⟨.char 'A'⟩

namespace TextUnit

def code : TextUnit → Nat
  | .char c => c.toNat
  | .stray b => 0xDC00 + b.toNat

def char? : TextUnit → Option Char
  | .char c => some c
  | .stray _ => none

end TextUnit

class Glyph (α : Type) where
  ofChar : Char → α
  char? : α → Option Char
  code : α → Nat
  char?_ofChar : ∀ c, char? (ofChar c) = some c

instance : Glyph Char := ⟨fun c => c, some, Char.toNat, fun _ => rfl⟩

instance : Glyph TextUnit := ⟨.char, TextUnit.char?, TextUnit.code, fun _ => rfl⟩

namespace Glyph

@[simp] theorem ofChar_inj {α : Type} [Glyph α] {c d : Char} :
    (ofChar c : α) = ofChar d ↔ c = d := by
  refine ⟨fun h => ?_, congrArg _⟩
  have hsame := congrArg char? h
  rwa [char?_ofChar, char?_ofChar, Option.some.injEq] at hsame

@[simp] theorem ofChar_char (c : Char) : (ofChar c : Char) = c := rfl

@[simp] theorem char?_char (c : Char) : char? c = some c := rfl

@[simp] theorem code_char (c : Char) : code c = c.toNat := rfl

end Glyph

namespace RawText

def ofText (s : Text) : RawText := s.map .char

instance : Coe Text RawText := ⟨ofText⟩

instance : Coe String RawText := ⟨fun s => ofText s.toList⟩

def text? : RawText → Option Text
  | [] => some []
  | .char c :: s => (text? s).map (c :: ·)
  | .stray _ :: _ => none

/-- The text with a replacement character for each stray byte. -/
def shown (s : RawText) : Text :=
  s.map fun u => u.char?.getD '\uFFFD'

def lt : RawText → RawText → Bool
  | _, [] => false
  | [], _ :: _ => true
  | u :: us, v :: vs => u.code < v.code || (u.code = v.code && lt us vs)

def quoted (s : RawText) : Text :=
  let quote := Text.quoteFor (s.filterMap TextUnit.char?)
  quote :: (s.flatMap fun
    | .char c => Text.quotedChar quote c
    | .stray b => Text.codeEscape (TextUnit.stray b).code) ++ [quote]

@[simp] theorem text?_ofText (s : Text) : text? (ofText s) = some s := by
  induction s with
  | nil => rfl
  | cons c s ih => simpa [ofText, text?] using ih

theorem ofText_of_text? {s : RawText} {t : Text} (h : text? s = some t) : s = ofText t := by
  induction s generalizing t with
  | nil => simp_all [text?, ofText]
  | cons u s ih =>
      cases u with
      | char c =>
          obtain ⟨r, hr, rfl⟩ := Option.map_eq_some_iff.1 h
          simp [ofText, ih hr]
      | stray b => simp [text?] at h

end RawText

end SourceScan
