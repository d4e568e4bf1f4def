import SourceScan.Proofs.Json.RoundTrip
import SourceScan.Text.Blank
import Mathlib.Data.List.DropRight

/-!
# Texts of ASCII characters

A text of ASCII characters without carriage returns is the same after it was a file.  Values are
written in JSON as such a text.
-/

namespace SourceScan

variable {c : Char} {s t : Text}

/-- The character is one byte in a file, and no line end that is changed on the way back. -/
def IsPortable (c : Char) : Prop := c.toNat < 0x80 ∧ c ≠ '\r'

def Portable (s : Text) : Prop := ∀ c ∈ s, IsPortable c

@[simp] theorem portable_nil : Portable [] := by simp [Portable]

@[simp] theorem portable_cons : Portable (c :: s) ↔ IsPortable c ∧ Portable s :=
  List.forall_mem_cons

@[simp] theorem portable_append : Portable (s ++ t) ↔ Portable s ∧ Portable t :=
  List.forall_mem_append

theorem universalNewlines_eq (h : Portable s) : Text.universalNewlines s = s := by
  have hgo : ∀ s out, Portable s →
      Text.universalNewlines.go s out = out.reverse ++ s := by
    intro s
    induction s with
    | nil =>
        intro out _
        rw [Text.universalNewlines.go, List.append_nil]
    | cons c s ih =>
        intro out h
        obtain ⟨hc, hs⟩ := portable_cons.mp h
        rw [Text.universalNewlines.go, if_neg hc.2, ih _ hs]
        · simp
        · rintro cs rfl -
          exact hc.2 rfl
  exact hgo s [] h

theorem isEmpty_strip (hc : Text.isBlank c = false) : (Text.strip (c :: s)).isEmpty = false := by
  rw [Text.strip, Text.trim, List.dropWhile_cons_of_neg (by rw [hc]; decide)]
  have hnil : ¬(c :: s).rdropWhile Text.isBlank = [] := by
    rw [List.rdropWhile_eq_nil_iff]
    exact fun hall => by simpa [hc] using hall c (by simp)
  exact List.isEmpty_eq_false_iff.mpr hnil

namespace Utf8

theorem toNat_toUInt8 (hc : c.toNat < 0x80) : c.toNat.toUInt8.toNat = c.toNat := by
  rw [Nat.toUInt8, UInt8.toNat_ofNat']
  omega

theorem front_ascii (hc : c.toNat < 0x80) (rest : Bytes) :
    front c.toNat.toUInt8 rest = .char c rest := by
  have hlow : c.toNat.toUInt8 < 0x80 := by
    rw [UInt8.lt_iff_toNat_lt, toNat_toUInt8 hc]
    exact hc
  rw [front.eq_def, if_pos hlow, toNat_toUInt8 hc, Char.ofNat_toNat]

theorem encode_cons (hc : c.toNat < 0x80) : encode (c :: s) = c.toNat.toUInt8 :: encode s := by
  rw [encode, List.flatMap_cons, encodeChar, if_pos hc]
  rfl

theorem decode_encode (h : Portable s) : decode (encode s) = .ok s := by
  have hgo : ∀ s position out, Portable s →
      decode.go (encode s) position out = .ok (out.reverse ++ s) := by
    intro s
    induction s with
    | nil =>
        intro position out _
        rw [encode, List.flatMap_nil, decode.go, List.append_nil]
    | cons c s ih =>
        intro position out h
        obtain ⟨⟨hc, -⟩, hs⟩ := portable_cons.mp h
        rw [encode_cons hc, decode.go]
        split
        · next d rest hfront =>
            rw [front_ascii hc] at hfront
            cases hfront
            rw [ih _ _ hs]
            simp
        · next hfront =>
            rw [front_ascii hc] at hfront
            cases hfront
  exact hgo s 0 [] h

end Utf8

namespace Json

theorem portable_unicodeEscape {n : Nat} (hn : n < 0x10000) :
    Portable (unicodeEscape n) := by
  obtain ⟨ds, hds, -, hspells⟩ :=
    Text.exists_ofNatPadded (by decide : 1 < 16) (by decide : 0 < 4) hn
  have hdigit : ∀ d < 16, IsPortable (Nat.digitChar d) := by
    unfold IsPortable
    decide
  have hdigits : Portable (ds.map Nat.digitChar) := by
    intro c hc
    obtain ⟨d, hd, rfl⟩ := List.mem_map.mp hc
    exact hdigit d (hspells.lt_base d hd)
  rw [unicodeEscape, hds]
  simpa [IsPortable] using hdigits

theorem portable_asciiChar (c : Char) : Portable (asciiChar c) := by
  have hvalid : c.toNat < 0xD800 ∨ 0xDFFF < c.toNat ∧ c.toNat < 0x110000 := c.valid
  unfold asciiChar
  cases hshort : shortEscape? c with
  | some e =>
      obtain ⟨x, rfl, -, hx⟩ := exists_shortEscape hshort
      have hletter : IsPortable x := by
        unfold simpleEscape? at hx
        split at hx
        all_goals first | exact ⟨by decide, by decide⟩ | cases hx
      simpa [IsPortable] using hletter
  | none =>
      dsimp only [Option.getD_none]
      split
      · next hplain =>
          simp only [Bool.and_eq_true, decide_eq_true_eq] at hplain
          intro d hd
          rw [List.mem_singleton.mp hd]
          refine ⟨by omega, ?_⟩
          rintro rfl
          exact absurd hplain.1 (by decide)
      · split
        · next hunit => exact portable_unicodeEscape hunit
        · exact portable_append.mpr
            ⟨portable_unicodeEscape (by omega), portable_unicodeEscape (by omega)⟩

theorem portable_asciiString (s : Text) : Portable (asciiString s) := by
  have hinner : Portable (s.flatMap asciiChar) := by
    intro c hc
    obtain ⟨d, -, hc⟩ := List.mem_flatMap.mp hc
    exact portable_asciiChar d c hc
  simp [asciiString, hinner, IsPortable]

theorem portable_ofInt (i : Int) : Portable (Text.ofInt i) := by
  have hdigit : ∀ d < 10, IsPortable (Nat.digitChar d) := by
    unfold IsPortable
    decide
  exact Text.ofInt_forall hdigit ⟨by decide, by decide⟩

theorem portable_lineBreak (depth : Nat) : Portable (Layout.lineBreak id depth) := by
  have hspaces : Portable (List.replicate (2 * depth) ' ') := by
    intro c hc
    rw [(List.mem_replicate.mp hc).2]
    exact ⟨by decide, by decide⟩
  simpa [Layout.lineBreak, IsPortable] using hspaces

/-! ## Layouts -/

open Value (SimpleAll SimpleEntries)

mutual

theorem portable_pretty {v : Value} (h : v.Simple) {l : Layout Char} (hl : layout v = .ok l)
    (depth : Nat) : Portable (l.pretty id depth) := by
  cases v with
  | null =>
      cases hl
      simp [Layout.pretty, IsPortable]
  | bool b =>
      cases hl
      cases b <;> simp [Layout.pretty, IsPortable]
  | int i =>
      obtain ⟨text, htext, hl⟩ := ok_of_bind hl
      cases hl
      rw [intAtom, Value.intText_of_short h] at htext
      cases htext
      exact portable_ofInt i
  | str s =>
      cases hl
      exact portable_asciiString s
  | list vs =>
      obtain ⟨ls, hls, hl⟩ := ok_of_bind hl
      cases hl
      have hitems := portable_prettyItems h hls (depth + 1)
      cases ls with
      | nil => simp [Layout.pretty, IsPortable]
      | cons l ls =>
          simp_all [Layout.prettyItems, Layout.pretty, portable_lineBreak, IsPortable]
  | map es =>
      obtain ⟨ls, hls, hl⟩ := ok_of_bind hl
      cases hl
      have hmembers := portable_prettyMembers h.2 hls (depth + 1)
      cases ls with
      | nil => simp [Layout.pretty, IsPortable]
      | cons l ls =>
          simp_all [Layout.prettyMembers, Layout.pretty, portable_lineBreak, IsPortable]
  | float | bytes | date | dateTime | pair | set => cases h

theorem portable_prettyItems {vs : List Value} (h : SimpleAll vs) {ls : List (Layout Char)}
    (hls : layoutAll vs = .ok ls) (depth : Nat) :
    Portable (Layout.prettyItems id depth ls) := by
  cases vs with
  | nil =>
      cases hls
      exact portable_nil
  | cons v vs =>
      obtain ⟨l, hl, hls⟩ := ok_of_bind hls
      obtain ⟨more, hmore, hls⟩ := ok_of_bind hls
      cases hls
      simp [Layout.prettyItems, portable_lineBreak, portable_pretty h.1 hl,
        portable_prettyItems h.2 hmore, IsPortable]

theorem portable_prettyMembers {es : List (Value × Value)} (h : SimpleEntries es)
    {ls : List (Text × Layout Char)} (hls : layoutEntries es = .ok ls) (depth : Nat) :
    Portable (Layout.prettyMembers id depth ls) := by
  cases es with
  | nil =>
      cases hls
      exact portable_nil
  | cons e es =>
      obtain ⟨k, v⟩ := e
      obtain ⟨⟨s, rfl⟩, hv, hes⟩ := h
      obtain ⟨key, hkey, hls⟩ := ok_of_bind hls
      obtain ⟨l, hl, hls⟩ := ok_of_bind hls
      obtain ⟨more, hmore, hls⟩ := ok_of_bind hls
      cases hls
      cases hkey
      simp [Layout.prettyMembers, portable_lineBreak, portable_pretty hv hl,
        portable_prettyMembers hes hmore, portable_asciiString, IsPortable]

end

theorem write_map {e : Value × Value} {es : List (Value × Value)}
    (hwrite : write (.map (e :: es)) = .ok t) : ∃ rest, t = '\x7b' :: rest := by
  obtain ⟨l, hl, hwrite⟩ := ok_of_bind hwrite
  obtain ⟨ms, hms, hl⟩ := ok_of_bind hl
  obtain ⟨key, -, hms⟩ := ok_of_bind hms
  obtain ⟨first, -, hms⟩ := ok_of_bind hms
  obtain ⟨more, -, hms⟩ := ok_of_bind hms
  cases hms
  cases hl
  cases hwrite
  exact ⟨_, rfl⟩

theorem portable_write {v : Value} (h : v.Simple) (hwrite : write v = .ok t) : Portable t := by
  obtain ⟨l, hl, hwrite⟩ := ok_of_bind hwrite
  cases hwrite
  exact portable_pretty h hl 0

end Json

end SourceScan
