import SourceScan.Value

/-!
# Digits written and read

The digits that a number is written with have its value again, in every base up to
sixteen, and in base ten no number is written with a zero in front.
-/

namespace SourceScan

namespace Numeral

theorem ofDigits_append (base : Nat) (ds es : List Nat) :
    ofDigits base (ds ++ es) = es.foldl (fun n d => base * n + d) (ofDigits base ds) :=
  List.foldl_append

theorem ofDigits_zeros (base count : Nat) (ds : List Nat) :
    ofDigits base (List.replicate count 0 ++ ds) = ofDigits base ds := by
  induction count with
  | zero => rfl
  | succ count ih => simpa [List.replicate_succ, ofDigits] using ih

structure Spells (base n : Nat) (ds : List Nat) : Prop where
  lt_base : ∀ d ∈ ds, d < base
  value : ofDigits base ds = n

theorem exists_toDigits {base : Nat} (hbase : 1 < base) (n : Nat) :
    ∃ ds, Nat.toDigits base n = ds.map Nat.digitChar ∧ Spells base n ds ∧
      (0 < n → ∃ d more, ds = d :: more ∧ 0 < d) := by
  induction n using Nat.strongRecOn with
  | ind n ih =>
      rw [Nat.toDigits_eq_if hbase]
      by_cases hlt : n < base
      · refine ⟨[n], by simp [hlt], ⟨by simpa using hlt, by simp [ofDigits]⟩, ?_⟩
        intro hpos
        exact ⟨n, [], rfl, hpos⟩
      · have hge : base ≤ n := Nat.not_lt.mp hlt
        obtain ⟨ds, hds, hspells, hlead⟩ := ih (n / base) (Nat.div_lt_self (by omega) hbase)
        refine ⟨ds ++ [n % base], by simp [hlt, hds], ⟨?_, ?_⟩, ?_⟩
        · intro d hd
          rcases List.mem_append.mp hd with hd | hd
          · exact hspells.lt_base d hd
          · rw [List.mem_singleton.mp hd]
            exact Nat.mod_lt n (by omega)
        · rw [ofDigits_append_singleton, hspells.value, Nat.div_add_mod]
        · intro _
          obtain ⟨d, more, rfl, hd⟩ := hlead (Nat.div_pos hge (by omega))
          exact ⟨d, more ++ [n % base], rfl, hd⟩

end Numeral

namespace Text

theorem exists_ofNatPadded {base width n : Nat} (hbase : 1 < base) (hwidth : 0 < width)
    (hn : n < Nat.pow base width) :
    ∃ ds, ofNatPadded base width n = ds.map Nat.digitChar ∧ ds.length = width ∧
      Numeral.Spells base n ds := by
  obtain ⟨ds, hds, hspells, -⟩ := Numeral.exists_toDigits hbase n
  have hlength : ds.length ≤ width := by
    have := (Nat.length_toDigits_le_iff hbase hwidth).mpr hn
    simpa [hds] using this
  refine ⟨List.replicate (width - ds.length) 0 ++ ds, ?_, ?_, ?_, ?_⟩
  · simp [ofNatPadded, hds]
  · simp only [List.length_append, List.length_replicate]
    omega
  · intro d hd
    rcases List.mem_append.mp hd with hd | hd
    · rw [(List.mem_replicate.mp hd).2]
      omega
    · exact hspells.lt_base d hd
  · rw [Numeral.ofDigits_zeros, hspells.value]

end Text

/-! ## Base ten -/

namespace Numeral

variable {n : Nat}

theorem isDigit_ofNat {c : Char} (hc : c ∈ Text.ofNat n) : c.isDigit = true :=
  Nat.isDigit_of_mem_toDigits (by decide) (by decide) hc

theorem ofNat_ne_nil : Text.ofNat n ≠ [] := Nat.toDigits_ne_nil

theorem toNat_digitChar {d : Nat} (hd : d < 10) : (Nat.digitChar d).toNat - 0x30 = d := by
  revert d
  decide

theorem digitChar_ne_zero {d : Nat} (hd : d < 10) : 0 < d → Nat.digitChar d ≠ '0' := by
  revert d
  decide

theorem isDigit_digitChar {d : Nat} (hd : d < 10) : (Nat.digitChar d).isDigit = true := by
  revert d
  decide

theorem digitsValue_map {ds : List Nat} (h : Spells 10 n ds) :
    digitsValue (ds.map Nat.digitChar) = n := by
  have hback : (ds.map Nat.digitChar).map (fun c => c.toNat - 0x30) = ds := by
    rw [List.map_map]
    exact (List.map_congr_left fun d hd => toNat_digitChar (h.lt_base d hd)).trans
      (List.map_id' ds)
  rw [digitsValue, hback, h.value]

theorem digitsValue_ofNat (n : Nat) : digitsValue (Text.ofNat n) = n := by
  obtain ⟨ds, hds, hspells, -⟩ := exists_toDigits (by decide : 1 < 10) n
  rw [Text.ofNat, hds, digitsValue_map hspells]

theorem head_ofNat (hn : 0 < n) : ∃ c more, Text.ofNat n = c :: more ∧ c ≠ '0' := by
  obtain ⟨ds, hds, hspells, hlead⟩ := exists_toDigits (by decide : 1 < 10) n
  obtain ⟨d, more, rfl, hd⟩ := hlead hn
  exact ⟨d.digitChar, more.map Nat.digitChar, hds,
    digitChar_ne_zero (hspells.lt_base d (by simp)) hd⟩

theorem length_ofNat_le {count : Nat} (hcount : 0 < count) (hn : n < Nat.pow 10 count) :
    (Text.ofNat n).length ≤ count :=
  (Nat.length_toDigits_le_iff (by decide) hcount).mpr hn

end Numeral

theorem Text.ofInt_eq (i : Int) :
    Text.ofInt i = (if i < 0 then ['-'] else []) ++ Text.ofNat i.natAbs := by
  cases i with
  | ofNat n => simp [Text.ofInt]
  | negSucc n => simp [Text.ofInt, Int.negSucc_lt_zero]

theorem Text.ofNat_forall {n : Nat} {P : Char → Prop} (h : ∀ d < 10, P (Nat.digitChar d)) :
    ∀ c ∈ ofNat n, P c := by
  obtain ⟨ds, hds, hspells, -⟩ := Numeral.exists_toDigits (by decide : 1 < 10) n
  intro c hc
  rw [ofNat, hds] at hc
  obtain ⟨d, hd, rfl⟩ := List.mem_map.mp hc
  exact h d (hspells.lt_base d hd)

theorem Text.ofInt_forall {i : Int} {P : Char → Prop} (h : ∀ d < 10, P (Nat.digitChar d))
    (hminus : P '-') : ∀ c ∈ ofInt i, P c := by
  intro c hc
  rw [ofInt_eq] at hc
  rcases List.mem_append.mp hc with hc | hc
  · split at hc
    · rwa [List.mem_singleton.mp hc]
    · cases hc
  · exact ofNat_forall h c hc

end SourceScan
