import SourceScan.Proofs.Yaml.Meaning
import SourceScan.Settings.Save

/-!
# Settings whose fields have the declared types

Such settings are a simple value, as which every file format can hold them, and they are the
settings that this value spells out.
-/

namespace SourceScan

open Value (Short)
open Yaml (canBeSingleQuoted)

inductive Declared where
  | integer
  | text
  | texts
  | flag
  /-- Texts, each with a truth value. -/
  | flags
  /-- An integer or nothing. -/
  | limit
  deriving DecidableEq

def Declared.Has : Declared → Value → Prop
  | .integer, v => ∃ i, v = .int i ∧ Short i
  | .text, v => ∃ s, v = .str s
  | .texts, v => ∃ l : List Text, v = .list (l.map .str)
  | .flag, v => ∃ b, v = .bool b
  | .flags, v => ∃ l : List (Text × Bool), (l.map (·.1)).Nodup ∧
      v = .map (l.map fun e => (.str e.1, .bool e.2))
  | .limit, v => v = .null ∨ ∃ i, v = .int i ∧ Short i

namespace Declared

variable {type : Declared} {v : Value}

theorem simple (h : type.Has v) : v.Simple := by
  cases type with
  | integer =>
      obtain ⟨i, rfl, hi⟩ := h
      exact hi
  | text =>
      obtain ⟨s, rfl⟩ := h
      trivial
  | texts =>
      obtain ⟨l, rfl⟩ := h
      rw [Value.Simple, Value.simpleAll_iff]
      intro v hv
      obtain ⟨s, -, rfl⟩ := List.mem_map.mp hv
      trivial
  | flag =>
      obtain ⟨b, rfl⟩ := h
      trivial
  | flags =>
      obtain ⟨l, hnodup, rfl⟩ := h
      refine ⟨?_, Value.simpleEntries_iff.mpr fun e he => ?_⟩
      · have hkeys : (l.map fun e => (Value.str e.1, Value.bool e.2)).map (·.1) =
            (l.map (·.1)).map .str := by simp
        rw [hkeys]
        exact hnodup.map fun s t hst => Value.str.inj hst
      · obtain ⟨e, -, rfl⟩ := List.mem_map.mp he
        exact ⟨⟨_, rfl⟩, trivial⟩
  | limit =>
      rcases h with rfl | ⟨i, rfl, hi⟩
      · trivial
      · exact hi

theorem depth_le (h : type.Has v) : v.depth ≤ 2 := by
  cases type with
  | integer =>
      obtain ⟨i, rfl, -⟩ := h
      exact Nat.le_succ 1
  | text =>
      obtain ⟨s, rfl⟩ := h
      exact Nat.le_succ 1
  | texts =>
      obtain ⟨l, rfl⟩ := h
      refine Nat.succ_le_succ (Value.depthAll_le fun v hv => ?_)
      obtain ⟨s, -, rfl⟩ := List.mem_map.mp hv
      exact le_rfl
  | flag =>
      obtain ⟨b, rfl⟩ := h
      exact Nat.le_succ 1
  | flags =>
      obtain ⟨l, -, rfl⟩ := h
      refine Nat.succ_le_succ ?_
      induction l with
      | nil => exact Nat.zero_le 1
      | cons e l ih => exact max_le le_rfl ih
  | limit =>
      rcases h with rfl | ⟨i, rfl, -⟩ <;> exact Nat.le_succ 1

theorem keys_eq (h : type.Has v) (htype : type ≠ .flags) : v.keys = [] := by
  cases type with
  | integer =>
      obtain ⟨i, rfl, -⟩ := h
      rfl
  | text =>
      obtain ⟨s, rfl⟩ := h
      rfl
  | texts =>
      obtain ⟨l, rfl⟩ := h
      rw [List.eq_nil_iff_forall_not_mem]
      intro k hk
      obtain ⟨v, hv, hk⟩ := Value.mem_keysAll.mp hk
      obtain ⟨s, -, rfl⟩ := List.mem_map.mp hv
      cases hk
  | flag =>
      obtain ⟨b, rfl⟩ := h
      rfl
  | flags => exact absurd rfl htype
  | limit => rcases h with rfl | ⟨i, rfl, -⟩ <;> rfl

end Declared

/-! ## Sections -/

namespace Field

variable {α : Type} {fields : List (Field α)} {x : α} {types : List Declared}

def Typed (types : List Declared) (fields : List (Field α)) (x : α) : Prop :=
  List.Forall₂ (fun type f => type.Has (f.get x)) types fields

theorem Typed.has (h : Typed types fields x) {f : Field α} (hf : f ∈ fields) :
    ∃ type, Declared.Has type (f.get x) := by
  induction h with
  | nil => cases hf
  | cons hfirst _ ih =>
      rcases List.mem_cons.mp hf with rfl | hf
      · exact ⟨_, hfirst⟩
      · exact ih hf

theorem Typed.simple (h : Typed types fields x) (hnames : (fields.map (·.name)).Nodup) :
    (toValue fields x).Simple := by
  have hkeys : (fields.map fun f => (Value.str f.name, f.get x)).map (·.1) =
      (fields.map (·.name)).map .str := by simp
  refine ⟨?_, Value.simpleEntries_iff.mpr fun e he => ?_⟩
  · rw [hkeys]
    exact hnames.map fun s t hst => Value.str.inj hst
  · obtain ⟨f, hf, rfl⟩ := List.mem_map.mp he
    obtain ⟨type, htype⟩ := h.has hf
    exact ⟨⟨_, rfl⟩, Declared.simple htype⟩

theorem Typed.depth_le (h : Typed types fields x) : (toValue fields x).depth ≤ 3 := by
  refine Nat.succ_le_succ ?_
  induction h with
  | nil => exact Nat.zero_le 2
  | cons hfirst _ ih => exact max_le (Declared.depth_le hfirst) ih

theorem mem_keys {k : Text} : k ∈ (toValue fields x).keys ↔
    k ∈ fields.map (·.name) ∨ ∃ f ∈ fields, k ∈ (f.get x).keys := by
  induction fields with
  | nil => simp [toValue, Value.keys, Value.keysEntries]
  | cons f fields ih =>
      have hcons : (toValue (f :: fields) x).keys =
          f.name :: (f.get x).keys ++ (toValue fields x).keys := rfl
      simp only [hcons, List.cons_append, List.mem_cons, List.mem_append, ih, List.map_cons,
        exists_eq_or_imp]
      tauto

end Field

/-! ## All settings -/

namespace Settings

structure Typed (s : Settings) : Prop where
  scanner : Field.Typed [.integer, .integer, .text, .texts, .texts, .flag, .flag, .flags, .flag,
    .limit] ScannerSettings.fields s.scanner
  watch : Field.Typed [.integer, .flag] WatchSettings.fields s.watch
  logging : Field.Typed [.text, .text] LogSettings.fields s.logging

theorem lt_pow_of_lt {n few many : Nat} (hn : n < Nat.pow 10 few) (hle : few ≤ many) :
    n < Nat.pow 10 many :=
  Nat.lt_of_lt_of_le hn (Nat.pow_le_pow_right (by decide) hle)

theorem short_of_small {i : Int} (h : i.natAbs < Nat.pow 10 8) : Short i :=
  lt_pow_of_lt h (by decide)

theorem has_texts (l : List String) : Declared.texts.Has (Value.texts l) :=
  ⟨l.map String.toList, by rw [Value.texts, List.map_map]; rfl⟩

def excluding (l : List (Text × Bool)) : Settings :=
  ⟨{ ScannerSettings.standard with hostExcludes := .map (l.map fun e => (.str e.1, .bool e.2)) },
    .standard, .standard⟩

theorem typed_excluding {l : List (Text × Bool)} (h : (l.map (·.1)).Nodup) :
    (excluding l).Typed where
  scanner := .cons ⟨_, rfl, short_of_small (by decide)⟩ <|
    .cons ⟨_, rfl, short_of_small (by decide)⟩ <| .cons ⟨_, rfl⟩ <| .cons (has_texts _) <|
    .cons ⟨[], rfl⟩ <| .cons ⟨_, rfl⟩ <| .cons ⟨_, rfl⟩ <| .cons ⟨l, h, rfl⟩ <| .cons ⟨_, rfl⟩ <|
    .cons (.inl rfl) .nil
  watch := .cons ⟨_, rfl, short_of_small (by decide)⟩ (.cons ⟨_, rfl⟩ .nil)
  logging := .cons ⟨_, rfl⟩ (.cons ⟨_, rfl⟩ .nil)

def entries (s : Settings) : List (Value × Value) :=
  [(.text "scanner", Field.toValue ScannerSettings.fields s.scanner),
   (.text "watch", Field.toValue WatchSettings.fields s.watch),
   (.text "logging", Field.toValue LogSettings.fields s.logging)]

theorem toValue_eq (s : Settings) : s.toValue = .map s.entries := rfl

theorem ofEntries_entries (s : Settings) : ofEntries s.entries = .ok s := rfl

variable {s : Settings} {k : Text}

theorem Typed.simple (h : s.Typed) : (Value.map s.entries).Simple := by
  refine ⟨by simp [entries, Value.text], ⟨_, rfl⟩, h.scanner.simple ?_, ⟨_, rfl⟩,
    h.watch.simple ?_, ⟨_, rfl⟩, h.logging.simple ?_, trivial⟩
  · simp [ScannerSettings.fields]
  · simp [WatchSettings.fields]
  · simp [LogSettings.fields]

theorem Typed.depth_le (h : s.Typed) : Value.depthEntries s.entries ≤ 3 :=
  max_le h.scanner.depth_le (max_le h.watch.depth_le (max_le h.logging.depth_le (Nat.zero_le 3)))

def keyNames : List Text :=
  ScannerSettings.fields.map (·.name) ++ WatchSettings.fields.map (·.name) ++
    LogSettings.fields.map (·.name) ++ (["scanner", "watch", "logging"] : List Text)

theorem Typed.exists_keys (h : s.Typed) :
    ((∃ f ∈ ScannerSettings.fields, k ∈ (f.get s.scanner).keys) ↔
        k ∈ s.scanner.hostExcludes.keys) ∧
      (¬∃ f ∈ WatchSettings.fields, k ∈ (f.get s.watch).keys) ∧
        ¬∃ f ∈ LogSettings.fields, k ∈ (f.get s.logging).keys := by
  obtain ⟨hscanner, hwatch, hlogging⟩ := h
  simp only [Field.Typed, ScannerSettings.fields, WatchSettings.fields, LogSettings.fields,
    List.forall₂_cons, List.Forall₂.nil, and_true] at hscanner hwatch hlogging
  obtain ⟨hsize, hfiles, houtput, hexclude, hignore, hgit, huse, -, hfollow, htimeout⟩ := hscanner
  refine ⟨?_, ?_, ?_⟩
  · simp [ScannerSettings.fields, Declared.keys_eq hsize, Declared.keys_eq hfiles,
      Declared.keys_eq houtput, Declared.keys_eq hexclude, Declared.keys_eq hignore,
      Declared.keys_eq hgit, Declared.keys_eq huse, Declared.keys_eq hfollow,
      Declared.keys_eq htimeout]
  · simp [WatchSettings.fields, Declared.keys_eq hwatch.1, Declared.keys_eq hwatch.2]
  · simp [LogSettings.fields, Declared.keys_eq hlogging.1, Declared.keys_eq hlogging.2]

/-- Apart from the names of sections and fields there are the keys of the host excludes only. -/
theorem Typed.mem_keys (h : s.Typed) : k ∈ (Value.map s.entries).keys ↔
    k ∈ keyNames ∨ k ∈ s.scanner.hostExcludes.keys := by
  have hkeys : (Value.map s.entries).keys =
      ("scanner" : Text) :: (Field.toValue ScannerSettings.fields s.scanner).keys ++
        (("watch" : Text) :: (Field.toValue WatchSettings.fields s.watch).keys ++
          (("logging" : Text) :: (Field.toValue LogSettings.fields s.logging).keys ++ [])) := rfl
  obtain ⟨hscanner, hwatch, hlogging⟩ := h.exists_keys (k := k)
  simp only [hkeys, keyNames, List.mem_append, List.mem_cons, Field.mem_keys, hscanner, hwatch,
    hlogging, List.not_mem_nil, or_false, List.cons_append]
  simp only [or_comm, or_left_comm, or_assoc]

end Settings

end SourceScan
