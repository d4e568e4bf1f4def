import SourceScan.Proofs.Disk.Reach
import SourceScan.Proofs.Walk.Sight

/-!
# The order of a traversal

Names are ordered by their codes, and lists of names by their first difference, so that
a directory comes before all that is in it.  A walk comes across everything in this
order, whatever the rules, the links and the refusals are.
-/

namespace SourceScan

/-! ## The order of names -/

def TextUnit.Before (u v : TextUnit) : Prop := u.code < v.code

theorem TextUnit.code_injective {u v : TextUnit} (h : u.code = v.code) : u = v := by
  cases u with
  | char c =>
      cases v with
      | char d => exact congrArg _ (Char.toNat_inj.1 h)
      | stray b =>
          -- The codes of stray bytes are surrogates.
          exfalso
          have hchar : c.toNat = 0xDC00 + b.toNat := h
          have hbyte := b.toNat_lt
          have hvalid := c.valid
          simp only [UInt32.isValidChar, Nat.isValidChar] at hvalid
          have : c.val.toNat = c.toNat := rfl
          omega
  | stray a =>
      cases v with
      | char d =>
          exfalso
          have hchar : 0xDC00 + a.toNat = d.toNat := h
          have hbyte := a.toNat_lt
          have hvalid := d.valid
          simp only [UInt32.isValidChar, Nat.isValidChar] at hvalid
          have : d.val.toNat = d.toNat := rfl
          omega
      | stray b =>
          have hbyte : a.toNat = b.toNat := by
            simpa [TextUnit.code] using h
          exact congrArg _ (UInt8.toNat_inj.1 hbyte)

instance : Std.Asymm TextUnit.Before := ⟨fun _ _ h h' => Nat.lt_asymm h h'⟩

instance : Std.Trichotomous TextUnit.Before :=
  ⟨fun _ _ h h' => TextUnit.code_injective (by
    simp only [TextUnit.Before] at h h'
    omega)⟩

def NameBefore : FileName → FileName → Prop := List.Lex TextUnit.Before

theorem nameBefore_iff {a b : FileName} : NameBefore a b ↔ RawText.lt a b = true := by
  unfold NameBefore
  induction a generalizing b with
  | nil =>
      cases b with
      | nil => simp [RawText.lt]
      | cons v vs => simp [RawText.lt]
  | cons u us ih =>
      cases b with
      | nil => simp [RawText.lt]
      | cons v vs =>
          rw [List.cons_lex_cons_iff, ih]
          simp only [RawText.lt, TextUnit.Before, Bool.or_eq_true, Bool.and_eq_true,
            decide_eq_true_eq]
          constructor
          · rintro (h | ⟨rfl, h⟩)
            · exact .inl h
            · exact .inr ⟨rfl, h⟩
          · rintro (h | ⟨heq, h⟩)
            · exact .inl h
            · exact .inr ⟨TextUnit.code_injective heq, h⟩

theorem NameBefore.trans {a b c : FileName} (h : NameBefore a b)
    (h' : NameBefore b c) : NameBefore a c := by
  refine List.lex_trans ?_ h h'
  intro u v w huv hvw
  exact Nat.lt_trans huv hvw

instance : Std.Asymm NameBefore := inferInstanceAs (Std.Asymm (List.Lex _))

instance : Std.Trichotomous NameBefore :=
  inferInstanceAs (Std.Trichotomous (List.Lex _))

theorem NameBefore.irrefl (a : FileName) : ¬NameBefore a a :=
  fun h => asymm h h

theorem sortNames_pairwise {names : List FileName} (h : names.Nodup) :
    (Walk.sortNames names).Pairwise NameBefore := by
  have hsorted : (Walk.sortNames names).Pairwise
      fun a b => (!RawText.lt b a) = true := by
    apply List.pairwise_mergeSort
    · intro a b c hab hbc
      simp only [Bool.not_eq_true', ← Bool.not_eq_true, ← nameBefore_iff] at *
      intro hca
      rcases trichotomous_of NameBefore a b with hlt | rfl | hlt
      · exact hbc (hca.trans hlt)
      · exact hbc hca
      · exact hab hlt
    · intro a b
      simp only [Bool.or_eq_true, Bool.not_eq_true', ← Bool.not_eq_true,
        ← nameBefore_iff]
      by_cases hba : NameBefore b a
      · exact .inr (asymm hba)
      · exact .inl hba
  have hnodup : (Walk.sortNames names).Nodup :=
    (List.mergeSort_perm names _).nodup_iff.2 h
  refine (hsorted.and hnodup).imp ?_
  rintro a b ⟨hle, hne⟩
  simp only [Bool.not_eq_true', ← Bool.not_eq_true, ← nameBefore_iff] at hle
  rcases trichotomous_of NameBefore a b with hlt | heq | hlt
  · exact hlt
  · exact absurd heq hne
  · exact absurd hlt hle

/-! ## The order of paths -/

/-- A directory comes before its entries, and these come one after the other. -/
def NamesBefore : List FileName → List FileName → Prop := List.Lex NameBefore

namespace NamesBefore

theorem irrefl (p : List FileName) : ¬NamesBefore p p :=
  List.lex_irrefl NameBefore.irrefl p

theorem trans {p q r : List FileName} (h : NamesBefore p q) (h' : NamesBefore q r) :
    NamesBefore p r :=
  List.lex_trans NameBefore.trans h h'

instance : Std.Asymm NamesBefore := inferInstanceAs (Std.Asymm (List.Lex _))

instance : Std.Trichotomous NamesBefore :=
  inferInstanceAs (Std.Trichotomous (List.Lex _))

theorem append_left {p q : List FileName} (h : NamesBefore p q)
    (dir : List FileName) : NamesBefore (dir ++ p) (dir ++ q) :=
  List.Lex.append_left _ h dir

theorem of_prefixed {p q : List FileName} (h : p <+: q) (hne : p ≠ q) :
    NamesBefore p q := by
  obtain ⟨rest, rfl⟩ := h
  cases rest with
  | nil => simp at hne
  | cons name rest =>
      have hnil : NamesBefore [] (name :: rest) := .nil
      simpa using hnil.append_left p

theorem of_entries {dir p q : List FileName} {a b : FileName} (h : NameBefore a b)
    (hp : dir ++ [a] <+: p) (hq : dir ++ [b] <+: q) : NamesBefore p q := by
  obtain ⟨rest, rfl⟩ := hp
  obtain ⟨rest', rfl⟩ := hq
  have hab : NamesBefore (a :: rest) (b :: rest') := .rel h
  simpa using hab.append_left dir

end NamesBefore

/-! ## The order of sights -/

def Sight.rank : Sight → Nat
  | .turn _ => 0
  | .listing _ | .misnamed _ | .file .. => 1
  | .failure .. => 2

def Sight.Precedes (x y : Sight) : Prop :=
  NamesBefore x.names y.names ∨ x.names = y.names ∧ x.rank < y.rank

theorem Sight.Precedes.irrefl (x : Sight) : ¬x.Precedes x := by
  rintro (h | ⟨-, h⟩)
  · exact NamesBefore.irrefl _ h
  · exact Nat.lt_irrefl _ h

instance : Std.Irrefl Sight.Precedes := ⟨Sight.Precedes.irrefl⟩

instance : Std.Asymm Sight.Precedes := by
  refine ⟨?_⟩
  rintro x y (h | ⟨heq, h⟩) (h' | ⟨heq', h'⟩)
  · exact asymm h h'
  · exact NamesBefore.irrefl _ (heq' ▸ h)
  · exact NamesBefore.irrefl _ (heq ▸ h')
  · exact Nat.lt_asymm h h'

structure Ordered (top : List FileName) (xs : List Sight) : Prop where
  below : ∀ x ∈ xs, top <+: x.names
  notTurn : ∀ x ∈ xs, x.names = top → x.rank ≠ 0
  pairwise : xs.Pairwise Sight.Precedes

theorem Ordered.nil (top : List FileName) : Ordered top [] :=
  ⟨by simp, by simp, .nil⟩

theorem Ordered.singleton {top : List FileName} {x : Sight} (hx : x.names = top)
    (h : 0 < x.rank) : Ordered top [x] := by
  subst hx
  refine ⟨by simp, ?_, List.pairwise_singleton _ _⟩
  rintro y (_ | ⟨_, ⟨⟩⟩) -
  exact Nat.pos_iff_ne_zero.1 h

namespace Walk

variable {w : Walk} {below : List FileName → List Path → Sights}

theorem sightsAt_ordered (hbelow : ∀ names visited, Ordered names (below names visited).1)
    (names : List FileName) (visited : List Path) :
    Ordered names (w.sightsAt below names visited).1 := by
  unfold sightsAt
  split
  · exact .singleton rfl Nat.one_pos
  · split
    · exact .singleton rfl Nat.two_pos
    · exact .nil names
    · exact hbelow names visited
    · split
      · exact .singleton rfl Nat.two_pos
      · exact .singleton rfl Nat.one_pos
      · exact .nil names

theorem entrySights_pairwise
    (hbelow : ∀ names visited, Ordered names (below names visited).1)
    (dir : List FileName) (name : FileName) (visited : List Path) :
    (∀ x ∈ (w.entrySights below dir name visited).1, dir ++ [name] <+: x.names) ∧
      (w.entrySights below dir name visited).1.Pairwise Sight.Precedes := by
  obtain ⟨hunder, hnotTurn, hpairwise⟩ :=
    sightsAt_ordered (w := w) hbelow (dir ++ [name]) visited
  constructor
  · rintro x (_ | ⟨_, hx⟩)
    · exact List.prefix_refl _
    · exact hunder x hx
  · refine List.pairwise_cons.2 ⟨fun x hx => ?_, hpairwise⟩
    by_cases heq : x.names = dir ++ [name]
    · exact .inr ⟨heq.symm, Nat.pos_of_ne_zero (hnotTurn x hx heq)⟩
    · exact .inl (.of_prefixed (hunder x hx) (Ne.symm heq))

theorem entriesSights_pairwise
    (hbelow : ∀ names visited, Ordered names (below names visited).1)
    (dir : List FileName) {names : List FileName} (hnames : names.Pairwise NameBefore)
    (visited : List Path) :
    (∀ x ∈ (w.entriesSights below dir names visited).1,
        ∃ name ∈ names, dir ++ [name] <+: x.names) ∧
      (w.entriesSights below dir names visited).1.Pairwise Sight.Precedes := by
  induction names generalizing visited with
  | nil => exact ⟨by simp [entriesSights], .nil⟩
  | cons name names ih =>
      obtain ⟨hfirst, hnames⟩ := List.pairwise_cons.1 hnames
      have hentry := entrySights_pairwise (w := w) hbelow dir name visited
      have hrest := ih hnames (w.entrySights below dir name visited).2
      constructor
      · intro x hx
        rcases List.mem_append.1 hx with hx | hx
        · exact ⟨name, List.mem_cons_self, hentry.1 x hx⟩
        · obtain ⟨other, hother, hunder⟩ := hrest.1 x hx
          exact ⟨other, List.mem_cons_of_mem _ hother, hunder⟩
      · refine List.pairwise_append.2 ⟨hentry.2, hrest.2, fun x hx y hy => ?_⟩
        obtain ⟨other, hother, hunder⟩ := hrest.1 y hy
        exact .inl (.of_entries (hfirst other hother) (hentry.1 x hx) hunder)

theorem list_nodup {d : Disk} (hd : d.tree.wellFormed = true) {p : Path}
    {names : List FileName} (h : d.list p = .ok names) : names.Nodup := by
  unfold Disk.list at h
  split at h
  · cases h
  · split at h
    · next children hstat =>
        cases h
        obtain ⟨place, hreach⟩ := Disk.reaches_of_stat hstat
        have hwell := FileTree.wellFormed_at hd (hreach.leads hd).1
        simp only [FileTree.wellFormed, Bool.and_eq_true,
          decide_eq_true_eq] at hwell
        exact hwell.1
    · cases h
    · cases h

/-- A walk comes across everything in the order of the names that lead to it. -/
theorem dirSights_ordered (hd : w.disk.tree.wellFormed = true) (fuel : Nat)
    (dir : List FileName) (visited : List Path) :
    Ordered dir (w.dirSights fuel dir visited).1 := by
  induction fuel generalizing dir visited with
  | zero => exact .nil dir
  | succ fuel ih =>
      unfold dirSights
      split
      · exact .singleton rfl Nat.two_pos
      · split
        · exact .nil dir
        · split
          · split
            · refine ⟨?_, ?_, ?_⟩ <;> simp [Sight.names, Sight.rank, Sight.Precedes]
            · exact .singleton rfl Nat.one_pos
          · next real _ _ _ entries hlist =>
              have hentries := entriesSights_pairwise (w := w) ih dir
                (sortNames_pairwise (list_nodup hd hlist)) (real :: visited)
              -- The listing comes first because all others are strictly below.
              have hlater : ∀ x ∈ (w.entriesSights (w.dirSights fuel) dir
                  (sortNames entries) (real :: visited)).1,
                  dir <+: x.names ∧ dir ≠ x.names := by
                intro x hx
                obtain ⟨name, -, rest, hrest⟩ := hentries.1 x hx
                rw [← hrest, List.append_assoc]
                exact ⟨List.prefix_append _ _, by simp⟩
              refine ⟨?_, ?_, ?_⟩
              · rintro x (_ | ⟨_, hx⟩)
                · exact List.prefix_refl _
                · exact (hlater x hx).1
              · rintro x (_ | ⟨_, hx⟩) heq
                · simp [Sight.rank]
                · exact absurd heq.symm (hlater x hx).2
              · refine List.pairwise_cons.2 ⟨fun x hx => ?_, hentries.2⟩
                exact .inl (.of_prefixed (hlater x hx).1 (hlater x hx).2)

theorem sights_pairwise (hd : w.disk.tree.wellFormed = true) :
    w.sights.Pairwise Sight.Precedes :=
  (dirSights_ordered hd _ _ _).pairwise

end Walk

end SourceScan
