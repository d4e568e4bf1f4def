import SourceScan.Proofs.Walk.Order
import SourceScan.Proofs.Walk.Traversal

/-!
# The directories that count as visited

A walk counts the directories that it is in as visited, and takes each one back when it
leaves it.  A directory that it could not list stays behind, though: `Denied` are the
real paths of these.
-/

namespace SourceScan.Walk

open FileTree Disk

variable {w : Walk} {below : List FileName → List Path → Sights}

def Refused (w : Walk) (dir : List FileName) : Prop :=
  ∃ e, w.disk.list (w.pathOf dir) = .error e

def Denied (w : Walk) (xs : List Sight) (real : Path) : Prop :=
  ∃ dir, .listing dir ∈ xs ∧ w.Refused dir ∧
    w.disk.resolve (w.pathOf dir) = .ok real

theorem denied_append {xs ys : List Sight} {real : Path} :
    w.Denied (xs ++ ys) real ↔ w.Denied xs real ∨ w.Denied ys real := by
  simp [Denied, or_and_right, exists_or]

theorem Denied.mono {xs ys : List Sight} {real : Path} (h : w.Denied xs real)
    (hsub : xs ⊆ ys) : w.Denied ys real := by
  obtain ⟨dir, hdir, hrest⟩ := h
  exact ⟨dir, hsub hdir, hrest⟩

structure Settles (w : Walk) (visited : List Path) (s : Sights) : Prop where
  mem_iff : ∀ p, p ∈ s.2 ↔ p ∈ visited ∨ w.Denied s.1 p
  fresh : ∀ dir real, .listing dir ∈ s.1 →
    w.disk.resolve (w.pathOf dir) = .ok real → real ∉ visited
  nodup : visited.Nodup → s.2.Nodup
  resolved : ∀ dir, .listing dir ∈ s.1 → ∃ real, w.disk.resolve (w.pathOf dir) = .ok real

theorem Settles.of_no_listing {visited : List Path} {xs : List Sight}
    (h : ∀ dir, .listing dir ∉ xs) : w.Settles visited (xs, visited) := by
  refine ⟨fun p => ⟨.inl, ?_⟩, fun dir real hdir => absurd hdir (h dir), id,
    fun dir hdir => absurd hdir (h dir)⟩
  rintro (hp | ⟨dir, hdir, -⟩)
  · exact hp
  · exact absurd hdir (h dir)

theorem Settles.append {visited : List Path} {s t : Sights}
    (hs : w.Settles visited s) (ht : w.Settles s.2 t) :
    w.Settles visited (s.1 ++ t.1, t.2) := by
  refine ⟨fun p => ?_, fun dir real hdir hreal => ?_, fun h => ht.nodup (hs.nodup h),
    fun dir hdir => (List.mem_append.1 hdir).elim (hs.resolved dir) (ht.resolved dir)⟩
  · rw [ht.mem_iff, hs.mem_iff, denied_append, or_assoc]
  · rcases List.mem_append.1 hdir with hdir | hdir
    · exact hs.fresh dir real hdir hreal
    · intro hmem
      exact ht.fresh dir real hdir hreal ((hs.mem_iff real).2 (.inl hmem))

theorem Settles.refused {dir : List FileName} {visited : List Path} {real : Path}
    {xs : List Sight} (hrefused : w.Refused dir)
    (hreal : w.disk.resolve (w.pathOf dir) = .ok real) (hnew : real ∉ visited)
    (hxs : ∀ dir, .listing dir ∉ xs) :
    w.Settles visited (.listing dir :: xs, real :: visited) := by
  have honly : ∀ other, .listing other ∈ Sight.listing dir :: xs → other = dir := by
    rintro other (_ | ⟨_, h⟩)
    · rfl
    · exact absurd h (hxs other)
  refine ⟨fun p => ?_, fun other real' hother hreal' => ?_, fun h => ?_,
    fun other hother => ⟨real, honly other hother ▸ hreal⟩⟩
  · rw [List.mem_cons, or_comm]
    refine or_congr_right ⟨?_, ?_⟩
    · rintro rfl
      exact ⟨dir, List.mem_cons_self, hrefused, hreal⟩
    · rintro ⟨other, hother, -, hreal'⟩
      rw [honly other hother, hreal] at hreal'
      cases hreal'
      rfl
  · rw [honly other hother, hreal] at hreal'
    cases hreal'
    exact hnew
  · exact List.nodup_cons.2 ⟨hnew, h⟩

theorem Settles.leave {dir : List FileName} {visited : List Path} {real : Path}
    {s : Sights} (hlisted : ¬w.Refused dir)
    (hreal : w.disk.resolve (w.pathOf dir) = .ok real) (hnew : real ∉ visited)
    (hs : w.Settles (real :: visited) s) :
    w.Settles visited (.listing dir :: s.1, s.2.filter (· ≠ real)) := by
  have hdenied : ∀ p, w.Denied (.listing dir :: s.1) p ↔ w.Denied s.1 p := by
    refine fun p => ⟨?_, fun h => h.mono (List.subset_cons_self _ _)⟩
    rintro ⟨other, _ | ⟨_, hother⟩, hrefused, hreal'⟩
    · exact absurd hrefused hlisted
    · exact ⟨other, hother, hrefused, hreal'⟩
  refine ⟨fun p => ?_, fun other real' hother hreal' => ?_, fun h => ?_, ?_⟩
  · rw [hdenied, List.mem_filter, hs.mem_iff, List.mem_cons, decide_eq_true_eq]
    constructor
    · rintro ⟨(hp | hp) | hp, hne⟩
      · exact absurd hp hne
      · exact .inl hp
      · exact .inr hp
    · rintro (hp | hp)
      · refine ⟨.inl (.inr hp), ?_⟩
        rintro rfl
        exact hnew hp
      · refine ⟨.inr hp, ?_⟩
        rintro rfl
        -- A directory inside itself is not listed again.
        obtain ⟨other, hother, -, hreal'⟩ := hp
        exact hs.fresh other p hother hreal' List.mem_cons_self
  · rcases List.mem_cons.1 hother with heq | hother
    · cases heq
      rw [hreal] at hreal'
      cases hreal'
      exact hnew
    · exact fun hmem => hs.fresh other real' hother hreal' (List.mem_cons_of_mem _ hmem)
  · exact (hs.nodup (List.nodup_cons.2 ⟨hnew, h⟩)).filter _
  · rintro other (_ | ⟨_, hother⟩)
    · exact ⟨real, hreal⟩
    · exact hs.resolved other hother

theorem sightsAt_settles (hbelow : ∀ names visited, w.Settles visited (below names visited))
    (names : List FileName) (visited : List Path) :
    w.Settles visited (w.sightsAt below names visited) := by
  unfold sightsAt
  split
  · exact .of_no_listing (by simp)
  · split
    · exact .of_no_listing (by simp)
    · exact .of_no_listing (by simp)
    · exact hbelow names visited
    · split
      · exact .of_no_listing (by simp)
      · exact .of_no_listing (by simp)
      · exact .of_no_listing (by simp)

theorem entrySights_settles
    (hbelow : ∀ names visited, w.Settles visited (below names visited))
    (dir : List FileName) (name : FileName) (visited : List Path) :
    w.Settles visited (w.entrySights below dir name visited) := by
  have hturn : w.Settles visited ([.turn (dir ++ [name])], visited) :=
    .of_no_listing (by simp)
  exact hturn.append (sightsAt_settles hbelow _ visited)

theorem entriesSights_settles
    (hbelow : ∀ names visited, w.Settles visited (below names visited))
    (dir names : List FileName) (visited : List Path) :
    w.Settles visited (w.entriesSights below dir names visited) := by
  induction names generalizing visited with
  | nil => exact .of_no_listing (by simp)
  | cons name names ih => exact (entrySights_settles hbelow dir name visited).append (ih _)

/-- After a directory the directories in which the walk was before count as visited
again, and those that it was denied on the way. -/
theorem dirSights_settles (w : Walk) (fuel : Nat) (dir : List FileName)
    (visited : List Path) : w.Settles visited (w.dirSights fuel dir visited) := by
  induction fuel generalizing dir visited with
  | zero => exact .of_no_listing (by simp)
  | succ fuel ih =>
      unfold dirSights
      split
      · exact .of_no_listing (by simp)
      · next real hreal =>
          split
          · exact .of_no_listing (by simp)
          · next hnew =>
              split
              · next e hlist =>
                  refine .refused ⟨e, hlist⟩ hreal hnew fun dir' => ?_
                  split <;> simp
              · next entries hlist =>
                  refine .leave ?_ hreal hnew
                    (entriesSights_settles ih dir (sortNames entries) (real :: visited))
                  rintro ⟨e, he⟩
                  rw [hlist] at he
                  cases he

end SourceScan.Walk
