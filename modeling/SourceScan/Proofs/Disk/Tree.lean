import Mathlib
import SourceScan.Disk.Tree

/-!
# Well-formed trees and their places

In a well-formed tree the entries of a directory have different names, and names that
a file system gives to entries.  Any list of different places with links is no longer
than the number of links of the tree, and the same holds of directories.  These two
bounds are what the fuel of following links and of walking is measured by.
-/

namespace SourceScan.FileTree

/-! ## Well-formed trees -/

def isEntryName (name : FileName) : Bool :=
  !staysHere name && name ≠ Path.dotDot &&
    (!name.contains Path.slash && !name.contains Path.null) &&
    (Utf8.encodeLenient name).length ≤ nameLimit

mutual

/-- In each directory the names differ and are names that entries can have, and no link has a null
byte in it. -/
def wellFormed : FileTree → Bool
  | .dir children => (children.map (·.1)).Nodup && wellFormedAll children
  | .link target => !target.contains Path.null
  | _ => true

def wellFormedAll : List (FileName × FileTree) → Bool
  | [] => true
  | (name, t) :: children =>
      isEntryName name && wellFormed t && wellFormedAll children

end

def isDirectory : FileTree → Bool
  | .dir _ => true
  | _ => false

def isLink : FileTree → Bool
  | .link _ => true
  | _ => false

theorem isEntryName_iff {name : FileName} :
    isEntryName name = true ↔
      staysHere name = false ∧ name ≠ Path.dotDot ∧ (Path.slash ∉ name ∧ Path.null ∉ name) ∧
        (Utf8.encodeLenient name).length ≤ nameLimit := by
  simp [isEntryName, and_assoc]

theorem mem_of_get? {name : FileName} {children : List (FileName × FileTree)}
    {t : FileTree} (h : Assoc.get? name children = some t) :
    (name, t) ∈ children := by
  obtain ⟨⟨key, u⟩, hfind, rfl⟩ := Option.map_eq_some_iff.1 h
  have hkey : key = name := by simpa using List.find?_some hfind
  subst hkey
  exact List.mem_of_find?_eq_some hfind

theorem get?_of_mem {name : FileName} {children : List (FileName × FileTree)}
    (h : name ∈ children.map (·.1)) :
    ∃ t, Assoc.get? name children = some t := by
  obtain ⟨⟨key, u⟩, hmem, rfl⟩ := List.mem_map.1 h
  cases hfind : children.find? (·.1 = key) with
  | none =>
      have := List.find?_eq_none.1 hfind (key, u) hmem
      simp at this
  | some e => exact ⟨e.2, by simp [Assoc.get?, hfind]⟩

theorem wellFormed_of_mem {name : FileName} {t : FileTree}
    {children : List (FileName × FileTree)}
    (h : wellFormedAll children = true) (hmem : (name, t) ∈ children) :
    isEntryName name = true ∧ wellFormed t = true := by
  induction children with
  | nil => simp at hmem
  | cons e es ih =>
      obtain ⟨key, u⟩ := e
      simp only [wellFormedAll, Bool.and_eq_true] at h
      rcases List.mem_cons.1 hmem with heq | hmem
      · cases heq
        exact h.1
      · exact ih h.2 hmem

theorem at?_append (p q : Place) (root : FileTree) :
    root.at? (p ++ q) = (root.at? p).bind (at? q) := by
  induction p generalizing root with
  | nil => rfl
  | cons name p ih =>
      simp only [List.cons_append, at?]
      cases root.child? name with
      | none => rfl
      | some t => exact ih t

theorem at?_snoc (place : Place) (name : FileName) (root : FileTree) :
    root.at? (place ++ [name]) = (root.at? place).bind (child? name) := by
  rw [at?_append]
  cases root.at? place with
  | none => rfl
  | some t =>
      simp only [Option.bind_some, at?]
      cases t.child? name <;> rfl

theorem directory_of_at?_snoc {root t : FileTree} {place : Place} {name : FileName}
    (h : root.at? (place ++ [name]) = some t) :
    ∃ children, root.at? place = some (.dir children) ∧
      Assoc.get? name children = some t := by
  rw [at?_snoc] at h
  obtain ⟨u, hu, hchild⟩ := Option.bind_eq_some_iff.1 h
  cases u with
  | dir children => exact ⟨children, hu, hchild⟩
  | file content => simp [child?] at hchild
  | link target => simp [child?] at hchild
  | pipe => simp [child?] at hchild

theorem wellFormed_at {root t : FileTree} {place : Place}
    (hroot : wellFormed root = true) (h : root.at? place = some t) :
    wellFormed t = true := by
  induction place generalizing root with
  | nil =>
      cases h
      exact hroot
  | cons name place ih =>
      obtain ⟨u, hchild, hat⟩ := Option.bind_eq_some_iff.1 h
      cases root with
      | dir children =>
          simp only [wellFormed, Bool.and_eq_true] at hroot
          exact ih (wellFormed_of_mem hroot.2 (mem_of_get? hchild)).2 hat
      | file content => simp [child?] at hchild
      | link target => simp [child?] at hchild
      | pipe => simp [child?] at hchild

theorem isEntryName_of_at? {root t : FileTree} {place : Place} {name : FileName}
    (hroot : wellFormed root = true)
    (h : root.at? (place ++ [name]) = some t) : isEntryName name = true := by
  obtain ⟨children, hdir, hget⟩ := directory_of_at?_snoc h
  have hwell := wellFormed_at hroot hdir
  simp only [wellFormed, Bool.and_eq_true] at hwell
  exact (wellFormed_of_mem hwell.2 (mem_of_get? hget)).1

theorem null_not_mem_of_link {root : FileTree} {place : Place} {target : RawText}
    (hroot : wellFormed root = true) (h : root.at? place = some (.link target)) :
    Path.null ∉ target := by
  simpa [wellFormed] using wellFormed_at hroot h

theorem isEntryName_of_mem {root t : FileTree} {place : Place}
    (hroot : wellFormed root = true) (h : root.at? place = some t) :
    ∀ name ∈ place, isEntryName name = true := by
  induction place generalizing root with
  | nil => simp
  | cons first place ih =>
      obtain ⟨u, hchild, hat⟩ := Option.bind_eq_some_iff.1 h
      cases root with
      | dir children =>
          simp only [wellFormed, Bool.and_eq_true] at hroot
          obtain ⟨hname, hwell⟩ := wellFormed_of_mem hroot.2 (mem_of_get? hchild)
          intro name hmem
          rcases List.mem_cons.1 hmem with rfl | hmem
          · exact hname
          · exact ih hwell hat name hmem
      | file content => simp [child?] at hchild
      | link target => simp [child?] at hchild
      | pipe => simp [child?] at hchild

/-! ## Counting links and directories -/

def places (t : FileTree) : List (Place × FileTree) := ([], t) :: contents t

theorem places_of_mem {name : FileName} {t : FileTree}
    {children : List (FileName × FileTree)} (h : (name, t) ∈ children)
    {place : Place} {u : FileTree} (hu : (place, u) ∈ places t) :
    (name :: place, u) ∈ contentsOf children := by
  induction children with
  | nil => simp at h
  | cons e es ih =>
      obtain ⟨key, v⟩ := e
      simp only [contentsOf, List.mem_append, List.mem_cons, List.mem_map]
      rcases List.mem_cons.1 h with heq | h
      · cases heq
        simp only [places, List.mem_cons, Prod.mk.injEq] at hu
        rcases hu with ⟨rfl, rfl⟩ | hu
        · exact .inl (.inl rfl)
        · exact .inl (.inr ⟨(place, u), hu, rfl⟩)
      · exact .inr (ih h)

theorem mem_places {t u : FileTree} {place : Place} (h : t.at? place = some u) :
    (place, u) ∈ places t := by
  induction place generalizing t with
  | nil =>
      cases h
      simp [places]
  | cons name place ih =>
      obtain ⟨v, hchild, hat⟩ := Option.bind_eq_some_iff.1 h
      cases t with
      | dir children =>
          exact List.mem_cons_of_mem _
            (places_of_mem (mem_of_get? hchild) (ih hat))
      | file content => simp [child?] at hchild
      | link target => simp [child?] at hchild
      | pipe => simp [child?] at hchild

mutual

theorem countP_places (t : FileTree) :
    (places t).countP (fun e => isLink e.2) = linkCount t ∧
      (places t).countP (fun e => isDirectory e.2) = dirCount t := by
  cases t with
  | dir children =>
      have hrest := countP_contentsOf children
      simpa [places, contents, linkCount, dirCount, isLink, isDirectory] using
        hrest
  | file content => exact ⟨rfl, rfl⟩
  | link target => exact ⟨rfl, rfl⟩
  | pipe => exact ⟨rfl, rfl⟩

theorem countP_contentsOf (children : List (FileName × FileTree)) :
    (contentsOf children).countP (fun e => isLink e.2) = linkCounts children ∧
      (contentsOf children).countP (fun e => isDirectory e.2) =
        dirCounts children := by
  cases children with
  | nil => exact ⟨rfl, rfl⟩
  | cons e es =>
      obtain ⟨name, t⟩ := e
      have htree := countP_places t
      have hrest := countP_contentsOf es
      simp only [places, List.countP_cons] at htree
      simp only [contentsOf, List.cons_append, List.countP_cons,
        List.countP_append, List.countP_map, linkCounts, dirCounts,
        Function.comp_def]
      omega

end

theorem length_le_countP {root : FileTree} {l : List Place} (hl : l.Nodup)
    (test : FileTree → Bool)
    (h : ∀ p ∈ l, ∃ t, root.at? p = some t ∧ test t = true) :
    l.length ≤ (places root).countP (fun e => test e.2) := by
  have hsub : l ⊆ ((places root).filter (fun e => test e.2)).map (·.1) := by
    intro p hp
    obtain ⟨t, hat, htest⟩ := h p hp
    exact List.mem_map.2
      ⟨(p, t), List.mem_filter.2 ⟨mem_places hat, htest⟩, rfl⟩
  have hlen := (hl.subperm hsub).length_le
  rwa [List.length_map, ← List.countP_eq_length_filter] at hlen

theorem length_le_linkCount {root : FileTree} {l : List Place} (hl : l.Nodup)
    (h : ∀ p ∈ l, ∃ target, root.at? p = some (.link target)) :
    l.length ≤ linkCount root := by
  rw [← (countP_places root).1]
  apply length_le_countP hl
  intro p hp
  obtain ⟨target, hat⟩ := h p hp
  exact ⟨_, hat, rfl⟩

theorem length_le_dirCount {root : FileTree} {l : List Place} (hl : l.Nodup)
    (h : ∀ p ∈ l, ∃ children, root.at? p = some (.dir children)) :
    l.length ≤ dirCount root := by
  rw [← (countP_places root).2]
  apply length_le_countP hl
  intro p hp
  obtain ⟨children, hat⟩ := h p hp
  exact ⟨_, hat, rfl⟩

theorem dirCount_le_of_mem {name : FileName} {t : FileTree}
    {children : List (FileName × FileTree)} (h : (name, t) ∈ children) :
    dirCount t ≤ dirCounts children := by
  induction children with
  | nil => cases h
  | cons e children ih =>
      obtain ⟨other, u⟩ := e
      rw [dirCounts]
      rcases List.mem_cons.1 h with heq | h
      · cases heq
        exact Nat.le_add_right _ _
      · exact (ih h).trans (Nat.le_add_left _ _)

theorem dirCount_le_of_at? {root t : FileTree} {place : Place} (h : root.at? place = some t) :
    dirCount t ≤ dirCount root := by
  induction place generalizing root with
  | nil =>
      cases h
      exact le_rfl
  | cons name place ih =>
      obtain ⟨u, hchild, hat⟩ := Option.bind_eq_some_iff.1 h
      cases root with
      | dir children =>
          have hle := dirCount_le_of_mem (mem_of_get? hchild)
          rw [dirCount]
          exact (ih hat).trans (hle.trans (Nat.le_succ _))
      | file content => simp [child?] at hchild
      | link target => simp [child?] at hchild
      | pipe => simp [child?] at hchild

end SourceScan.FileTree
