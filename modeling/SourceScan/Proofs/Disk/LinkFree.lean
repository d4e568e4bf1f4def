import SourceScan.Proofs.Disk.Reach

/-!
# Disks without links

Without links a path leads where its names say, whatever is there.  So two disks without
links agree on all real paths, and on what lies at them if they have the same directories
and the same there.
-/

namespace SourceScan

namespace FileTree

variable {root t : FileTree} {place last : Place} {names : List FileName} {name : FileName}

def LinkFree (root : FileTree) : Prop :=
  ∀ place target, root.at? place ≠ some (.link target)

theorem LinkFree.isLink (h : root.LinkFree) (hat : root.at? place = some t) :
    t.isLink = false := by
  cases t with
  | link target => exact absurd hat (h place target)
  | file content => rfl
  | dir children => rfl
  | pipe => rfl

theorem linkFree_of_linkCount (h : root.linkCount = 0) : root.LinkFree := by
  intro place target hat
  have hle := length_le_linkCount (List.nodup_singleton place) fun p hp =>
    ⟨target, List.mem_singleton.1 hp ▸ hat⟩
  rw [h] at hle
  cases hle

def descend (place : Place) : List FileName → Place
  | [] => place
  | name :: names =>
      if staysHere name then descend place names
      else if name = Path.dotDot then descend place.dropLast names
      else descend (place ++ [name]) names

theorem descend_of_names (h : ∀ name ∈ names, isEntryName name = true) :
    descend place names = place ++ names := by
  induction names generalizing place with
  | nil => rw [descend, List.append_nil]
  | cons name names ih =>
      obtain ⟨hhere, hdots, -⟩ := isEntryName_iff.1 (h name List.mem_cons_self)
      rw [descend, hhere, if_neg Bool.false_ne_true, if_neg hdots,
        ih fun other hother => h other (List.mem_cons_of_mem _ hother),
        List.append_assoc, List.singleton_append]

theorem LinkFree.followNames (h : root.LinkFree) (fuel : Nat) (active : List Place) :
    followNames root false fuel active place names = .real (descend place names) := by
  induction names generalizing place with
  | nil => rw [FileTree.followNames, descend]
  | cons name names ih =>
      rw [FileTree.followNames, descend]
      split
      · exact ih
      · split
        · exact ih
        · cases hat : root.at? (place ++ [name]) with
          | none =>
              simp only [hat, Bool.false_eq_true, if_false]
              exact ih
          | some t =>
              simp only [hat]
              cases t with
              | link target => exact absurd hat (h _ target)
              | file content => exact ih
              | dir children => exact ih
              | pipe => exact ih

theorem LinkFree.leads (h : root.LinkFree) {used : Nat}
    (hleads : Leads root place names used last) :
    used = 0 ∧ last = descend place names := by
  induction hleads with
  | done place => exact ⟨rfl, rfl⟩
  | stay dir here rest ih =>
      rw [descend, here, if_pos rfl]
      exact ih
  | up dir rest ih =>
      have hdots : staysHere Path.dotDot = false := by decide
      rw [descend, hdots, if_neg Bool.false_ne_true, if_pos rfl]
      exact ih
  | down entry next plain rest ih =>
      obtain ⟨hhere, hdots, -⟩ := isEntryName_iff.1 entry
      rw [descend, hhere, if_neg Bool.false_ne_true, if_neg hdots]
      exact ih
  | link entry next follow rest => exact absurd next (h _ _)

end FileTree

namespace Disk

open FileTree

variable {d : Disk} {p : Path} {place last : Place} {t : FileTree} {name : FileName}
  {children : List (FileName × FileTree)}

theorem resolve_of_linkFree (hd : d.tree.wellFormed = true) (h : d.tree.LinkFree) (p : Path) :
    d.resolve p = if p.hasNull then .error (.disk ⟨.nullByte, p, none⟩)
      else .ok (absolute (descend (d.startOf p) p.names)) := by
  split
  · next hnull =>
      unfold Disk.resolve
      rw [h.followNames, (stat_eq_nullByte hd).2 hnull]
  · next hclean =>
      exact resolve_of_real (fun hstat => hclean ((stat_eq_nullByte hd).1 hstat))
        (h.followNames _ _)

theorem hasNull_absolute (hnames : ∀ name ∈ place, isEntryName name = true) :
    (absolute place).hasNull = false := by
  simp only [Path.hasNull, List.any_eq_false, List.contains_iff_mem]
  exact fun name hname => (isEntryName_iff.1 (hnames name hname)).2.2.1.2

theorem resolve_absolute (hd : d.tree.wellFormed = true) (h : d.tree.LinkFree)
    (hnames : ∀ name ∈ place, isEntryName name = true) :
    d.resolve (absolute place) = .ok (absolute place) := by
  rw [resolve_of_linkFree hd h, hasNull_absolute hnames, if_neg Bool.false_ne_true]
  exact congrArg (fun place => Except.ok (absolute place)) (descend_of_names hnames)

theorem reaches_absolute_iff (hd : d.tree.wellFormed = true) (h : d.tree.LinkFree)
    (hnames : ∀ name ∈ place, isEntryName name = true) :
    d.Reaches (absolute place) last t ↔ last = place ∧ d.tree.at? place = some t := by
  constructor
  · intro hreach
    obtain ⟨hat, used, -, hleads⟩ := hreach.leads hd
    obtain ⟨-, hlast⟩ := h.leads hleads
    rw [show (absolute place).names = place from rfl, descend_of_names hnames] at hlast
    obtain rfl : last = place := hlast
    exact ⟨rfl, hat⟩
  · rintro ⟨rfl, hat⟩
    exact reaches_absolute hd hat (h.isLink hat)

theorem look_entry (hd : d.tree.wellFormed = true) (h : d.tree.LinkFree)
    (hdir : d.tree.at? place = some (.dir children)) (hname : isEntryName name = true) :
    d.look (absolute (place ++ [name])) = .ok (d.tree.at? (place ++ [name])) := by
  cases hat : d.tree.at? (place ++ [name]) with
  | some t => exact (reaches_absolute hd hat (h.isLink hat)).look
  | none =>
      obtain ⟨hhere, hdots, -, hshort⟩ := isEntryName_iff.1 hname
      have hleads : Leads d.tree [] ([] ++ place) 0 ([] ++ place) := leads_of_at? hd hdir rfl
      have hfind : d.tree.findFrom true linkLimit [] (place ++ [name]) =
          .ok (place ++ [name], none) := by
        rw [← List.nil_append (place ++ [name]), ← List.append_assoc,
          findFrom_of_leads hleads (Nat.zero_le _) (.inl rfl), findFrom]
        simp only [List.nil_append, hdir, hhere, hdots, Nat.not_lt.2 hshort, hat,
          List.isEmpty_nil, if_true, Bool.false_eq_true, if_false]
      have hmissing : d.tree.find true (d.startOf (absolute (place ++ [name])))
          (absolute (place ++ [name])).names = .error .noEntry := by
        unfold FileTree.find
        rw [show d.tree.findFrom true linkLimit (d.startOf (absolute (place ++ [name])))
          (absolute (place ++ [name])).names = _ from hfind]
        rfl
      unfold Disk.look
      rw [stat_of_error hmissing]
      cases (absolute (place ++ [name])).hasNull <;> rfl

end Disk

end SourceScan
