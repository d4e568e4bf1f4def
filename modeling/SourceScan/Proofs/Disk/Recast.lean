import SourceScan.Proofs.Disk.Change

/-!
# Files with other bytes

`recast` gives the files of a tree other bytes, to each by its place.  Directories, links
and pipes stay as they are.  So a look-up ends at the same place and links lead where
they led: of all that a disk answers, only the bytes of a file tell the two apart.
-/

namespace SourceScan

namespace Recast

@[simp] theorem under_under (f : Recast) (p q : Place) :
    (f.under p).under q = f.under (p ++ q) := by
  funext rest
  simp [under, List.append_assoc]

end Recast

namespace FileTree

variable {f : Recast} {root t : FileTree} {place last : Place} {name : FileName}
  {names : List FileName} {children : List (FileName × FileTree)}

@[simp] theorem names_recastAll (f : Recast) (children : List (FileName × FileTree)) :
    (recastAll f children).map (·.1) = children.map (·.1) := by
  induction children with
  | nil => rfl
  | cons e children ih => rw [recastAll, List.map_cons, List.map_cons, ih]

@[simp] theorem get?_recastAll (f : Recast) (name : FileName)
    (children : List (FileName × FileTree)) : Assoc.get? name (recastAll f children) =
      (Assoc.get? name children).map (recast (f.under [name])) := by
  induction children with
  | nil => rfl
  | cons e children ih =>
      obtain ⟨key, t⟩ := e
      simp only [Assoc.get?] at ih ⊢
      rw [recastAll]
      by_cases hkey : key = name
      · subst hkey
        simp
      · simp [hkey, ih]

@[simp] theorem at?_recast (f : Recast) (t : FileTree) (place : Place) :
    (t.recast f).at? place = (t.at? place).map (recast (f.under place)) := by
  induction place generalizing t f with
  | nil => rfl
  | cons name place ih =>
      cases t with
      | dir children =>
          rw [recast, at?_cons_dir, at?_cons_dir, get?_recastAll]
          cases Assoc.get? name children with
          | none => rfl
          | some u => simp [ih]
      | file content => rfl
      | link target => rfl
      | pipe => rfl

mutual

theorem counts_recast (f : Recast) (t : FileTree) :
    (t.recast f).linkCount = t.linkCount ∧ (t.recast f).dirCount = t.dirCount ∧
      (t.recast f).wellFormed = t.wellFormed := by
  cases t with
  | dir children =>
      obtain ⟨hlinks, hdirs, hwell⟩ := counts_recastAll f children
      simp [recast, linkCount, dirCount, wellFormed, hlinks, hdirs, hwell]
  | file content => exact ⟨rfl, rfl, rfl⟩
  | link target => exact ⟨rfl, rfl, rfl⟩
  | pipe => exact ⟨rfl, rfl, rfl⟩

theorem counts_recastAll (f : Recast) (children : List (FileName × FileTree)) :
    linkCounts (recastAll f children) = linkCounts children ∧
      dirCounts (recastAll f children) = dirCounts children ∧
      wellFormedAll (recastAll f children) = wellFormedAll children := by
  cases children with
  | nil => exact ⟨rfl, rfl, rfl⟩
  | cons e children =>
      obtain ⟨name, t⟩ := e
      obtain ⟨hlinks, hdirs, hwell⟩ := counts_recast (f.under [name]) t
      obtain ⟨hlinks', hdirs', hwell'⟩ := counts_recastAll f children
      simp [recastAll, linkCounts, dirCounts, wellFormedAll, *]

end

@[simp] theorem linkCount_recast (f : Recast) (t : FileTree) :
    (t.recast f).linkCount = t.linkCount := (counts_recast f t).1

@[simp] theorem dirCount_recast (f : Recast) (t : FileTree) :
    (t.recast f).dirCount = t.dirCount := (counts_recast f t).2.1

@[simp] theorem wellFormed_recast (f : Recast) (t : FileTree) :
    (t.recast f).wellFormed = t.wellFormed := (counts_recast f t).2.2

mutual

theorem recast_id (t : FileTree) : t.recast (fun _ old => old) = t := by
  cases t with
  | dir children => rw [recast, recastAll_id children]
  | file content => rfl
  | link target => rfl
  | pipe => rfl

theorem recastAll_id (children : List (FileName × FileTree)) :
    recastAll (fun _ old => old) children = children := by
  cases children with
  | nil => rfl
  | cons e children =>
      obtain ⟨name, t⟩ := e
      rw [recastAll, recastAll_id children]
      exact congrArg (fun u => (name, u) :: children) (recast_id t)

end

mutual

theorem recast_recast (f g : Recast) (t : FileTree) :
    (t.recast f).recast g = t.recast fun place old => g place (f place old) := by
  cases t with
  | dir children => rw [recast, recast, recast, recastAll_recastAll f g children]
  | file content => rfl
  | link target => rfl
  | pipe => rfl

theorem recastAll_recastAll (f g : Recast) (children : List (FileName × FileTree)) :
    recastAll g (recastAll f children) =
      recastAll (fun place old => g place (f place old)) children := by
  cases children with
  | nil => rfl
  | cons e children =>
      obtain ⟨name, t⟩ := e
      rw [recastAll, recastAll, recastAll, recastAll_recastAll f g children,
        recast_recast (f.under [name]) (g.under [name]) t]
      rfl

end

/-! ## Looking up -/

theorem findFrom_recast (f : Recast) (root : FileTree) (follow : Bool) (links : Nat)
    (place : Place) (names : List FileName) :
    (root.recast f).findFrom follow links place names =
      (root.findFrom follow links place names).map
        fun r => (r.1, r.2.map (recast (f.under r.1))) := by
  fun_induction findFrom root follow links place names with
  | case1 links place => simp [findFrom, Except.map]
  | case2 links place name names hat => simp [findFrom, hat, Except.map]
  | case3 links place name names children hat hhere ih =>
      rw [findFrom, at?_recast, hat]
      simp [recast, hhere, ih]
  | case4 links place names children hat hhere ih =>
      rw [findFrom, at?_recast, hat]
      simp [recast, hhere, ih]
  | case5 links place name names children hat hhere hdots hlong =>
      rw [findFrom, at?_recast, hat]
      simp [recast, hhere, hdots, hlong, Except.map]
  | case6 links place name names children hat hhere hdots hlong hnone hlast =>
      rw [findFrom, at?_recast, hat]
      simp [recast, hhere, hdots, hlong, hnone, hlast, Except.map]
  | case7 links place name names children hat hhere hdots hlong hnone hlast =>
      rw [findFrom, at?_recast, hat]
      simp [recast, hhere, hdots, hlong, hnone, hlast, Except.map]
  | case8 links place name names children hat hhere hdots hlong target hlink hend =>
      rw [findFrom, at?_recast, hat]
      simp [recast, hhere, hdots, hlong, hlink, hend, Except.map]
  | case9 place name names children hat hhere hdots hlong target hlink hend =>
      rw [findFrom, at?_recast, hat]
      simp [recast, hhere, hdots, hlong, hlink, hend, Except.map]
  | case10 place name names children hat hhere hdots hlong target hlink hend links ih =>
      rw [findFrom, at?_recast, hat]
      simp [recast, hhere, hdots, hlong, hlink, hend, ih]
  | case11 links place name names children hat hhere hdots hlong t hplain hnext ih =>
      rw [findFrom, at?_recast, hat]
      have hnext' : (root.recast f).at? (place ++ [name]) =
          some (t.recast (f.under (place ++ [name]))) := by
        rw [at?_recast, hnext]
        rfl
      simp only [Option.map_some, recast, hhere, hdots, hlong, hnext', Bool.false_eq_true,
        if_false, ← ih]
      cases t with
      | link target => exact absurd rfl (hplain target)
      | file content => rfl
      | dir entries => rfl
      | pipe => rfl
  | case12 links place name names t hplain hat =>
      rw [findFrom, at?_recast, hat]
      cases t with
      | dir entries => exact absurd rfl (hplain entries)
      | file content => rfl
      | link target => rfl
      | pipe => rfl

theorem find_recast (f : Recast) (root : FileTree) (follow : Bool) (place : Place)
    (names : List FileName) : (root.recast f).find follow place names =
      (root.find follow place names).map fun r => (r.1, r.2.recast (f.under r.1)) := by
  unfold find
  rw [findFrom_recast]
  cases root.findFrom follow linkLimit place names with
  | error e => rfl
  | ok r =>
      obtain ⟨last, found⟩ := r
      cases found <;> rfl

theorem followNames_recast (f : Recast) (root : FileTree) (strict : Bool) (fuel : Nat)
    (active : List Place) (place : Place) (names : List FileName) :
    (root.recast f).followNames strict fuel active place names =
      root.followNames strict fuel active place names := by
  -- None of the cases depends on what a file holds.
  fun_induction followNames root strict fuel active place names with
  | case1 fuel active place => rw [followNames]
  | case2 fuel active place name names hhere ih =>
      rw [followNames]
      simp only [hhere, if_true, ih]
  | case3 fuel active place names hhere ih =>
      rw [followNames]
      simp only [hhere, Bool.false_eq_true, if_false, if_true, ih]
  | case4 fuel active place name names hhere hdots next hnone hstrict =>
      rw [followNames]
      simp [hhere, hdots, next, hnone, hstrict]
  | case5 fuel active place name names hhere hdots next hnone hstrict ih =>
      obtain rfl : strict = false := Bool.eq_false_iff.2 hstrict
      rw [followNames]
      simp only [hhere, hdots, next, at?_recast, hnone, Option.map_none, Bool.false_eq_true,
        if_false]
      exact ih
  | case6 fuel active place name names hhere hdots next target hlink hactive =>
      rw [followNames]
      simp [hhere, hdots, next, hlink, hactive, recast]
  | case7 active place name names hhere hdots next target hlink hactive =>
      rw [followNames]
      simp [hhere, hdots, next, hlink, hactive, recast]
  | case8 active place name names hhere hdots next target hlink hactive fuel middle hmiddle
      ihFollow ih =>
      rw [followNames]
      simp [hhere, hdots, next, hlink, hactive, recast, ihFollow, hmiddle, ih]
  | case9 active place name names hhere hdots next target hlink hactive fuel left hleft
      ihFollow =>
      rw [followNames]
      simp [hhere, hdots, next, hlink, hactive, recast, ihFollow, hleft]
  | case10 active place name names hhere hdots next target hlink hactive fuel hmissing
      ihFollow =>
      rw [followNames]
      simp [hhere, hdots, next, hlink, hactive, recast, ihFollow, hmissing]
  | case11 fuel active place name names hhere hdots next t hplain hnext ih =>
      have hnext' : (root.recast f).at? (place ++ [name]) = some (t.recast (f.under next)) := by
        rw [at?_recast, hnext]
        rfl
      rw [followNames]
      simp only [hhere, hdots, hnext', Bool.false_eq_true, if_false]
      cases t with
      | link target => exact absurd rfl (hplain target)
      | file content => exact ih
      | dir entries => exact ih
      | pipe => exact ih

/-! ## Changing a tree -/

theorem recastAll_put (f : Recast) (name : FileName) (t : FileTree)
    (children : List (FileName × FileTree)) : recastAll f (Assoc.put name t children) =
      Assoc.put name (t.recast (f.under [name])) (recastAll f children) := by
  induction children with
  | nil => rfl
  | cons e children ih =>
      obtain ⟨key, u⟩ := e
      by_cases hkey : key = name
      · subst hkey
        simp [Assoc.put, recastAll]
      · simp [Assoc.put, recastAll, hkey, ih]

theorem recastAll_erase (f : Recast) (name : FileName)
    (children : List (FileName × FileTree)) :
    recastAll f (Assoc.erase name children) = Assoc.erase name (recastAll f children) := by
  induction children with
  | nil => rfl
  | cons e children ih =>
      obtain ⟨key, u⟩ := e
      simp only [Assoc.erase, ne_eq, decide_not] at ih ⊢
      by_cases hkey : key = name <;> simp [recastAll, hkey, ih]

theorem recast_put (f : Recast) (new : FileTree) (place : Place) (t : FileTree) :
    (put new place t).recast f = put (new.recast (f.under place)) place (t.recast f) := by
  induction place generalizing t f with
  | nil => rfl
  | cons name place ih =>
      cases t with
      | dir children =>
          have hbelow : ((Assoc.get? name (recastAll f children)).getD (.dir [])) =
              ((Assoc.get? name children).getD (.dir [])).recast (f.under [name]) := by
            rw [get?_recastAll]
            cases Assoc.get? name children <;> rfl
          simp only [put, recast, recastAll_put, hbelow, ih, Recast.under_under,
            List.singleton_append]
      | file content => rfl
      | link target => rfl
      | pipe => rfl

theorem recast_erase (f : Recast) (place : Place) (t : FileTree) :
    (t.erase place).recast f = (t.recast f).erase place := by
  fun_induction erase place t generalizing f with
  | case1 name children => simp only [recast, erase, recastAll_erase]
  | case2 name place children hplace t hget ih =>
      rw [recast, recast, recastAll_put, ih]
      simp [erase, hget]
  | case3 name place children hplace hget => simp [recast, erase, hget]
  | case4 place t hone hmore =>
      cases t with
      | dir children =>
          cases place with
          | nil => rfl
          | cons name place => exact absurd rfl (hmore name place children rfl)
      | file content => simp [recast, erase]
      | link target => simp [recast, erase]
      | pipe => simp [recast, erase]

end FileTree

namespace Disk

open FileTree

variable {d : Disk} {f : Recast} {p : Path} {place : Place} {t : FileTree}

def recast (d : Disk) (f : Recast) : Disk := d.setTree (d.tree.recast f)

theorem Reaches.recast (h : d.Reaches p place t) (f : Recast) :
    (d.recast f).Reaches p place (t.recast (f.under place)) := by
  change (d.tree.recast f).find true (d.startOf p) p.names = _
  rw [find_recast, show d.tree.find true (d.startOf p) p.names = .ok (place, t) from h]
  rfl

theorem exists_stat_recast (d : Disk) (f : Recast) (p : Path) :
    ∃ g : Recast, (d.recast f).stat p = (d.stat p).map (FileTree.recast g) := by
  have hfind : (d.recast f).tree.find true ((d.recast f).startOf p) p.names = _ :=
    find_recast f d.tree true (d.startOf p) p.names
  unfold Disk.stat
  rw [hfind]
  cases d.tree.find true (d.startOf p) p.names with
  | error e => exact ⟨f, rfl⟩
  | ok r => exact ⟨f.under r.1, rfl⟩

theorem exists_look_recast (d : Disk) (f : Recast) (p : Path) :
    ∃ g : Recast, (d.recast f).look p = (d.look p).map (·.map (FileTree.recast g)) := by
  obtain ⟨g, hstat⟩ := d.exists_stat_recast f p
  refine ⟨g, ?_⟩
  unfold Disk.look
  rw [hstat]
  cases d.stat p with
  | ok t => rfl
  | error e => cases e <;> rfl

theorem exists_ask_recast (d : Disk) (f : Recast) (p : Path) :
    ∃ g : Recast, (d.recast f).ask p = (d.ask p).map (·.map (FileTree.recast g)) := by
  obtain ⟨g, hlook⟩ := d.exists_look_recast f p
  refine ⟨g, ?_⟩
  unfold Disk.ask
  rw [hlook]
  split <;> rfl

@[simp] theorem exists?_recast (d : Disk) (f : Recast) (p : Path) :
    (d.recast f).exists? p = d.exists? p := by
  obtain ⟨g, hask⟩ := d.exists_ask_recast f p
  unfold Disk.exists?
  rw [hask]
  rcases d.ask p with e | _ | _ <;> rfl

@[simp] theorem isDir_recast (d : Disk) (f : Recast) (p : Path) :
    (d.recast f).isDir p = d.isDir p := by
  obtain ⟨g, hlook⟩ := d.exists_look_recast f p
  unfold Disk.isDir
  rw [hlook]
  rcases d.look p with e | _ | _ | _ | _ | _ <;> rfl

@[simp] theorem isFile_recast (d : Disk) (f : Recast) (p : Path) :
    (d.recast f).isFile p = d.isFile p := by
  obtain ⟨g, hask⟩ := d.exists_ask_recast f p
  unfold Disk.isFile
  rw [hask]
  rcases d.ask p with e | _ | _ | _ | _ | _ <;> rfl

@[simp] theorem isLink_recast (d : Disk) (f : Recast) (p : Path) :
    (d.recast f).isLink p = d.isLink p := by
  have hfind : (d.recast f).tree.find false ((d.recast f).startOf p) p.names = _ :=
    find_recast f d.tree false (d.startOf p) p.names
  unfold Disk.isLink
  rw [hfind]
  rcases d.tree.find false (d.startOf p) p.names with e | ⟨last, _ | _ | _ | _⟩ <;> rfl

theorem followNames_startOf_recast (d : Disk) (f : Recast) (strict : Bool) (p : Path) :
    (d.recast f).tree.followNames strict (d.recast f).tree.linkCount []
        ((d.recast f).startOf p) p.names =
      d.tree.followNames strict d.tree.linkCount [] (d.startOf p) p.names := by
  change (d.tree.recast f).followNames strict (d.tree.recast f).linkCount []
    (d.startOf p) p.names = _
  rw [followNames_recast, linkCount_recast]

@[simp] theorem resolve_recast (d : Disk) (f : Recast) (p : Path) :
    (d.recast f).resolve p = d.resolve p := by
  unfold Disk.resolve
  rw [followNames_startOf_recast]
  cases d.tree.followNames false d.tree.linkCount [] (d.startOf p) p.names with
  | real place =>
      obtain ⟨g, hstat⟩ := d.exists_stat_recast f p
      dsimp only
      rw [hstat]
      cases d.stat p with
      | ok t => rfl
      | error e => cases e <;> rfl
  | missing => rfl
  | circle left =>
      obtain ⟨g, hstat⟩ := d.exists_stat_recast f ⟨left.slashes, withoutDots left.names⟩
      dsimp only
      rw [hstat]
      cases d.stat ⟨left.slashes, withoutDots left.names⟩ with
      | ok t => rfl
      | error e => cases e <;> rfl

@[simp] theorem resolveStrict?_recast (d : Disk) (f : Recast) (p : Path) :
    (d.recast f).resolveStrict? p = d.resolveStrict? p := by
  unfold Disk.resolveStrict?
  rw [followNames_startOf_recast]

@[simp] theorem list_recast (d : Disk) (f : Recast) (p : Path) :
    (d.recast f).list p = d.list p := by
  obtain ⟨g, hstat⟩ := d.exists_stat_recast f p
  unfold Disk.list
  rw [hstat, show (d.recast f).refused? .list p = d.refused? .list p from rfl]
  cases d.refused? .list p with
  | some fault => rfl
  | none =>
      rcases d.stat p with e | _ | children | _ | _
      · rfl
      · rfl
      · exact congrArg Except.ok (names_recastAll g children)
      · rfl
      · rfl

theorem readFile_recast (h : ∀ place content, d.Reaches p place (.file content) →
      f place content = content) : (d.recast f).readFile p = d.readFile p := by
  unfold Disk.readFile
  rw [show (d.recast f).refused? .read p = d.refused? .read p from rfl]
  cases d.refused? .read p with
  | some fault => rfl
  | none =>
      cases hstat : d.stat p with
      | error e =>
          obtain ⟨g, hother⟩ := d.exists_stat_recast f p
          rw [hother, hstat]
          rfl
      | ok t =>
          obtain ⟨place, hreach⟩ := reaches_of_stat hstat
          rw [(hreach.recast f).stat]
          cases t with
          | file content =>
              refine congrArg Except.ok ?_
              rw [Recast.under, List.append_nil, h place content hreach]
          | dir children => rfl
          | link target => rfl
          | pipe => rfl

end Disk

end SourceScan
