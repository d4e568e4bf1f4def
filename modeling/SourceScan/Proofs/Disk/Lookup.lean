import SourceScan.Disk.Resolve
import SourceScan.Proofs.Disk.Tree

/-!
# Looking up a path and following its links

A path is looked up name by name with a bound on the links, while its real path is
found by following each link to its end, with the links that are being followed kept
in a list.  Both are compared with `Leads`, which says where names lead and through
how many links.  A look-up succeeds exactly if the names lead somewhere through few
enough links, and then the real path is the place that it ends at.
-/

namespace SourceScan.FileTree

/-! ## Where names lead -/

/-- Names lead from a place to another one, through a number of links.  Each name is
looked up in a directory. -/
inductive Leads (root : FileTree) :
    Place → List FileName → Nat → Place → Prop
  | done (place : Place) : Leads root place [] 0 place
  | stay {place last : Place} {name : FileName} {names : List FileName}
      {links : Nat} {children : List (FileName × FileTree)}
      (dir : root.at? place = some (.dir children))
      (here : staysHere name = true)
      (rest : Leads root place names links last) :
      Leads root place (name :: names) links last
  | up {place last : Place} {names : List FileName} {links : Nat}
      {children : List (FileName × FileTree)}
      (dir : root.at? place = some (.dir children))
      (rest : Leads root place.dropLast names links last) :
      Leads root place (Path.dotDot :: names) links last
  | down {place last : Place} {name : FileName} {names : List FileName}
      {links : Nat} {t : FileTree} (entry : isEntryName name = true)
      (next : root.at? (place ++ [name]) = some t) (plain : isLink t = false)
      (rest : Leads root (place ++ [name]) names links last) :
      Leads root place (name :: names) links last
  | link {place middle last : Place} {name : FileName} {names : List FileName}
      {inner links : Nat} {target : RawText} (entry : isEntryName name = true)
      (next : root.at? (place ++ [name]) = some (.link target))
      (follow : Leads root (linkStart target place) (linkNames target) inner
        middle)
      (rest : Leads root middle names links last) :
      Leads root place (name :: names) (inner + links + 1) last

namespace Leads

variable {root : FileTree} {place middle last last' : Place}
  {names more : List FileName} {links links' : Nat}

theorem append (h : Leads root place names links middle)
    (h' : Leads root middle more links' last) :
    Leads root place (names ++ more) (links + links') last := by
  induction h with
  | done place => simpa using h'
  | stay dir here rest ih => exact .stay dir here (ih h')
  | up dir rest ih => exact .up dir (ih h')
  | down entry next plain rest ih => exact .down entry next plain (ih h')
  | @link _ _ _ _ _ inner links _ entry next follow _ _ ih =>
      have hsum : inner + links + 1 + links' = inner + (links + links') + 1 := by
        omega
      rw [hsum]
      exact .link entry next follow (ih h')

theorem split (h : Leads root place (names ++ more) links last) :
    ∃ middle first second, Leads root place names first middle ∧
      Leads root middle more second last ∧ links = first + second := by
  induction names generalizing place links with
  | nil => exact ⟨place, 0, links, .done place, h, by omega⟩
  | cons name names ih =>
      cases h with
      | stay dir here rest =>
          obtain ⟨middle, first, second, h₁, h₂, rfl⟩ := ih rest
          exact ⟨middle, first, second, .stay dir here h₁, h₂, rfl⟩
      | up dir rest =>
          obtain ⟨middle, first, second, h₁, h₂, rfl⟩ := ih rest
          exact ⟨middle, first, second, .up dir h₁, h₂, rfl⟩
      | down entry next plain rest =>
          obtain ⟨middle, first, second, h₁, h₂, rfl⟩ := ih rest
          exact ⟨middle, first, second, .down entry next plain h₁, h₂, rfl⟩
      | link entry next follow rest =>
          obtain ⟨middle, first, second, h₁, h₂, rfl⟩ := ih rest
          exact ⟨middle, _, second, .link entry next follow h₁, h₂, by omega⟩

theorem clean (h : Leads root place names links last) :
    ∀ name ∈ names, Path.slash ∉ name ∧ Path.null ∉ name := by
  induction h with
  | done place => simp
  | stay dir here rest ih =>
      refine List.forall_mem_cons.2 ⟨?_, ih⟩
      simp only [staysHere, Bool.or_eq_true, decide_eq_true_eq] at here
      rcases here with rfl | rfl <;> decide
  | up dir rest ih => exact List.forall_mem_cons.2 ⟨by decide, ih⟩
  | down entry next plain rest ih =>
      exact List.forall_mem_cons.2 ⟨(isEntryName_iff.1 entry).2.2.1, ih⟩
  | link entry next follow rest ihFollow ih =>
      exact List.forall_mem_cons.2 ⟨(isEntryName_iff.1 entry).2.2.1, ih⟩

theorem unique (h : Leads root place names links last)
    (h' : Leads root place names links' last') : links = links' ∧ last = last' := by
  -- What comes next, and what is there, decides on the rule for each step.
  induction h generalizing links' last' with
  | done place =>
      cases h'
      exact ⟨rfl, rfl⟩
  | stay dir here rest ih =>
      cases h' with
      | stay _ _ rest' => exact ih rest'
      | up => exact absurd here (by decide)
      | down entry => simp [(isEntryName_iff.1 entry).1] at here
      | link entry => simp [(isEntryName_iff.1 entry).1] at here
  | up dir rest ih =>
      cases h' with
      | stay _ here => exact absurd here (by decide)
      | up _ rest' => exact ih rest'
      | down entry => exact absurd rfl (isEntryName_iff.1 entry).2.1
      | link entry => exact absurd rfl (isEntryName_iff.1 entry).2.1
  | down entry next plain rest ih =>
      cases h' with
      | stay _ here => simp [(isEntryName_iff.1 entry).1] at here
      | up => exact absurd rfl (isEntryName_iff.1 entry).2.1
      | down _ _ _ rest' => exact ih rest'
      | link _ next' =>
          cases next.symm.trans next'
          simp [isLink] at plain
  | link entry next follow rest ihFollow ih =>
      cases h' with
      | stay _ here => simp [(isEntryName_iff.1 entry).1] at here
      | up => exact absurd rfl (isEntryName_iff.1 entry).2.1
      | down _ next' plain =>
          cases next.symm.trans next'
          simp [isLink] at plain
      | link _ next' follow' rest' =>
          cases next.symm.trans next'
          obtain ⟨hinner, rfl⟩ := ihFollow follow'
          obtain ⟨hlinks, hlast⟩ := ih rest'
          exact ⟨by omega, hlast⟩

end Leads

/-! ## Looking up -/

section FindFrom

variable {root : FileTree} {place last : Place} {names : List FileName}

theorem findFrom_of_leads {used : Nat} (h : Leads root place names used last)
    {links : Nat} (hlinks : used ≤ links) {follow : Bool} {rest : List FileName}
    (hfollow : follow = true ∨ rest ≠ []) :
    findFrom root follow links place (names ++ rest) =
      findFrom root follow (links - used) last rest := by
  induction h generalizing links rest with
  | done place => simp
  | stay dir here _ ih =>
      rw [List.cons_append, findFrom]
      simp only [dir, here, if_true]
      exact ih hlinks hfollow
  | up dir _ ih =>
      rw [List.cons_append, findFrom]
      have hdots : staysHere Path.dotDot = false := by decide
      simp only [dir, hdots, if_true, Bool.false_eq_true, if_false]
      exact ih hlinks hfollow
  | @down place _ name names _ t entry next plain _ ih =>
      obtain ⟨hhere, hdots, -, hshort⟩ := isEntryName_iff.1 entry
      obtain ⟨children, dir, -⟩ := directory_of_at?_snoc next
      rw [List.cons_append, findFrom]
      simp only [dir, hhere, hdots, next, Bool.false_eq_true, if_false,
        Nat.not_lt.2 hshort]
      cases t with
      | link target => simp [isLink] at plain
      | file content => exact ih hlinks hfollow
      | dir children => exact ih hlinks hfollow
      | pipe => exact ih hlinks hfollow
  | @link place middle _ name names inner used target entry next _ _ ihFollow ih =>
      obtain ⟨hhere, hdots, -, hshort⟩ := isEntryName_iff.1 entry
      obtain ⟨children, dir, -⟩ := directory_of_at?_snoc next
      have hgo : ((names ++ rest).isEmpty && !follow) = false := by
        rcases hfollow with rfl | hrest
        · simp
        · simp [hrest]
      obtain ⟨links, rfl⟩ : ∃ n, links = n + 1 := ⟨links - 1, by omega⟩
      rw [List.cons_append, findFrom]
      simp only [dir, hhere, hdots, next, hgo, Bool.false_eq_true, if_false,
        Nat.not_lt.2 hshort]
      -- The names of the link come first and take the links that they need.
      rw [ihFollow (by omega) (hfollow.imp_right fun hrest => by simp [hrest]),
        ih (by omega) hfollow]
      congr 1
      omega

theorem leads_of_findFrom (hroot : wellFormed root = true) {links : Nat}
    {t : FileTree}
    (h : findFrom root true links place names = .ok (last, some t)) :
    root.at? last = some t ∧
      ∃ used ≤ links, Leads root place names used last := by
  fun_induction findFrom root true links place names with
  | case1 links place =>
      simp only [Except.ok.injEq, Prod.mk.injEq] at h
      obtain ⟨rfl, hat⟩ := h
      exact ⟨hat, 0, Nat.zero_le _, .done _⟩
  | case2 => simp at h
  | case3 links place name names children dir here ih =>
      obtain ⟨hat, used, hle, hleads⟩ := ih h
      exact ⟨hat, used, hle, .stay dir here hleads⟩
  | case4 links place names children dir here ih =>
      obtain ⟨hat, used, hle, hleads⟩ := ih h
      exact ⟨hat, used, hle, .up dir hleads⟩
  | case5 => simp at h
  | case6 => simp at h
  | case7 => simp at h
  | case8 => simp_all
  | case9 => simp at h
  | case10 place name names children dir here hdots hshort target next hgo links
      ih =>
      obtain ⟨hat, used, hle, hleads⟩ := ih h
      -- The names of the link stand before the others and are told apart again.
      obtain ⟨middle, first, second, hfirst, hsecond, rfl⟩ := hleads.split
      exact ⟨hat, first + second + 1, by omega,
        .link (isEntryName_of_at? hroot next) next hfirst hsecond⟩
  | case11 links place name names children dir here hdots hshort t next hplain ih =>
      obtain ⟨hat, used, hle, hleads⟩ := ih h
      refine ⟨hat, used, hle,
        .down (isEntryName_of_at? hroot hplain) hplain ?_ hleads⟩
      cases t with
      | link target => simp_all
      | file content => rfl
      | dir children => rfl
      | pipe => rfl
  | case12 => simp at h

end FindFrom

/-- A null byte is refused before a look-up, not by it. -/
theorem findFrom_ne_nullByte (root : FileTree) (follow : Bool) (links : Nat) (place : Place)
    (names : List FileName) : root.findFrom follow links place names ≠ .error .nullByte := by
  fun_induction findFrom root follow links place names with
  | case3 _ _ _ _ _ _ _ ih => exact ih
  | case4 _ _ _ _ _ _ ih => exact ih
  | case10 _ _ _ _ _ _ _ _ _ _ _ _ ih => exact ih
  | case11 _ _ _ _ _ _ _ _ _ _ _ _ ih => exact ih
  | _ => simp

/-! ## Following links -/

section FollowNames

variable {root : FileTree} {place last : Place} {names : List FileName}

/-- A link that is being followed would take more links than those that are left, so it
is not met again. -/
def Pending (root : FileTree) (active : List Place) (used : Nat) : Prop :=
  active.Nodup ∧ ∀ p ∈ active, ∃ target place name cost middle,
    root.at? p = some (.link target) ∧ p = place ++ [name] ∧
      Leads root place [name] cost middle ∧ used < cost

theorem Pending.mono {active : List Place} {used used' : Nat}
    (h : Pending root active used) (hle : used' ≤ used) :
    Pending root active used' := by
  refine ⟨h.1, fun p hp => ?_⟩
  obtain ⟨target, place, name, cost, middle, hat, hp, hleads, hlt⟩ := h.2 p hp
  exact ⟨target, place, name, cost, middle, hat, hp, hleads, by omega⟩

theorem Pending.length_le {active : List Place} {used : Nat}
    (h : Pending root active used) : active.length ≤ linkCount root := by
  apply length_le_linkCount h.1
  intro p hp
  obtain ⟨target, -, -, -, -, hat, -⟩ := h.2 p hp
  exact ⟨target, hat⟩

theorem Pending.not_mem {active : List Place} {used cost : Nat} {name : FileName}
    {middle : Place} (h : Pending root active used)
    (hleads : Leads root place [name] cost middle) (hle : cost ≤ used) :
    place ++ [name] ∉ active := by
  intro hmem
  obtain ⟨-, place', name', cost', middle', -, heq, hleads', hlt⟩ := h.2 _ hmem
  obtain ⟨rfl, hname⟩ := List.append_inj' heq rfl
  cases hname
  have := (hleads.unique hleads').1
  omega

theorem Pending.cons {active : List Place} {inner links : Nat} {name : FileName}
    {target : RawText} {middle : Place} (h : Pending root active (inner + links + 1))
    (next : root.at? (place ++ [name]) = some (.link target))
    (hleads : Leads root place [name] (inner + 1) middle) :
    Pending root ((place ++ [name]) :: active) inner := by
  refine ⟨List.nodup_cons.2 ⟨h.not_mem hleads (by omega), h.1⟩, ?_⟩
  intro p hp
  rcases List.mem_cons.1 hp with rfl | hp
  · exact ⟨target, place, name, inner + 1, middle, next, rfl, hleads, by omega⟩
  · exact (h.mono (by omega)).2 p hp

theorem followNames_of_leads {used : Nat} (h : Leads root place names used last)
    (strict : Bool) {fuel : Nat} {active : List Place}
    (hactive : Pending root active used)
    (hfuel : linkCount root ≤ fuel + active.length) :
    followNames root strict fuel active place names = .real last := by
  induction h generalizing fuel active with
  | done place => rw [followNames]
  | stay dir here _ ih =>
      rw [followNames]
      simp only [here, if_true]
      exact ih hactive hfuel
  | up dir _ ih =>
      have hdots : staysHere Path.dotDot = false := by decide
      rw [followNames]
      simp only [hdots, if_true, Bool.false_eq_true, if_false]
      exact ih hactive hfuel
  | @down place _ name names _ t entry next plain _ ih =>
      obtain ⟨hhere, hdots, -⟩ := isEntryName_iff.1 entry
      rw [followNames]
      simp only [hhere, hdots, next, Bool.false_eq_true, if_false]
      cases t with
      | link target => simp [isLink] at plain
      | file content => exact ih hactive hfuel
      | dir children => exact ih hactive hfuel
      | pipe => exact ih hactive hfuel
  | @link place middle _ name names inner links target entry next follow _
      ihFollow ih =>
      obtain ⟨hhere, hdots, -⟩ := isEntryName_iff.1 entry
      -- The link is followed with one unit of fuel, which its place makes up for.
      have hself : Leads root place [name] (inner + 1) middle :=
        .link entry next follow (.done middle)
      have hnot := hactive.not_mem hself (by omega)
      have hcons := hactive.cons next hself
      have hlen := hcons.length_le
      simp only [List.length_cons] at hlen
      obtain ⟨fuel, rfl⟩ : ∃ n, fuel = n + 1 := ⟨fuel - 1, by omega⟩
      rw [followNames]
      simp only [hhere, hdots, next, hnot, Bool.false_eq_true, if_false]
      rw [ihFollow hcons (by simp only [List.length_cons]; omega)]
      exact ih (hactive.mono (by omega)) hfuel

def HasPlain (root : FileTree) (place : Place) : Prop :=
  ∃ t, root.at? place = some t ∧ isLink t = false

theorem HasPlain.dropLast (h : HasPlain root place) :
    HasPlain root place.dropLast := by
  rcases List.eq_nil_or_concat' place with rfl | ⟨parent, name, rfl⟩
  · exact h
  · obtain ⟨t, hat, -⟩ := h
    obtain ⟨children, hdir, -⟩ := directory_of_at?_snoc hat
    rw [List.dropLast_concat]
    exact ⟨_, hdir, rfl⟩

theorem HasPlain.linkStart (h : HasPlain root place) (target : RawText) :
    HasPlain root (linkStart target place) := by
  unfold FileTree.linkStart
  split
  · obtain ⟨t, hat, hplain⟩ := h
    cases place with
    | nil => exact ⟨t, hat, hplain⟩
    | cons name place =>
        obtain ⟨u, hchild, -⟩ := Option.bind_eq_some_iff.1 hat
        refine ⟨root, rfl, ?_⟩
        cases root with
        | link target => simp [child?] at hchild
        | file content => rfl
        | dir children => rfl
        | pipe => rfl
  · exact h

theorem leads_of_names {t : FileTree} (hnames : ∀ name ∈ names, isEntryName name = true)
    (hat : root.at? (place ++ names) = some t) (hplain : isLink t = false) :
    Leads root place names 0 (place ++ names) := by
  induction names generalizing place with
  | nil =>
      rw [List.append_nil]
      exact .done place
  | cons name names ih =>
      have hsplit : place ++ name :: names = (place ++ [name]) ++ names := by simp
      rw [hsplit] at hat ⊢
      obtain ⟨u, hu, hrest⟩ : ∃ u, root.at? (place ++ [name]) = some u ∧
          u.at? names = some t := by
        rw [at?_append] at hat
        exact Option.bind_eq_some_iff.1 hat
      refine .down (hnames name List.mem_cons_self) hu ?_
        (ih (fun next hnext => hnames next (List.mem_cons_of_mem _ hnext)) hat)
      cases names with
      | nil =>
          cases hrest
          exact hplain
      | cons next names =>
          cases u with
          | link target => simp [at?, child?] at hrest
          | file content => rfl
          | dir children => rfl
          | pipe => rfl

theorem leads_of_at? (hroot : wellFormed root = true) {t : FileTree}
    (hat : root.at? (place ++ names) = some t) (hplain : isLink t = false) :
    Leads root place names 0 (place ++ names) :=
  leads_of_names
    (fun name hname => isEntryName_of_mem hroot hat name (List.mem_append_right _ hname))
    hat hplain

theorem hasPlain_of_followNames {fuel : Nat} {active : List Place}
    (hplace : HasPlain root place)
    (h : followNames root true fuel active place names = .real last) :
    HasPlain root last := by
  fun_induction followNames root true fuel active place names generalizing last
  case case1 =>
    cases h
    exact hplace
  case case2 ih => exact ih hplace h
  case case3 ih => exact ih hplace.dropLast h
  case case5 hstrict _ => exact absurd rfl hstrict
  case case8 hmiddle ihFollow ih =>
    exact ih (ihFollow (hplace.linkStart _) hmiddle) h
  case case11 t hplain hat ih =>
    refine ih ⟨t, hat, ?_⟩ h
    cases t with
    | link target => exact absurd rfl (hplain target)
    | file content => rfl
    | dir children => rfl
    | pipe => rfl
  all_goals cases h

theorem findFrom_ne_nameTooLong (hroot : wellFormed root = true) {fuel links : Nat}
    {active : List Place} {rest : List FileName}
    (h : followNames root true fuel active place names = .real last)
    (hrest : ∀ links, findFrom root true links last rest ≠ .error .nameTooLong) :
    findFrom root true links place (names ++ rest) ≠ .error .nameTooLong := by
  -- Every name on the way is that of an entry, and entries have short names.
  fun_induction followNames root true fuel active place names
    generalizing last links rest
  case case1 =>
    cases h
    exact hrest links
  case case2 here ih =>
    rw [List.cons_append, findFrom]
    split
    · simp
    · simp only [here, if_true]
      exact ih h hrest
    · simp
  case case3 here ih =>
    rw [List.cons_append, findFrom]
    split
    · simp
    · simp only [here, if_true]
      exact ih h hrest
    · simp
  case case5 hstrict _ => exact absurd rfl hstrict
  case case8 place name _ here hdots next target hat _ _ _ hmiddle ihFollow ih =>
    have hat : root.at? (place ++ [name]) = some (.link target) := hat
    have hshort := (isEntryName_iff.1 (isEntryName_of_at? hroot hat)).2.2.2
    rw [List.cons_append, findFrom]
    split
    · simp
    · simp only [here, hdots, hat, Nat.not_lt.2 hshort, Bool.false_eq_true,
        Bool.not_true, Bool.and_false, if_false]
      cases links with
      | zero => simp
      | succ links => exact ihFollow hmiddle fun links => ih h hrest
    · simp
  case case11 place name _ here hdots next t hplain hat ih =>
    have hat : root.at? (place ++ [name]) = some t := hat
    have hshort := (isEntryName_iff.1 (isEntryName_of_at? hroot hat)).2.2.2
    rw [List.cons_append, findFrom]
    split
    · simp
    · simp only [here, hdots, hat, Nat.not_lt.2 hshort, Bool.false_eq_true,
        if_false]
      cases t with
      | link target => exact absurd rfl (hplain target)
      | file content => exact ih h hrest
      | dir children => exact ih h hrest
      | pipe => exact ih h hrest
    · simp
  all_goals cases h

end FollowNames

end SourceScan.FileTree
