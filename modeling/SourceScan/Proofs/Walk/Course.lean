import SourceScan.Proofs.Walk.Visited

/-!
# The course of a walk

`Course` says by which rules the sights of a walk follow from each other: the names of a
directory come up if it is listed, and a directory is listed when its name has come up,
it is accepted, and the walk is neither in it already nor was it denied before.
-/

namespace SourceScan.Walk

open FileTree Disk

variable {w : Walk} {below : List FileName → List Path → Sights}

/-! ## The rules of a course -/

def real (w : Walk) (names : List FileName) : Except Unresolved Path :=
  w.disk.resolve (w.pathOf names)

/-- The names lead to a directory, which is accepted unless it is the root. -/
def Opens (w : Walk) (dir : List FileName) : Prop :=
  ∃ place children, w.disk.Reaches (w.pathOf dir) place (.dir children) ∧
    (dir ≠ [] → w.Accepts dir place (.dir children))

def Holds (w : Walk) (dir : List FileName) (name : FileName) : Prop :=
  ∃ place children, w.disk.Reaches (w.pathOf dir) place (.dir children) ∧
    name ∈ children.map (·.1)

def Comes (top : List FileName) (xs : List Sight) (names : List FileName) : Prop :=
  names = top ∨ .turn names ∈ xs

/-- The walk is not in the directory already, nor was it denied its names before. -/
structure Fresh (w : Walk) (top : List FileName) (visited : List Path)
    (xs : List Sight) (dir : List FileName) : Prop where
  outer : ∀ p ∈ visited, w.real dir ≠ .ok p
  inner : ∀ above, top <+: above → above <+: dir → above ≠ dir →
    w.real above ≠ w.real dir
  denied : ∀ other, .listing other ∈ xs → NamesBefore other dir → w.Refused other →
    w.real other ≠ w.real dir

/-- How the sights of what names lead to follow from those that come before. -/
structure Keeps (w : Walk) (top : List FileName) (visited : List Path)
    (xs : List Sight) (names : List FileName) : Prop where
  turn_iff : ∀ name, .turn (names ++ [name]) ∈ xs ↔
    .listing names ∈ xs ∧ ¬w.Refused names ∧ w.Holds names name
  misnamed_iff : .misnamed names ∈ xs ↔
    Comes top xs names ∧ (Path.joined names).text? = none
  file_iff : ∀ size, .file names size ∈ xs ↔ Comes top xs names ∧
    ∃ place content, w.Accepts names place (.file content) ∧ content.length = size
  listing_iff : .listing names ∈ xs ↔
    Comes top xs names ∧ w.Opens names ∧ w.Fresh top visited xs names
  failure_iff : ∀ e, .failure names e ∈ xs ↔ names = [] ∧ .listing names ∈ xs ∧
    ∃ cause, w.disk.list (w.pathOf []) = .error cause ∧ e = .rootUnreadable cause

def Course (w : Walk) (top : List FileName) (visited : List Path)
    (xs : List Sight) : Prop :=
  ∀ names, top <+: names → w.Keeps top visited xs names

/-! ## The entries of a directory one after the other -/

theorem entriesSights_append (w : Walk) (below : List FileName → List Path → Sights)
    (dir before after : List FileName) (visited : List Path) :
    w.entriesSights below dir (before ++ after) visited =
      ((w.entriesSights below dir before visited).1 ++
        (w.entriesSights below dir after
          (w.entriesSights below dir before visited).2).1,
       (w.entriesSights below dir after
          (w.entriesSights below dir before visited).2).2) := by
  induction before generalizing visited with
  | nil => rfl
  | cons name before ih =>
      simp only [List.cons_append, entriesSights, ih, List.append_assoc]

theorem entry_eq_of_prefixed {dir names : List FileName} {a b : FileName}
    (ha : dir ++ [a] <+: names) (hb : dir ++ [b] <+: names) : a = b := by
  obtain ⟨rest, rfl⟩ := ha
  obtain ⟨rest', heq⟩ := hb
  simp only [List.append_assoc, List.append_cancel_left_eq, List.singleton_append,
    List.cons.injEq] at heq
  exact heq.1.symm

theorem prefix_cases {dir names : List FileName} (h : dir <+: names) :
    names = dir ∨ ∃ name, dir ++ [name] <+: names := by
  obtain ⟨rest, rfl⟩ := h
  cases rest with
  | nil => exact .inl (List.append_nil dir)
  | cons name rest => exact .inr ⟨name, rest, by simp⟩

theorem not_prefix_self {dir : List FileName} {name : FileName} :
    ¬dir ++ [name] <+: dir := by
  intro h
  have hlen := h.length_le
  rw [List.length_append, List.length_singleton] at hlen
  omega

section Entries

variable {dir before after : List FileName} {name : FileName} {visited : List Path}

theorem mem_entriesSights_under
    (hbelow : ∀ names visited, Ordered names (below names visited).1)
    (hnames : (before ++ name :: after).Pairwise NameBefore) {x : Sight}
    (hx : dir ++ [name] <+: x.names) :
    x ∈ (w.entriesSights below dir (before ++ name :: after) visited).1 ↔
      x = .turn (dir ++ [name]) ∨
      x ∈ (w.sightsAt below (dir ++ [name])
        (w.entriesSights below dir before visited).2).1 := by
  obtain ⟨hbefore, hafter, hcross⟩ := List.pairwise_append.1 hnames
  obtain ⟨hlater, hafter⟩ := List.pairwise_cons.1 hafter
  -- Sights below an entry start with its name, and the names differ.
  have hnot : ∀ (names : List FileName) (visited : List Path),
      names.Pairwise NameBefore → name ∉ names →
      x ∉ (w.entriesSights below dir names visited).1 := by
    intro names visited hnames hname hmem
    obtain ⟨other, hother, hunder⟩ :=
      (entriesSights_pairwise hbelow dir hnames visited).1 x hmem
    rw [entry_eq_of_prefixed hx hunder] at hname
    exact hname hother
  have hnotBefore : name ∉ before := fun h =>
    NameBefore.irrefl name (hcross name h name List.mem_cons_self)
  have hnotAfter : name ∉ after := fun h => NameBefore.irrefl name (hlater name h)
  rw [entriesSights_append, List.mem_append, entriesSights, List.mem_append]
  simp only [hnot before _ hbefore hnotBefore, hnot after _ hafter hnotAfter,
    false_or, or_false, entrySights, List.mem_cons]

theorem mem_entriesSights_before
    (hbelow : ∀ names visited, Ordered names (below names visited).1)
    (hnames : (before ++ name :: after).Pairwise NameBefore) {x : Sight} :
    x ∈ (w.entriesSights below dir before visited).1 ↔
      x ∈ (w.entriesSights below dir (before ++ name :: after) visited).1 ∧
        NamesBefore x.names (dir ++ [name]) := by
  obtain ⟨hbefore, hafter, hcross⟩ := List.pairwise_append.1 hnames
  have hfirst := entriesSights_pairwise (w := w) hbelow dir hbefore visited
  have hsecond := entriesSights_pairwise (w := w) hbelow dir hafter
    (w.entriesSights below dir before visited).2
  rw [entriesSights_append, List.mem_append]
  constructor
  · intro hx
    obtain ⟨other, hother, hunder⟩ := hfirst.1 x hx
    exact ⟨.inl hx, .of_entries (hcross other hother name List.mem_cons_self) hunder
      (List.prefix_refl _)⟩
  · rintro ⟨hx | hx, hlt⟩
    · exact hx
    · exfalso
      obtain ⟨other, hother, hunder⟩ := hsecond.1 x hx
      rcases List.mem_cons.1 hother with rfl | hother
      · by_cases heq : dir ++ [other] = x.names
        · exact NamesBefore.irrefl _ (heq ▸ hlt)
        · exact asymm hlt (NamesBefore.of_prefixed hunder heq)
      · exact asymm hlt (NamesBefore.of_entries
          ((List.pairwise_cons.1 hafter).1 other hother) (List.prefix_refl _) hunder)

end Entries

/-! ## Single entries -/

theorem Accepts.text?_isSome {names : List FileName} {place : Place} {t : FileTree}
    (h : w.Accepts names place t) : (Path.joined names).text? ≠ none := by
  obtain ⟨text, htext, -⟩ := h.kept
  rw [htext]
  simp

theorem Opens.not_file {dir : List FileName} (h : w.Opens dir) {place : Place}
    {content : Bytes} : ¬w.Accepts dir place (.file content) := by
  intro hfile
  obtain ⟨_, _, hreach, -⟩ := h
  cases (hreach.unique hfile.reaches).2

theorem Opens.text?_ne_none {dir : List FileName} (h : w.Opens dir) :
    (Path.joined dir).text? ≠ none := by
  obtain ⟨place, children, -, haccepts⟩ := h
  by_cases hdir : dir = []
  · subst hdir
    simp [Path.joined, List.intercalate, RawText.text?]
  · exact (haccepts hdir).text?_isSome

theorem Holds.iff_mem {dir : List FileName} {place : Place}
    {children : List (FileName × FileTree)}
    (h : w.disk.Reaches (w.pathOf dir) place (.dir children)) {name : FileName} :
    w.Holds dir name ↔ name ∈ children.map (·.1) := by
  constructor
  · rintro ⟨_, _, hreach, hmem⟩
    cases (hreach.unique h).2
    exact hmem
  · exact fun hmem => ⟨place, children, h, hmem⟩

theorem course_of_leaf {top : List FileName} {visited : List Path} {xs : List Sight}
    (htop : top ≠ []) (hxs : ∀ x ∈ xs, x = .misnamed top ∨ ∃ size, x = .file top size)
    (hmisnamed : .misnamed top ∈ xs ↔ (Path.joined top).text? = none)
    (hfile : ∀ size, .file top size ∈ xs ↔
      ∃ place content, w.Accepts top place (.file content) ∧ content.length = size)
    (hopens : ¬w.Opens top) : w.Course top visited xs := by
  have hnone : ∀ x, (∀ size, x ≠ .file top size) → x ≠ .misnamed top → x ∉ xs := by
    intro x hnotFile hnotMisnamed hx
    rcases hxs x hx with h | ⟨size, h⟩
    · exact hnotMisnamed h
    · exact hnotFile size h
  have hcomes : ∀ names, Comes top xs names ↔ names = top := by
    intro names
    simp [Comes, hnone (.turn names)]
  intro names hunder
  refine ⟨fun name => ?_, ?_, fun size => ?_, ?_, fun e => ?_⟩
  · simp [hnone (.turn _), hnone (.listing _)]
  · rw [hcomes]
    by_cases h : names = top
    · subst h
      simp [hmisnamed]
    · simp [h, hnone (.misnamed names)]
  · rw [hcomes]
    by_cases h : names = top
    · subst h
      simp [hfile]
    · simp [h, hnone (.file names size)]
  · rw [hcomes]
    constructor
    · intro h
      exact absurd h (hnone _ (by simp) (by simp))
    · rintro ⟨rfl, h, -⟩
      exact absurd h hopens
  · constructor
    · intro h
      exact absurd h (hnone _ (by simp) (by simp))
    · rintro ⟨rfl, -⟩
      exact absurd (List.prefix_nil.1 hunder) htop

theorem course_sightsAt (hd : w.disk.tree.wellFormed = true) {dir : List FileName}
    {place : Place} {children : List (FileName × FileTree)} {name : FileName}
    (hdir : w.disk.Reaches (w.pathOf dir) place (.dir children))
    (hmem : name ∈ children.map (·.1)) {visited : List Path}
    (hbelow : w.Opens (dir ++ [name]) → w.Course (dir ++ [name]) visited
      (below (dir ++ [name]) visited).1) :
    w.Course (dir ++ [name]) visited
      (w.sightsAt below (dir ++ [name]) visited).1 := by
  have htop : dir ++ [name] ≠ [] := by simp
  have hopens : w.Opens (dir ++ [name]) →
      ∃ last entries, w.Accepts (dir ++ [name]) last (.dir entries) := by
    rintro ⟨last, entries, -, h⟩
    exact ⟨last, entries, h htop⟩
  -- Only a directory leads on to further sights, which are those of `hbelow`.
  rcases sightsAt_cases hd hdir hmem below visited with
    ⟨htext, heq⟩ | ⟨last, entries, haccepts, heq⟩ | ⟨last, content, haccepts, heq⟩ |
    ⟨htext, hnotDir, hnotFile, heq⟩
  · rw [heq]
    refine course_of_leaf htop (by simp) (by simp [htext]) ?_ fun h => ?_
    · refine fun size => ⟨by simp, ?_⟩
      rintro ⟨_, _, h, -⟩
      exact absurd htext h.text?_isSome
    · obtain ⟨_, _, h⟩ := hopens h
      exact h.text?_isSome htext
  · rw [heq]
    exact hbelow ⟨last, entries, haccepts.reaches, fun _ => haccepts⟩
  · rw [heq]
    refine course_of_leaf htop (by simp) (by simp [haccepts.text?_isSome]) ?_ fun h => ?_
    · intro size
      simp only [List.mem_singleton, Sight.file.injEq, true_and]
      constructor
      · rintro rfl
        exact ⟨last, content, haccepts, rfl⟩
      · rintro ⟨_, _, h, rfl⟩
        cases (h.unique haccepts).2
        rfl
    · exact h.not_file haccepts
  · rw [heq]
    refine course_of_leaf htop (by simp) ?_ ?_ fun h => ?_
    · simp [Option.isSome_iff_ne_none.1 htext]
    · refine fun size => ⟨by simp, ?_⟩
      rintro ⟨_, _, h, -⟩
      exact absurd h (hnotFile _ _)
    · obtain ⟨_, _, h⟩ := hopens h
      exact hnotDir _ _ h

/-! ## Directories -/

theorem Opens.real (hd : w.disk.tree.wellFormed = true) {dir : List FileName}
    (h : w.Opens dir) : ∃ p, w.real dir = .ok p := by
  obtain ⟨place, _, hreach, -⟩ := h
  exact ⟨absolute place, hreach.resolve hd⟩

section Directory

variable {dir : List FileName} {visited : List Path} {xs : List Sight}

theorem Fresh.top (hxs : Ordered dir xs) (hnew : ∀ p ∈ visited, w.real dir ≠ .ok p) :
    w.Fresh dir visited xs dir := by
  refine ⟨hnew, fun above hunder habove hne => ?_, fun other hother hlt => ?_⟩
  · exact absurd (habove.eq_of_length_le hunder.length_le) hne
  · exfalso
    have hunder : dir <+: other := hxs.below _ hother
    by_cases heq : dir = other
    · exact NamesBefore.irrefl _ (heq ▸ hlt)
    · exact asymm hlt (NamesBefore.of_prefixed hunder heq)

theorem Opens.keeps (hopens : w.Opens dir)
    (hturn : ∀ name, .turn (dir ++ [name]) ∈ xs ↔
      .listing dir ∈ xs ∧ ¬w.Refused dir ∧ w.Holds dir name)
    (hlisting : .listing dir ∈ xs ↔ w.Fresh dir visited xs dir)
    (hmisnamed : .misnamed dir ∉ xs) (hfile : ∀ size, .file dir size ∉ xs)
    (hfailure : ∀ e, .failure dir e ∈ xs ↔ dir = [] ∧ .listing dir ∈ xs ∧
      ∃ cause, w.disk.list (w.pathOf []) = .error cause ∧ e = .rootUnreadable cause) :
    w.Keeps dir visited xs dir := by
  refine ⟨hturn, ?_, fun size => ?_, ?_, hfailure⟩
  · constructor
    · exact fun h => absurd h hmisnamed
    · exact fun h => absurd h.2 hopens.text?_ne_none
  · constructor
    · exact fun h => absurd h (hfile size)
    · rintro ⟨-, _, _, h, -⟩
      exact absurd h hopens.not_file
  · rw [hlisting]
    constructor
    · exact fun h => ⟨.inl rfl, hopens, h⟩
    · exact fun h => h.2.2

theorem keeps_of_none {names : List FileName} (hne : names ≠ dir) (hdir : dir <+: names)
    (hnone : ∀ x ∈ xs, ¬names <+: x.names) : w.Keeps dir visited xs names := by
  have hself : ∀ x : Sight, x.names = names → x ∉ xs := by
    rintro x rfl hx
    exact hnone x hx (List.prefix_refl _)
  have hcomes : ¬Comes dir xs names := by
    rintro (h | h)
    · exact hne h
    · exact hself _ rfl h
  have hroot : names ≠ [] := by
    rintro rfl
    exact hne (List.prefix_nil.1 hdir).symm
  refine ⟨fun name => ?_, ?_, fun size => ?_, ?_, fun e => ?_⟩
  · constructor
    · exact fun h => absurd (List.prefix_append _ _) (hnone _ h)
    · exact fun h => absurd h.1 (hself _ rfl)
  · exact ⟨fun h => absurd h (hself _ rfl), fun h => absurd h.1 hcomes⟩
  · exact ⟨fun h => absurd h (hself _ rfl), fun h => absurd h.1 hcomes⟩
  · exact ⟨fun h => absurd h (hself _ rfl), fun h => absurd h.1 hcomes⟩
  · exact ⟨fun h => absurd h (hself _ rfl), fun h => absurd h.1 hroot⟩

theorem course_of_visited (hopens : w.Opens dir) {p : Path} (hreal : w.real dir = .ok p)
    (hp : p ∈ visited) : w.Course dir visited [] := by
  intro names hunder
  by_cases hnames : names = dir
  · subst hnames
    refine hopens.keeps (by simp) ?_ (by simp) (by simp) (by simp)
    constructor
    · exact fun h => absurd h (by simp)
    · exact fun h => absurd hreal (h.outer p hp)
  · exact keeps_of_none hnames hunder (by simp)

theorem course_of_refused (hopens : w.Opens dir)
    (hnew : ∀ p ∈ visited, w.real dir ≠ .ok p)
    {e : DiskError} (hlist : w.disk.list (w.pathOf dir) = .error e)
    (hxs : xs = .listing dir ::
      if dir.isEmpty then [.failure dir (.rootUnreadable e)] else [])
    (hordered : Ordered dir xs) : w.Course dir visited xs := by
  have hmem : ∀ x, x ∈ xs ↔ x = .listing dir ∨
      dir = [] ∧ x = .failure dir (.rootUnreadable e) := by
    intro x
    rw [hxs]
    cases dir <;> simp
  intro names hunder
  by_cases hnames : names = dir
  · subst hnames
    refine hopens.keeps (fun name => ?_) ?_ (by simp [hmem]) (by simp [hmem]) fun e' => ?_
    · constructor
      · exact fun h => absurd ((hmem _).1 h) (by simp)
      · exact fun h => absurd ⟨e, hlist⟩ h.2.1
    · exact ⟨fun _ => .top hordered hnew, fun _ => (hmem _).2 (.inl rfl)⟩
    · constructor
      · intro h
        rcases (hmem _).1 h with h | ⟨rfl, h⟩
        · simp at h
        · cases h
          exact ⟨rfl, (hmem _).2 (.inl rfl), e, hlist, rfl⟩
      · rintro ⟨rfl, -, cause, hcause, rfl⟩
        rw [hlist] at hcause
        cases hcause
        exact (hmem _).2 (.inr ⟨rfl, rfl⟩)
  · refine keeps_of_none hnames hunder fun x hx hbelow => hnames ?_
    have hsame : x.names = dir := by
      rcases (hmem x).1 hx with rfl | ⟨-, rfl⟩ <;> rfl
    rw [hsame] at hbelow
    exact hbelow.eq_of_length_le hunder.length_le

structure Part (w : Walk) (dir : List FileName) (visited : List Path)
    (xs : List Sight) (name : FileName) (inner : List Path) (ys : List Sight) :
    Prop where
  course : w.Course (dir ++ [name]) inner ys
  ordered : Ordered (dir ++ [name]) ys
  mem_iff : ∀ x, dir ++ [name] <+: x.names →
    (x ∈ xs ↔ x = .turn (dir ++ [name]) ∨ x ∈ ys)
  visited_iff : ∀ p, p ∈ inner ↔ p ∈ visited ∨ w.real dir = .ok p ∨
    ∃ other, .listing other ∈ xs ∧ NamesBefore other (dir ++ [name]) ∧
      w.Refused other ∧ w.real other = .ok p

namespace Part

variable {name : FileName} {inner : List Path} {ys : List Sight}

theorem comes_iff (h : w.Part dir visited xs name inner ys) {names : List FileName}
    (hunder : dir ++ [name] <+: names) :
    Comes dir xs names ↔ Comes (dir ++ [name]) ys names := by
  unfold Comes
  rw [h.mem_iff (.turn names) hunder, Sight.turn.injEq]
  have hne : names ≠ dir := by
    rintro rfl
    exact not_prefix_self hunder
  simp [hne]

theorem listing_mem_iff (h : w.Part dir visited xs name inner ys)
    {other : List FileName} (hunder : dir ++ [name] <+: other) :
    .listing other ∈ xs ↔ .listing other ∈ ys := by
  rw [h.mem_iff (.listing other) hunder]
  simp

theorem fresh_iff (hd : w.disk.tree.wellFormed = true)
    (h : w.Part dir visited xs name inner ys) (hxs : Ordered dir xs)
    (hlisted : ¬w.Refused dir) {q : List FileName} (hq : w.Opens q)
    (hunder : dir ++ [name] <+: q)
    (hreal : ∀ other, .listing other ∈ xs → ∃ p, w.real other = .ok p) :
    w.Fresh (dir ++ [name]) inner ys q ↔ w.Fresh dir visited xs q := by
  have hdirq : dir <+: q := (List.prefix_append _ _).trans hunder
  have hne : dir ≠ q := by
    rintro rfl
    exact not_prefix_self hunder
  constructor
  · intro hfresh
    have hdir : w.real dir ≠ w.real q := by
      intro heq
      obtain ⟨p, hp⟩ := hq.real hd
      exact hfresh.outer p ((h.visited_iff p).2 (.inr (.inl (heq.trans hp)))) hp
    refine ⟨fun p hp => hfresh.outer p ((h.visited_iff p).2 (.inl hp)), ?_, ?_⟩
    · intro above hdown hup habove
      rcases prefix_cases hdown with rfl | ⟨other, hother⟩
      · exact hdir
      · obtain rfl := entry_eq_of_prefixed (hother.trans hup) hunder
        exact hfresh.inner above hother hup habove
    · intro other hother hlt hrefused heq
      rcases prefix_cases (hxs.below _ hother) with hsame | ⟨first, hfirst⟩
      · obtain rfl : other = dir := hsame
        exact hlisted hrefused
      · by_cases hname : first = name
        · subst hname
          exact hfresh.denied other ((h.listing_mem_iff hfirst).1 hother) hlt
            hrefused heq
        -- Earlier entries have left their denied directories in `inner`, later ones are
        -- still to come.
        · rcases trichotomous_of NameBefore first name with hbefore | hsame | hafter
          · obtain ⟨p, hp⟩ := hreal other hother
            have hinner : p ∈ inner := (h.visited_iff p).2 (.inr (.inr ⟨other, hother,
              .of_entries hbefore hfirst (List.prefix_refl _), hrefused, hp⟩))
            exact hfresh.outer p hinner (heq.symm.trans hp)
          · exact hname hsame
          · exact asymm hlt (NamesBefore.of_entries hafter hunder hfirst)
  · intro hfresh
    refine ⟨fun p hp => ?_, fun above hdown hup habove => ?_,
      fun other hother hlt hrefused => ?_⟩
    · rcases (h.visited_iff p).1 hp with hp | hp | ⟨other, hother, hlt, hrefused, hp⟩
      · exact hfresh.outer p hp
      · intro heq
        exact hfresh.inner dir (List.prefix_refl _) hdirq hne (hp.trans heq.symm)
      · intro heq
        have hbefore : NamesBefore other q := by
          by_cases htop : dir ++ [name] = q
          · exact htop ▸ hlt
          · exact hlt.trans (.of_prefixed hunder htop)
        exact hfresh.denied other hother hbefore hrefused (hp.trans heq.symm)
    · exact hfresh.inner above ((List.prefix_append _ _).trans hdown) hup habove
    · exact hfresh.denied other
        ((h.listing_mem_iff (h.ordered.below _ hother)).2 hother) hlt hrefused

end Part

theorem Part.keeps (hd : w.disk.tree.wellFormed = true) {name : FileName}
    {inner : List Path} {ys : List Sight} (h : w.Part dir visited xs name inner ys)
    (hxs : Ordered dir xs) (hlisted : ¬w.Refused dir)
    (hreal : ∀ other, .listing other ∈ xs → ∃ p, w.real other = .ok p)
    {q : List FileName} (hunder : dir ++ [name] <+: q) :
    w.Keeps dir visited xs q := by
  have hkeeps := h.course q hunder
  have hne : q ≠ [] := by
    rintro rfl
    simp at hunder
  refine ⟨fun next => ?_, ?_, fun size => ?_, ?_, fun e => ?_⟩
  · have hlater : q ++ [next] ≠ dir ++ [name] := by
      intro heq
      rw [← heq] at hunder
      exact not_prefix_self hunder
    rw [h.listing_mem_iff hunder, ← hkeeps.turn_iff,
      h.mem_iff (.turn _) (hunder.trans (List.prefix_append _ _)), Sight.turn.injEq]
    simp [hlater]
  · rw [h.comes_iff hunder, ← hkeeps.misnamed_iff, h.mem_iff (.misnamed q) hunder]
    simp
  · rw [h.comes_iff hunder, ← hkeeps.file_iff, h.mem_iff (.file q size) hunder]
    simp
  · rw [h.comes_iff hunder, h.listing_mem_iff hunder, hkeeps.listing_iff]
    refine and_congr_right fun _ => and_congr_right fun hq => ?_
    exact h.fresh_iff hd hxs hlisted hq hunder hreal
  · rw [h.mem_iff (.failure q e) hunder]
    simp [hkeeps.failure_iff, hne]

theorem course_of_listed (hd : w.disk.tree.wellFormed = true) (hopens : w.Opens dir)
    (hlisted : ¬w.Refused dir) (hxs : Ordered dir xs)
    (hnew : ∀ p ∈ visited, w.real dir ≠ .ok p) (hself : .listing dir ∈ xs)
    (honly : ∀ x ∈ xs, x = .listing dir ∨
      ∃ name, w.Holds dir name ∧ dir ++ [name] <+: x.names)
    (hparts : ∀ name, w.Holds dir name → ∃ inner ys, w.Part dir visited xs name inner ys)
    (hreal : ∀ other, .listing other ∈ xs → ∃ p, w.real other = .ok p) :
    w.Course dir visited xs := by
  have hheld : ∀ x ∈ xs, ∀ name, dir ++ [name] <+: x.names → w.Holds dir name := by
    intro x hx name hunder
    rcases honly x hx with rfl | ⟨other, hother, hunder'⟩
    · exact absurd hunder not_prefix_self
    · rw [entry_eq_of_prefixed hunder hunder']
      exact hother
  have hnone : ∀ x, x.names = dir → x ≠ .listing dir → x ∉ xs := by
    intro x hnames hne hx
    rcases honly x hx with rfl | ⟨name, -, hunder⟩
    · exact hne rfl
    · rw [hnames] at hunder
      exact not_prefix_self hunder
  -- The names are those of the directory, or lie below one of its names.
  intro q hq
  rcases prefix_cases hq with rfl | ⟨first, hunder⟩
  · refine hopens.keeps (fun name => ?_) ⟨fun _ => .top hxs hnew, fun _ => hself⟩
      (hnone _ rfl (by simp)) (fun size => hnone _ rfl (by simp)) fun e => ?_
    · constructor
      · intro h
        exact ⟨hself, hlisted, hheld _ h name (List.prefix_refl _)⟩
      · rintro ⟨-, -, hname⟩
        obtain ⟨inner, ys, hpart⟩ := hparts name hname
        exact (hpart.mem_iff _ (List.prefix_refl _)).2 (.inl rfl)
    · constructor
      · intro h
        exact absurd h (hnone _ rfl (by simp))
      · rintro ⟨rfl, -, cause, hcause, -⟩
        exact absurd ⟨cause, hcause⟩ hlisted
  · by_cases hfirst : w.Holds dir first
    · obtain ⟨inner, ys, hpart⟩ := hparts first hfirst
      exact hpart.keeps hd hxs hlisted hreal hunder
    · refine keeps_of_none ?_ hq fun x hx hbelow => hfirst ?_
      · rintro rfl
        exact not_prefix_self hunder
      · exact hheld x hx first (hunder.trans hbelow)

end Directory

end SourceScan.Walk
