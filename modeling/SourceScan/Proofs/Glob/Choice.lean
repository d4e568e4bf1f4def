import Mathlib.Data.List.Basic
import SourceScan.Proofs.Glob.Expansion

/-!
# What brace groups stand for

A pattern in which every brace belongs to a group is a row of literal characters and of groups
of two options or more, and each option is such a row again.  It stands for the texts that come
of choosing one option in each group.  Expansion puts each option of the first group into the
whole pattern and starts over on the result, which comes to the same.
-/

namespace SourceScan.Glob

/-! ## Each text once -/

section EraseDups

variable {α β : Type} [BEq α] [LawfulBEq α]

omit [BEq α] [LawfulBEq α] in
theorem length_filter_lt (p : α → Bool) (x : α) (xs : List α) :
    (xs.filter p).length < (x :: xs).length :=
  Nat.lt_succ_of_le (List.length_filter_le _ _)

theorem nodup_eraseDups : (xs : List α) → xs.eraseDups.Nodup
  | [] => List.nodup_nil
  | x :: xs => by
      rw [List.eraseDups_cons, List.nodup_cons]
      refine ⟨fun hmem => ?_, nodup_eraseDups (xs.filter fun y => !y == x)⟩
      simp at hmem
termination_by xs => xs.length
decreasing_by exact length_filter_lt _ _ _

theorem eraseDups_eq_self {xs : List α} (h : xs.Nodup) : xs.eraseDups = xs := by
  induction xs with
  | nil => rfl
  | cons x xs ih =>
      obtain ⟨hx, hxs⟩ := List.nodup_cons.1 h
      have hkeep : (xs.filter fun y => !y == x) = xs := by
        refine List.filter_eq_self.2 fun y hy => ?_
        have hne : y ≠ x := fun heq => hx (heq ▸ hy)
        simpa using hne
      rw [List.eraseDups_cons, hkeep, ih hxs]

theorem eraseDups_filter (p : α → Bool) :
    (xs : List α) → (xs.filter p).eraseDups = xs.eraseDups.filter p
  | [] => rfl
  | x :: xs => by
      have hrest := eraseDups_filter p (xs.filter fun y => !y == x)
      rw [List.eraseDups_cons, List.filter_cons, List.filter_cons, ← hrest]
      by_cases hp : p x = true
      · simp only [hp, if_true, List.eraseDups_cons, List.filter_filter, Bool.and_comm]
      · -- The element goes either way, so striking it out first makes no difference.
        have hout : (xs.filter p) = (xs.filter fun y => !y == x).filter p := by
          rw [List.filter_filter]
          refine List.filter_congr fun y _ => ?_
          by_cases hy : y = x <;> simp_all
        simp only [hp, if_false, Bool.false_eq_true, hout]
termination_by xs => xs.length
decreasing_by exact length_filter_lt _ _ _

theorem eraseDups_append_left (xs ys : List α) :
    (xs.eraseDups ++ ys).eraseDups = (xs ++ ys).eraseDups := by
  have hsame : ys.removeAll xs.eraseDups = ys.removeAll xs := by
    simp [List.removeAll, List.mem_eraseDups]
  rw [List.eraseDups_append, List.eraseDups_append, hsame, eraseDups_eq_self (nodup_eraseDups xs)]

theorem eraseDups_append_right (xs ys : List α) :
    (xs ++ ys.eraseDups).eraseDups = (xs ++ ys).eraseDups := by
  rw [List.eraseDups_append, List.eraseDups_append, List.removeAll, List.removeAll,
    eraseDups_filter, eraseDups_filter, eraseDups_eq_self (nodup_eraseDups ys)]

theorem eraseDups_flatMap (f : β → List α) (xs : List β) :
    (xs.flatMap fun x => (f x).eraseDups).eraseDups = (xs.flatMap f).eraseDups := by
  induction xs with
  | nil => rfl
  | cons x xs ih =>
      rw [List.flatMap_cons, List.flatMap_cons, eraseDups_append_left, ← eraseDups_append_right,
        ih, eraseDups_append_right]

end EraseDups

/-! ## Patterns -/

mutual

inductive Branching where
  | done
  | literal (c : Char) (rest : Branching)
  | group (options : Branches) (rest : Branching)

inductive Branches where
  | two (first second : Branching)
  | more (first : Branching) (others : Branches)

end

mutual

def Branching.render : Branching → Text
  | .done => []
  | .literal c rest => c :: rest.render
  | .group options rest => '\x7b' :: (options.render ++ '\x7d' :: rest.render)

def Branches.render : Branches → Text
  | .two first second => first.render ++ ',' :: second.render
  | .more first others => first.render ++ ',' :: others.render

end

mutual

/-- All texts that come of choosing one option in each group, the choice in the leftmost group
varying slowest. -/
def Branching.choices : Branching → List Text
  | .done => [[]]
  | .literal c rest => rest.choices.map (c :: ·)
  | .group options rest => options.choices.flatMap fun chosen => rest.choices.map (chosen ++ ·)

def Branches.choices : Branches → List Text
  | .two first second => first.choices ++ second.choices
  | .more first others => first.choices ++ others.choices

end

mutual

/-- No literal character is a brace, and within a group none of an option's own is a comma. -/
def Branching.Proper (inside : Bool) : Branching → Prop
  | .done => True
  | .literal c rest =>
      (c ≠ '\x7b' ∧ c ≠ '\x7d' ∧ (inside = true → c ≠ ',')) ∧ rest.Proper inside
  | .group options rest => options.Proper ∧ rest.Proper inside

def Branches.Proper : Branches → Prop
  | .two first second => first.Proper true ∧ second.Proper true
  | .more first others => first.Proper true ∧ others.Proper

end

def Branches.toList : Branches → List Branching
  | .two first second => [first, second]
  | .more first others => first :: others.toList

def Branching.append : Branching → Branching → Branching
  | .done, next => next
  | .literal c rest, next => .literal c (rest.append next)
  | .group options rest, next => .group options (rest.append next)

namespace Branches

theorem exists_toList (options : Branches) :
    ∃ first second others, options.toList = first :: second :: others := by
  cases options with
  | two first second => exact ⟨first, second, [], rfl⟩
  | more first others =>
      cases others with
      | two second third => exact ⟨first, second, [third], rfl⟩
      | more second others => exact ⟨first, second, others.toList, rfl⟩

theorem choices_eq (options : Branches) :
    options.choices = options.toList.flatMap Branching.choices := by
  induction options using Branches.rec (motive_1 := fun _ => True) with
  | done | literal | group => trivial
  | two first second => simp [choices, toList]
  | more first others _ ih => rw [choices, toList, List.flatMap_cons, ih]

theorem Proper.of_mem {options : Branches} (h : options.Proper) :
    ∀ option ∈ options.toList, option.Proper true := by
  induction options using Branches.rec (motive_1 := fun _ => True) with
  | done | literal | group => trivial
  | two first second => simpa [toList, Proper] using h
  | more first others _ ih => exact List.forall_mem_cons.2 ⟨h.1, ih h.2⟩

end Branches

namespace Branching

theorem render_append (p q : Branching) : (p.append q).render = p.render ++ q.render := by
  induction p using Branching.rec (motive_2 := fun _ => True) with
  | done => rfl
  | literal c rest ih => simp [append, render, ih]
  | group options rest _ ih => simp [append, render, ih]
  | two | more => trivial

theorem choices_append (p q : Branching) :
    (p.append q).choices = p.choices.flatMap fun chosen => q.choices.map (chosen ++ ·) := by
  induction p using Branching.rec (motive_2 := fun _ => True) with
  | done => simp [append, choices]
  | literal c rest ih =>
      simp [append, choices, ih, List.map_flatMap, List.flatMap_map, Function.comp_def]
  | group options rest _ ih =>
      simp [append, choices, ih, List.map_flatMap, List.flatMap_map, List.flatMap_assoc,
        Function.comp_def]
  | two | more => trivial

theorem Proper.outside {p : Branching} {inside : Bool} (h : p.Proper inside) :
    p.Proper false := by
  induction p using Branching.rec (motive_2 := fun _ => True) with
  | done => trivial
  | literal c rest ih => exact ⟨⟨h.1.1, h.1.2.1, by simp⟩, ih h.2⟩
  | group options rest _ ih => exact ⟨h.1, ih h.2⟩
  | two | more => trivial

theorem Proper.append {p q : Branching} (hp : p.Proper false) (hq : q.Proper false) :
    (p.append q).Proper false := by
  induction p using Branching.rec (motive_2 := fun _ => True) with
  | done => exact hq
  | literal c rest ih => exact ⟨hp.1, ih hp.2⟩
  | group options rest _ ih => exact ⟨hp.1, ih hp.2⟩
  | two | more => trivial

end Branching

/-! ## Reading a group -/

section Reading

variable (depth : Nat) (current : Text) (done : List Text) (t : Text)

theorem splitGroup_open : splitGroup depth current done ('\x7b' :: t) =
    splitGroup (depth + 1) ('\x7b' :: current) done t := by
  simp [splitGroup]

theorem splitGroup_close : splitGroup (depth + 1) current done ('\x7d' :: t) =
    splitGroup depth ('\x7d' :: current) done t := by
  simp [splitGroup]

theorem splitGroup_end : splitGroup 0 current done ('\x7d' :: t) =
    some ((current.reverse :: done).reverse, t) := by
  simp [splitGroup]

theorem splitGroup_comma : splitGroup 0 current done (',' :: t) =
    splitGroup 0 [] (current.reverse :: done) t := by
  simp [splitGroup]

variable {depth} in
theorem splitGroup_literal {c : Char} (hopen : c ≠ '\x7b') (hclose : c ≠ '\x7d')
    (hcomma : c ≠ ',' ∨ depth ≠ 0) : splitGroup depth current done (c :: t) =
      splitGroup depth (c :: current) done t := by
  have hstays : ¬(decide (c = ',') && decide (depth = 0)) = true := by
    rcases hcomma with h | h <;> simp [h]
  rw [splitGroup.eq_def]
  simp only [Glyph.ofChar_char]
  rw [if_neg hopen, if_neg hclose, if_neg hstays]

end Reading

mutual

theorem splitGroup_row {inside : Bool} (p : Branching) (hp : p.Proper inside) {depth : Nat}
    (hdepth : inside = true ∨ depth ≠ 0) (current : Text) (done : List Text) (t : Text) :
    splitGroup depth current done (p.render ++ t) =
      splitGroup depth (p.render.reverse ++ current) done t := by
  match p, hp with
  | .done, _ => rfl
  | .literal c rest, ⟨⟨hopen, hclose, hcomma⟩, hrest⟩ =>
      simp only [Branching.render, List.cons_append, List.reverse_cons, List.append_assoc,
        List.nil_append]
      rw [splitGroup_literal _ _ _ hopen hclose (hdepth.imp_left hcomma),
        splitGroup_row rest hrest hdepth]
  | .group options rest, ⟨hoptions, hrest⟩ =>
      simp only [Branching.render, List.cons_append, List.reverse_cons, List.reverse_append,
        List.append_assoc, List.nil_append]
      rw [splitGroup_open, splitGroup_inner options hoptions, splitGroup_close,
        splitGroup_row rest hrest hdepth]

theorem splitGroup_inner (options : Branches) (h : options.Proper) {depth : Nat}
    (current : Text) (done : List Text) (t : Text) :
    splitGroup (depth + 1) current done (options.render ++ t) =
      splitGroup (depth + 1) (options.render.reverse ++ current) done t := by
  match options, h with
  | .two first second, ⟨hfirst, hsecond⟩ =>
      simp only [Branches.render, List.cons_append, List.reverse_cons, List.reverse_append,
        List.append_assoc, List.nil_append]
      rw [splitGroup_row first hfirst (.inl rfl),
        splitGroup_literal _ _ _ (by decide) (by decide) (.inr (Nat.succ_ne_zero depth)),
        splitGroup_row second hsecond (.inl rfl)]
  | .more first others, ⟨hfirst, hothers⟩ =>
      simp only [Branches.render, List.cons_append, List.reverse_cons, List.reverse_append,
        List.append_assoc, List.nil_append]
      rw [splitGroup_row first hfirst (.inl rfl),
        splitGroup_literal _ _ _ (by decide) (by decide) (.inr (Nat.succ_ne_zero depth)),
        splitGroup_inner others hothers]

end

theorem splitGroup_options (options : Branches) (h : options.Proper) (done : List Text) (t : Text) :
    splitGroup 0 [] done (options.render ++ '\x7d' :: t) =
      some (done.reverse ++ options.toList.map Branching.render, t) := by
  induction options using Branches.rec (motive_1 := fun _ => True) generalizing done with
  | done | literal | group => trivial
  | two first second =>
      simp only [Branches.render, List.cons_append, List.append_assoc]
      rw [splitGroup_row first h.1 (.inl rfl), splitGroup_comma,
        splitGroup_row second h.2 (.inl rfl), splitGroup_end]
      simp [Branches.toList]
  | more first others _ ih =>
      simp only [Branches.render, List.cons_append, List.append_assoc]
      rw [splitGroup_row first h.1 (.inl rfl), splitGroup_comma, ih h.2]
      simp [Branches.toList]

/-! ## Expanding a pattern -/

theorem cutWhere_append {α : Type} {p : α → Bool} {before after : List α} {c : α}
    (hbefore : ∀ d ∈ before, p d = false) (hc : p c = true) :
    Text.cutWhere p (before ++ c :: after) = some (before, c, after) := by
  induction before with
  | nil => simp [Text.cutWhere, hc]
  | cons d before ih =>
      obtain ⟨hd, hrest⟩ := List.forall_mem_cons.1 hbefore
      simp [Text.cutWhere, hd, ih hrest]

theorem openings_lt_of_mem {options : Branches} {option : Branching}
    (hoption : option ∈ options.toList) (rest : Branching) :
    openings (option.append rest).render < openings (Branching.group options rest).render := by
  have hle : openings option.render ≤ openings options.render := by
    induction options using Branches.rec (motive_1 := fun _ => True) with
    | done | literal | group => trivial
    | two first second =>
        simp only [Branches.toList, List.mem_cons, List.not_mem_nil, or_false] at hoption
        simp only [Branches.render, openings, List.count_append, List.count_cons]
        rcases hoption with rfl | rfl <;> omega
    | more first others _ ih =>
        simp only [Branches.render, openings, List.count_append, List.count_cons]
        rcases List.mem_cons.1 hoption with rfl | hoption
        · omega
        · have := ih hoption
          simp only [openings] at this
          omega
  rw [Branching.render_append]
  simp only [Branching.render, openings, List.count_append, List.count_cons, Glyph.ofChar_char,
    beq_self_eq_true, if_true] at hle ⊢
  omega

/-- Behind literal text a pattern expands to its choices.  Either a character joins that text, or
an option takes the place of the first group, which leaves one group less. -/
theorem expand_render {before : Text} (hbefore : '\x7b' ∉ before) (p : Branching)
    (hp : p.Proper false) :
    expand (before ++ p.render) = (p.choices.map (before ++ ·)).eraseDups := by
  match p, hp with
  | .done, _ =>
      rw [Branching.render, List.append_nil, expand_of_literal hbefore]
      simp [Branching.choices, List.eraseDups_cons]
  | .literal c rest, ⟨⟨hopen, _⟩, hrest⟩ =>
      have hlonger : '\x7b' ∉ before ++ [c] := by
        simpa [hbefore] using Ne.symm hopen
      have hrest := expand_render hlonger rest hrest
      simpa [Branching.render, Branching.choices, Function.comp_def] using hrest
  | .group options rest, ⟨hoptions, hrest⟩ =>
      obtain ⟨first, second, others, hlist⟩ := options.exists_toList
      have hcut : Text.cutWhere (· = '\x7b') (before ++ (Branching.group options rest).render) =
          some (before, '\x7b', options.render ++ '\x7d' :: rest.render) := by
        refine cutWhere_append (fun d hd => ?_) (by decide)
        exact decide_eq_false fun heq => hbefore (heq ▸ hd)
      have hsplit := splitGroup_options options hoptions [] rest.render
      rw [hlist] at hsplit
      have hchosen : ∀ option ∈ options.toList,
          expand (before ++ option.render ++ rest.render) =
            ((option.append rest).choices.map (before ++ ·)).eraseDups := by
        intro option hoption
        have hfewer := openings_lt_of_mem hoption rest
        rw [List.append_assoc, ← Branching.render_append]
        exact expand_render hbefore (option.append rest)
          ((hoptions.of_mem option hoption).outside.append hrest)
      calc expand (before ++ (Branching.group options rest).render)
          = ((options.toList.map Branching.render).flatMap fun option =>
              expand (before ++ option ++ rest.render)).eraseDups := by
            rw [expand_of_choice hcut hsplit, hlist]
            rfl
        _ = (options.toList.flatMap fun option =>
              ((option.append rest).choices.map (before ++ ·)).eraseDups).eraseDups := by
            rw [List.flatMap_map, List.flatMap_congr hchosen]
        _ = (options.toList.flatMap fun option =>
              (option.append rest).choices.map (before ++ ·)).eraseDups :=
            eraseDups_flatMap _ _
        _ = ((Branching.group options rest).choices.map (before ++ ·)).eraseDups := by
            simp only [Branching.choices, Branches.choices_eq, Branching.choices_append,
              List.flatMap_assoc, List.map_flatMap]
termination_by (openings p.render, sizeOf p)
decreasing_by
  · have hsame : openings (Branching.literal c rest).render = openings rest.render := by
      simp [Branching.render, openings, hopen]
    rw [hsame]
    refine Prod.Lex.right _ ?_
    simp only [Branching.literal.sizeOf_spec]
    omega
  · exact Prod.Lex.left _ _ hfewer

/-! ## Any text -/

theorem options_ne_nil {skipped s : Text} {g : Group Char} (h : firstGroupFrom skipped s = some g) :
    g.options ≠ [] := by
  fun_induction firstGroupFrom skipped s with
  | case1 | case2 | case3 => simp at h
  | case4 skipped s before d rest hcut only after hsplit ih => exact ih h
  | case5 skipped s before d rest hcut options after hnil hone hsplit =>
      cases h
      exact hnil

theorem expand_ne_nil (s : Text) : expand s ≠ [] := by
  fun_induction expand s with
  | case1 s => exact List.cons_ne_nil _ _
  | case2 s g hg ih =>
      obtain ⟨option, hoption⟩ := List.exists_mem_of_ne_nil _ (options_ne_nil hg)
      obtain ⟨a, ha⟩ := List.exists_mem_of_ne_nil _ (ih ⟨option, hoption⟩)
      have hmem : a ∈ g.options.attach.flatMap fun o => expand (g.before ++ o.1 ++ g.after) :=
        List.mem_flatMap.2 ⟨⟨option, hoption⟩, List.mem_attach _ _, ha⟩
      exact List.ne_nil_of_mem (List.mem_eraseDups.2 hmem)

theorem nodup_expand (s : Text) : (expand s).Nodup := by
  unfold expand
  split
  · exact List.nodup_cons.2 ⟨List.not_mem_nil, List.nodup_nil⟩
  · exact nodup_eraseDups _

theorem expand_of_mem {s a : Text} (ha : a ∈ expand s) : expand a = [a] := by
  fun_induction expand s with
  | case1 s hg =>
      obtain rfl := List.mem_singleton.1 ha
      unfold expand
      split
      · rfl
      · next heq => cases hg.symm.trans heq
  | case2 s g hg ih =>
      obtain ⟨option, -, ha⟩ := List.mem_flatMap.1 (List.mem_eraseDups.1 ha)
      exact ih option ha

/-- A pattern of literal characters and groups expands to its choices, each of them once.  Any text
at all expands to one text or more, none of them twice, and to none that expands further. -/
theorem expand_choices :
    (∀ p : Branching, p.Proper false → expand p.render = p.choices.eraseDups) ∧
      ∀ s : Text, expand s ≠ [] ∧ (expand s).Nodup ∧ ∀ a ∈ expand s, expand a = [a] := by
  refine ⟨fun p hp => ?_, fun s => ⟨expand_ne_nil s, nodup_expand s, fun a ha => expand_of_mem ha⟩⟩
  have hnone : '\x7b' ∉ ([] : Text) := List.not_mem_nil
  simpa using expand_render hnone p hp

def nestedPattern : Branching :=
  .literal ',' (.group
    (.more (.literal 'a' .done)
      (.two (.group (.two (.literal 'b' .done) .done) (.literal 'c' .done)) (.literal 'a' .done)))
    (.group (.two .done (.literal 'x' .done)) .done))

theorem expand_choices_nested :
    nestedPattern.render = (",\x7ba,\x7bb,\x7dc,a\x7d\x7b,x\x7d" : Text) ∧
      nestedPattern.Proper false ∧
      expand nestedPattern.render =
        [",a", ",ax", ",bc", ",bcx", ",c", ",cx"].map String.toList ∧
      (",bc" : Text) ∈ expand nestedPattern.render ∧ expand (",bc" : Text) = [",bc".toList] := by
  have hproper : nestedPattern.Proper false := by
    simp [nestedPattern, Branching.Proper, Branches.Proper]
  have hexpand : expand nestedPattern.render =
      [",a", ",ax", ",bc", ",bcx", ",c", ",cx"].map String.toList := by
    rw [expand_choices.1 nestedPattern hproper]
    decide
  have hmem : (",bc" : Text) ∈ expand nestedPattern.render := by
    rw [hexpand]
    decide
  exact ⟨rfl, hproper, hexpand, hmem, (expand_choices.2 _).2.2 _ hmem⟩

end SourceScan.Glob
