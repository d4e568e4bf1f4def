import SourceScan.Proofs.Json.Grammar

/-!
# JSON written and read back

The reader gives back the value of a text that stands for one, and what the writers make of
a value or of a document stands for it.  So nothing is lost on the way through a file.
-/

namespace SourceScan.Json

open Value (Short Simple SimpleAll SimpleEntries)

variable {v : Value} {vs : List Value} {es : List (Value × Value)} {w tail : Text}

/-! ## Reading -/

def Opens (w : Text) : Prop :=
  ∃ c rest, w = c :: rest ∧ isSpace c = false ∧ c ≠ ']' ∧ c ≠ '\uFEFF'

theorem Opens.append (h : Opens w) (t : Text) : Opens (w ++ t) := by
  obtain ⟨c, rest, rfl, hc⟩ := h
  exact ⟨c, rest ++ t, rfl, hc⟩

theorem exists_head_ofInt (i : Int) :
    ∃ c rest, Text.ofInt i = c :: rest ∧ (c.isDigit = true ∨ c = '-') := by
  obtain ⟨c, more, hmore⟩ := List.exists_cons_of_ne_nil (Numeral.ofNat_ne_nil (n := i.natAbs))
  have hc : c.isDigit = true := Numeral.isDigit_ofNat (n := i.natAbs) (by simp [hmore])
  rw [Text.ofInt_eq, hmore]
  by_cases hneg : i < 0
  · exact ⟨'-', c :: more, by simp [hneg], .inr rfl⟩
  · exact ⟨c, more, by simp [hneg], .inl hc⟩

theorem digit_or_minus {c : Char} (h : c.isDigit = true ∨ c = '-') (d : Char)
    (hd : d.isDigit = false) (hminus : d ≠ '-') : c ≠ d := by
  rintro rfl
  rcases h with h | h
  · rw [hd] at h
    cases h
  · exact hminus h

theorem opens_ofInt (i : Int) : Opens (Text.ofInt i) := by
  obtain ⟨c, rest, hrest, hc⟩ := exists_head_ofInt i
  have hne := digit_or_minus hc
  refine ⟨c, rest, hrest, ?_, hne ']' rfl (by decide), hne '\uFEFF' rfl (by decide)⟩
  simp [isSpace, hne ' ' rfl (by decide), hne '\t' rfl (by decide), hne '\n' rfl (by decide),
    hne '\r' rfl (by decide)]

theorem opens_written (h : Written v w) : Opens w := by
  cases h with
  | null => exact ⟨_, _, rfl, by decide, by decide, by decide⟩
  | bool b => cases b <;> exact ⟨_, _, rfl, by decide, by decide, by decide⟩
  | int hi => exact opens_ofInt _
  | str hs =>
      obtain ⟨escape, -, rfl⟩ := hs
      exact ⟨_, _, rfl, by decide, by decide, by decide⟩
  | emptyList => exact ⟨_, _, rfl, by decide, by decide, by decide⟩
  | list => exact ⟨_, _, rfl, by decide, by decide, by decide⟩
  | emptyMap => exact ⟨_, _, rfl, by decide, by decide, by decide⟩
  | map => exact ⟨_, _, rfl, by decide, by decide, by decide⟩

theorem opens_writtenItems (h : WrittenItems vs w) : Opens w := by
  cases h with
  | last hv => exact opens_written hv
  | cons hv hspace hitems =>
      rw [List.append_assoc]
      exact (opens_written hv).append _

theorem exists_quote_writtenMembers (h : WrittenMembers es w) : ∃ rest, w = '"' :: rest := by
  cases h with
  | last hkey =>
      obtain ⟨escape, -, rfl⟩ := hkey
      exact ⟨_, rfl⟩
  | cons hkey =>
      obtain ⟨escape, -, rfl⟩ := hkey
      exact ⟨_, rfl⟩

theorem Opens.skipSpace (h : Opens w) : skipSpace w = w := by
  obtain ⟨c, rest, rfl, hc, -⟩ := h
  exact skipSpace_cons hc

theorem readValue_ofInt {i : Int} (hi : Short i) (h : Ends tail) (fuel : Nat) :
    readValue (fuel + 1) (Text.ofInt i ++ tail) = .ok (.int i, tail) := by
  rw [← readScalar_ofInt hi h]
  obtain ⟨c, rest, hrest, hc⟩ := exists_head_ofInt i
  have hne := digit_or_minus hc
  rw [hrest, List.cons_append, readValue]
  · exact fun _ heq => hne '"' rfl (by decide) (List.cons.inj heq).1
  · exact fun _ heq => hne '[' rfl (by decide) (List.cons.inj heq).1
  · exact fun _ heq => hne '\x7b' rfl (by decide) (List.cons.inj heq).1

mutual

/-- Every level of a text has two characters at least, so fuel of twice its length suffices. -/
theorem readValue_written {v : Value} {w : Text} (h : Written v w) {tail : Text}
    (htail : Ends tail) (fuel : Nat) (hfuel : 2 * w.length ≤ fuel) :
    readValue fuel (w ++ tail) = .ok (v, tail) := by
  obtain ⟨fuel, rfl⟩ : ∃ n, fuel = n + 1 := by
    obtain ⟨c, rest, rfl, -⟩ := opens_written h
    simp only [List.length_cons] at hfuel
    exact ⟨fuel - 1, by omega⟩
  cases h with
  | null => rfl
  | bool b => cases b <;> rfl
  | int hi => exact readValue_ofInt hi htail fuel
  | str hs =>
      obtain ⟨body, rfl, hread⟩ := readString_isString hs tail
      simp only [List.cons_append, readValue, hread]
      rfl
  | emptyList => rfl
  | @list vs before w after hbefore hitems hafter =>
      have hopens := (opens_writtenItems hitems).append (after ++ ']' :: tail)
      have hitemsRead := readItems_written hitems hafter tail fuel []
        (by simp only [List.length_append, List.length_cons] at hfuel; omega)
      obtain ⟨c, rest, hcons, hspace, hc, -⟩ := hopens
      have hskip : skipSpace (before ++ (w ++ (after ++ ']' :: tail))) = c :: rest := by
        rw [skipSpace_append hbefore, hcons, skipSpace_cons hspace]
      rw [List.append_assoc, hcons] at hitemsRead
      simp only [List.cons_append, List.append_assoc, List.nil_append, readValue, hskip]
      split
      · next heq =>
          cases heq
          exact absurd rfl hc
      · exact hitemsRead
  | emptyMap => rfl
  | @map es before w after hbefore hkeys hmembers hafter =>
      have hmembersRead := readMembers_written hmembers hafter tail fuel [] (by simpa using hkeys)
        (by simp only [List.length_append, List.length_cons] at hfuel; omega)
      obtain ⟨rest, rfl⟩ := exists_quote_writtenMembers hmembers
      have hskip : skipSpace (before ++ ('"' :: rest ++ (after ++ '\x7d' :: tail))) =
          '"' :: (rest ++ (after ++ '\x7d' :: tail)) := by
        rw [skipSpace_append hbefore, List.cons_append, skipSpace_cons (by decide)]
      simp only [List.cons_append, List.append_assoc, List.nil_append] at hskip hmembersRead ⊢
      simp only [readValue, hskip]
      exact hmembersRead

theorem readItems_written {vs : List Value} {w : Text} (h : WrittenItems vs w)
    {after : Text} (hafter : Space after) (tail : Text) (fuel : Nat) (done : List Value)
    (hfuel : 2 * w.length + 1 ≤ fuel) :
    readItems fuel done (w ++ after ++ ']' :: tail) = .ok (.list (done.reverse ++ vs), tail) := by
  obtain ⟨fuel, rfl⟩ : ∃ n, fuel = n + 1 := ⟨fuel - 1, by omega⟩
  cases h with
  | @last v w hv =>
      have htail : Ends (after ++ ']' :: tail) := ends_space hafter (ends_cons (by simp))
      have hread := readValue_written hv htail fuel (by omega)
      have hskip : skipSpace (after ++ ']' :: tail) = ']' :: tail := by
        rw [skipSpace_append hafter, skipSpace_cons (by decide)]
      simp only [readItems, List.append_assoc, hread, bind, Except.bind, hskip, List.reverse_cons]
      rfl
  | @cons v vs w space ws hv hspace hitems =>
      simp only [List.length_append, List.length_cons] at hfuel
      have htail : Ends (',' :: (space ++ (ws ++ (after ++ ']' :: tail)))) := ends_cons (by simp)
      have hread := readValue_written hv htail fuel (by omega)
      have hopens := (opens_writtenItems hitems).append (after ++ ']' :: tail)
      have hrest := readItems_written hitems hafter tail fuel (v :: done) (by omega)
      have hcomma : skipSpace (',' :: (space ++ (ws ++ (after ++ ']' :: tail)))) =
          ',' :: (space ++ (ws ++ (after ++ ']' :: tail))) := skipSpace_cons (by decide)
      have hskip : skipSpace (space ++ (ws ++ (after ++ ']' :: tail))) =
          ws ++ (after ++ ']' :: tail) := by
        rw [skipSpace_append hspace, hopens.skipSpace]
      simp only [List.append_assoc, List.cons_append, List.reverse_cons, List.nil_append] at hrest ⊢
      simp only [readItems, hread, bind, Except.bind, hcomma, hskip, hrest]

theorem readMembers_written {es : List (Value × Value)} {w : Text} (h : WrittenMembers es w)
    {after : Text} (hafter : Space after) (tail : Text) (fuel : Nat)
    (done : List (Value × Value)) (hkeys : ((done ++ es).map (·.1)).Nodup)
    (hfuel : 2 * w.length + 1 ≤ fuel) :
    readMembers fuel done (w ++ after ++ '\x7d' :: tail) = .ok (.map (done ++ es), tail) := by
  obtain ⟨fuel, rfl⟩ : ∃ n, fuel = n + 1 := ⟨fuel - 1, by omega⟩
  cases h with
  | @last s k v gap w hkey hgap hv =>
      have htail : Ends (after ++ '\x7d' :: tail) := ends_space hafter (ends_cons (by simp))
      simp only [List.length_append, List.length_cons] at hfuel
      have hread := readValue_written hv htail fuel (by omega)
      obtain ⟨body, rfl, hstring⟩ :=
        readString_isString hkey (':' :: (gap ++ (w ++ (after ++ '\x7d' :: tail))))
      have hcolon : skipSpace (':' :: (gap ++ (w ++ (after ++ '\x7d' :: tail)))) =
          ':' :: (gap ++ (w ++ (after ++ '\x7d' :: tail))) := skipSpace_cons (by decide)
      have hskip : skipSpace (gap ++ (w ++ (after ++ '\x7d' :: tail))) =
          w ++ (after ++ '\x7d' :: tail) := by
        rw [skipSpace_append hgap, ((opens_written hv).append _).skipSpace]
      have hend : skipSpace (after ++ '\x7d' :: tail) = '\x7d' :: tail := by
        rw [skipSpace_append hafter, skipSpace_cons (by decide)]
      have hnew : .str s ∉ done.map (·.1) := by
        intro hmem
        simp only [List.map_append, List.nodup_append, List.map_cons, List.map_nil] at hkeys
        exact hkeys.2.2 _ hmem _ (by simp) rfl
      simp only [List.append_assoc, List.cons_append, readMembers, hstring, bind, Except.bind,
        hcolon, hskip, hread, hend, Value.putEntry_new hnew]
      rfl
  | @cons s k v gap w space ws es hkey hgap hv hspace hmembers =>
      simp only [List.length_append, List.length_cons] at hfuel
      have htail : Ends (',' :: (space ++ (ws ++ (after ++ '\x7d' :: tail)))) :=
        ends_cons (by simp)
      have hread := readValue_written hv htail fuel (by omega)
      obtain ⟨body, rfl, hstring⟩ := readString_isString hkey
        (':' :: (gap ++ (w ++ (',' :: (space ++ (ws ++ (after ++ '\x7d' :: tail)))))))
      have hcolon : skipSpace
          (':' :: (gap ++ (w ++ (',' :: (space ++ (ws ++ (after ++ '\x7d' :: tail))))))) =
          ':' :: (gap ++ (w ++ (',' :: (space ++ (ws ++ (after ++ '\x7d' :: tail)))))) :=
        skipSpace_cons (by decide)
      have hskip : skipSpace (gap ++ (w ++ (',' :: (space ++ (ws ++ (after ++ '\x7d' :: tail)))))) =
          w ++ (',' :: (space ++ (ws ++ (after ++ '\x7d' :: tail)))) := by
        rw [skipSpace_append hgap, ((opens_written hv).append _).skipSpace]
      have hcomma : skipSpace (',' :: (space ++ (ws ++ (after ++ '\x7d' :: tail)))) =
          ',' :: (space ++ (ws ++ (after ++ '\x7d' :: tail))) := skipSpace_cons (by decide)
      have hnext : skipSpace (space ++ (ws ++ (after ++ '\x7d' :: tail))) =
          ws ++ (after ++ '\x7d' :: tail) := by
        obtain ⟨rest, rfl⟩ := exists_quote_writtenMembers hmembers
        rw [skipSpace_append hspace]
        exact skipSpace_cons (by decide)
      have hnew : .str s ∉ done.map (·.1) := by
        intro hmem
        simp only [List.map_append, List.nodup_append, List.map_cons] at hkeys
        exact hkeys.2.2 _ hmem _ (by simp) rfl
      have hrest := readMembers_written hmembers hafter tail fuel (done ++ [(.str s, v)])
        (by simpa using hkeys) (by omega)
      simp only [List.append_assoc, List.cons_append, List.nil_append] at hrest ⊢
      simp only [readMembers, hstring, bind, Except.bind, hcolon, hskip, hread, hcomma, hnext,
        Value.putEntry_new hnew, hrest]

end

theorem read_written {v : Value} {w after : Text} (h : Written v w) (hafter : Space after) :
    read (w ++ after) = .ok v := by
  obtain ⟨c, rest, hcons, -, -, hmark⟩ := (opens_written h).append after
  have hhead : (w ++ after).head? ≠ some '\uFEFF' := by
    rw [hcons]
    simpa using hmark
  have hends : Ends after := by simpa using ends_space hafter ends_nil
  have hread := readValue_written h hends (2 * (w ++ after).length + 1)
    (by simp only [List.length_append]; omega)
  have hskip : skipSpace after = [] := by simpa [skipSpace] using skipSpace_append hafter (t := [])
  have hdocument : readDocument (w ++ after) = .ok v := by
    rw [readDocument, if_neg hhead, ((opens_written h).append after).skipSpace]
    change (readValue (2 * (w ++ after).length + 1) (w ++ after) >>= _) = _
    rw [hread]
    simp only [bind, Except.bind, hskip]
    rfl
  rw [read, hdocument]
  rfl

/-! ## Writing -/

section Layouts

variable {α : Type} {f : Char → α}

def Shows (f : Char → α) (v : Value) (l : Layout α) : Prop :=
  ∀ depth, ∃ w, l.pretty f depth = w.map f ∧ Written v w

def ShowsEntry (f : Char → α) (e : Value × Value) (m : List α × Layout α) : Prop :=
  ∃ s k, e.1 = .str s ∧ m.1 = k.map f ∧ IsString s k ∧ Shows f e.2 m.2

theorem shows_atom {v : Value} {w : Text} (h : Written v w) : Shows f v (.atom (w.map f)) :=
  fun _ => ⟨w, rfl, h⟩

theorem space_lineBreak (depth : Nat) : Space (Layout.lineBreak id depth) := by
  intro c hc
  rcases List.mem_cons.mp hc with rfl | hc
  · rfl
  · rw [(List.mem_replicate.mp hc).2]
    rfl

theorem map_lineBreak (depth : Nat) :
    (Layout.lineBreak id depth).map f = Layout.lineBreak f depth := by
  simp [Layout.lineBreak]

theorem shows_items {vs : List Value} {ls : List (Layout α)} (h : List.Forall₂ (Shows f) vs ls)
    {v : Value} {l : Layout α} (hl : Shows f v l) (depth : Nat) :
    ∃ w, l.pretty f depth ++ Layout.prettyItems f depth ls = w.map f ∧
      WrittenItems (v :: vs) w := by
  induction h generalizing v l with
  | nil =>
      obtain ⟨w, hw, hwritten⟩ := hl depth
      exact ⟨w, by simp [Layout.prettyItems, hw], .last hwritten⟩
  | @cons v' l' vs ls hl' _ ih =>
      obtain ⟨w, hw, hwritten⟩ := hl depth
      obtain ⟨ws, hws, hitems⟩ := ih hl'
      refine ⟨_, ?_, .cons hwritten (space_lineBreak depth) hitems⟩
      simp [Layout.prettyItems, hw, map_lineBreak, ← hws]

theorem shows_array {vs : List Value} {ls : List (Layout α)}
    (h : List.Forall₂ (Shows f) vs ls) : Shows f (.list vs) (.array ls) := by
  intro depth
  cases h with
  | nil => exact ⟨['[', ']'], rfl, .emptyList⟩
  | cons hl h =>
      obtain ⟨w, hw, hitems⟩ := shows_items h hl (depth + 1)
      refine ⟨_, ?_, .list (space_lineBreak (depth + 1)) hitems (space_lineBreak depth)⟩
      simp [Layout.pretty, map_lineBreak, ← hw]

theorem shows_members {es : List (Value × Value)} {ms : List (List α × Layout α)}
    (h : List.Forall₂ (ShowsEntry f) es ms) {e : Value × Value} {m : List α × Layout α}
    (hm : ShowsEntry f e m) (depth : Nat) :
    ∃ w, m.1 ++ f ':' :: f ' ' :: m.2.pretty f depth ++ Layout.prettyMembers f depth ms = w.map f ∧
      WrittenMembers (e :: es) w := by
  have hgap : Space [' '] := by simp [Space, isSpace]
  induction h generalizing e m with
  | nil =>
      obtain ⟨s, k, hs, hk, hkey, hl⟩ := hm
      obtain ⟨w, hw, hwritten⟩ := hl depth
      obtain ⟨key, v⟩ := e
      obtain rfl : key = .str s := hs
      refine ⟨_, ?_, .last hkey hgap hwritten⟩
      simp [Layout.prettyMembers, hk, hw]
  | @cons e' m' es ms hm' _ ih =>
      obtain ⟨s, k, hs, hk, hkey, hl⟩ := hm
      obtain ⟨w, hw, hwritten⟩ := hl depth
      obtain ⟨ws, hws, hmembers⟩ := ih hm'
      obtain ⟨key, v⟩ := e
      obtain rfl : key = .str s := hs
      obtain ⟨key', l'⟩ := m'
      refine ⟨_, ?_, .cons hkey hgap hwritten (space_lineBreak depth) hmembers⟩
      simp [Layout.prettyMembers, hk, hw, map_lineBreak, ← hws]

theorem shows_object {es : List (Value × Value)} {ms : List (List α × Layout α)}
    (hkeys : (es.map (·.1)).Nodup) (h : List.Forall₂ (ShowsEntry f) es ms) :
    Shows f (.map es) (.object ms) := by
  intro depth
  cases h with
  | nil => exact ⟨['\x7b', '\x7d'], rfl, .emptyMap⟩
  | @cons e m es ms hm h =>
      obtain ⟨w, hw, hmembers⟩ := shows_members h hm (depth + 1)
      obtain ⟨key, l⟩ := m
      refine ⟨_, ?_, .map (space_lineBreak (depth + 1)) hkeys hmembers (space_lineBreak depth)⟩
      simp [Layout.pretty, map_lineBreak, ← hw]

end Layouts

theorem isString_asciiString (s : Text) : IsString s (asciiString s) :=
  ⟨asciiChar, readsBack_asciiChar, rfl⟩

theorem written_atom {v : Value} {w : Text} (h : Written v w) : Shows id v (.atom w) :=
  fun _ => ⟨w, by simp [Layout.pretty], h⟩

mutual

theorem exists_layout {v : Value} (h : v.Simple) : ∃ l, layout v = .ok l ∧ Shows id v l := by
  cases v with
  | null => exact ⟨_, rfl, written_atom .null⟩
  | bool b => exact ⟨_, rfl, written_atom (.bool b)⟩
  | int i =>
      refine ⟨.atom (Text.ofInt i), ?_, written_atom (.int h)⟩
      simp [layout, intAtom, Value.intText_of_short h, Except.mapError, bind, Except.bind, pure,
        Except.pure]
  | str s => exact ⟨_, rfl, written_atom (.str (isString_asciiString s))⟩
  | list vs =>
      obtain ⟨ls, hls, hshows⟩ := exists_layoutAll h
      refine ⟨.array ls, ?_, shows_array hshows⟩
      simp [layout, hls, bind, Except.bind, pure, Except.pure]
  | map es =>
      obtain ⟨ms, hms, hshows⟩ := exists_layoutEntries h.2
      refine ⟨.object ms, ?_, shows_object h.1 hshows⟩
      simp [layout, hms, bind, Except.bind, pure, Except.pure]
  | float | bytes | date | dateTime | pair | set => cases h

theorem exists_layoutAll {vs : List Value} (h : SimpleAll vs) :
    ∃ ls, layoutAll vs = .ok ls ∧ List.Forall₂ (Shows id) vs ls := by
  cases vs with
  | nil => exact ⟨[], rfl, .nil⟩
  | cons v vs =>
      obtain ⟨l, hl, hshows⟩ := exists_layout h.1
      obtain ⟨ls, hls, hrest⟩ := exists_layoutAll h.2
      refine ⟨l :: ls, ?_, .cons hshows hrest⟩
      simp [layoutAll, hl, hls, bind, Except.bind, pure, Except.pure]

theorem exists_layoutEntries {es : List (Value × Value)} (h : SimpleEntries es) :
    ∃ ms, layoutEntries es = .ok ms ∧ List.Forall₂ (ShowsEntry id) es ms := by
  cases es with
  | nil => exact ⟨[], rfl, .nil⟩
  | cons e es =>
      obtain ⟨k, v⟩ := e
      obtain ⟨⟨s, hs⟩, hv, hes⟩ := h
      subst hs
      obtain ⟨l, hl, hshows⟩ := exists_layout hv
      obtain ⟨ms, hms, hrest⟩ := exists_layoutEntries hes
      refine ⟨(asciiString s, l) :: ms, ?_, .cons ?_ hrest⟩
      · simp [layoutEntries, keyText, hl, hms, bind, Except.bind, pure, Except.pure]
      · exact ⟨s, asciiString s, rfl, by simp, isString_asciiString s, hshows⟩

end

/-- A simple value is written, and what is written reads back as the value. -/
theorem read_write {v : Value} (h : v.Simple) : ∃ t, write v = .ok t ∧ read t = .ok v := by
  obtain ⟨l, hl, hshows⟩ := exists_layout h
  obtain ⟨w, hw, hwritten⟩ := hshows 0
  refine ⟨w, ?_, ?_⟩
  · simp [write, hl, hw, bind, Except.bind, pure, Except.pure]
  · have hnone : Space [] := by simp [Space]
    simpa using read_written hwritten hnone

end SourceScan.Json

/-! ## Documents -/

namespace SourceScan.Document

open Json (Shows ShowsEntry IsString)

theorem isString_wideString (s : RawText) (h : s.Whole) :
    ∃ k : Text, Json.wideString s = k.map .char ∧ IsString s.shown k := by
  refine ⟨'"' :: s.shown.flatMap Json.wideChar ++ ['"'], ?_, _, Json.readsBack_wideChar, rfl⟩
  rw [← RawText.ofText_shown h, RawText.shown_ofText]
  simp [Json.wideString, RawText.ofText, List.flatMap_map, List.map_flatMap]

mutual

theorem exists_jsonLayout {d : Document} (h : d.value.Simple) (hwhole : d.Whole) :
    ∃ l, d.jsonLayout = .ok l ∧ Shows .char d.value l := by
  cases d with
  | str s =>
      obtain ⟨k, hk, hstring⟩ := isString_wideString s (hwhole s (by simp [leaves]))
      refine ⟨_, rfl, ?_⟩
      rw [hk]
      exact Json.shows_atom (.str hstring)
  | int i =>
      refine ⟨_, ?_, Json.shows_atom (.int h)⟩
      simp [jsonLayout, Value.intText_of_short h, bind, Except.bind, pure, Except.pure,
        RawText.ofText]
  | list items =>
      obtain ⟨ls, hls, hshows⟩ := exists_jsonItems h hwhole
      refine ⟨.array ls, ?_, Json.shows_array hshows⟩
      simp [jsonLayout, hls, bind, Except.bind, pure, Except.pure]
  | object members =>
      obtain ⟨ms, hms, hshows⟩ := exists_jsonMembers h.2 hwhole
      refine ⟨.object ms, ?_, Json.shows_object h.1 hshows⟩
      simp [jsonLayout, hms, bind, Except.bind, pure, Except.pure]

theorem exists_jsonItems {ds : List Document} (h : Value.SimpleAll (valueItems ds))
    (hwhole : ∀ s, .str s ∈ leavesOf ds → s.Whole) :
    ∃ ls, jsonItems ds = .ok ls ∧ List.Forall₂ (Shows .char) (valueItems ds) ls := by
  cases ds with
  | nil => exact ⟨[], rfl, .nil⟩
  | cons d ds =>
      simp only [leavesOf, List.mem_append, or_imp, forall_and] at hwhole
      obtain ⟨l, hl, hshows⟩ := exists_jsonLayout h.1 hwhole.1
      obtain ⟨ls, hls, hrest⟩ := exists_jsonItems h.2 hwhole.2
      refine ⟨l :: ls, ?_, .cons hshows hrest⟩
      simp [jsonItems, hl, hls, bind, Except.bind, pure, Except.pure]

theorem exists_jsonMembers {ds : List (Text × Document)}
    (h : Value.SimpleEntries (valueMembers ds)) (hwhole : ∀ s, .str s ∈ leavesIn ds → s.Whole) :
    ∃ ms, jsonMembers ds = .ok ms ∧ List.Forall₂ (ShowsEntry .char) (valueMembers ds) ms := by
  cases ds with
  | nil => exact ⟨[], rfl, .nil⟩
  | cons e ds =>
      obtain ⟨key, d⟩ := e
      simp only [leavesIn, List.mem_append, or_imp, forall_and] at hwhole
      obtain ⟨l, hl, hshows⟩ := exists_jsonLayout h.2.1 hwhole.1
      obtain ⟨ms, hms, hrest⟩ := exists_jsonMembers h.2.2 hwhole.2
      obtain ⟨k, hk, hstring⟩ := isString_wideString (RawText.ofText key) (RawText.whole_ofText key)
      rw [RawText.shown_ofText] at hstring
      refine ⟨(Json.wideString (RawText.ofText key), l) :: ms, ?_, .cons ?_ hrest⟩
      · simp [jsonMembers, hl, hms, bind, Except.bind, pure, Except.pure]
      · exact ⟨key, k, rfl, hk, hstring, hshows⟩

end

/-- A document is written in JSON, and what is written reads back as its value. -/
theorem read_toJson {d : Document} (h : d.value.Simple) (hwhole : d.Whole) :
    ∃ t, d.toJson = .ok (RawText.ofText t) ∧ Json.read t = .ok d.value := by
  obtain ⟨l, hl, hshows⟩ := exists_jsonLayout h hwhole
  obtain ⟨w, hw, hwritten⟩ := hshows 0
  refine ⟨w ++ ['\n'], ?_, Json.read_written hwritten (by simp [Json.Space, Json.isSpace])⟩
  simp [toJson, hl, hw, bind, Except.bind, pure, Except.pure, RawText.ofText]

end SourceScan.Document
