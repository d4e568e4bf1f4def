import SourceScan.Proofs.Yaml.Plain
import SourceScan.Proofs.Yaml.Quoted
import SourceScan.Yaml.Lexer

/-!
# The lexer from one token to the next

Before each token the lexer settles: it goes to where the token begins, gives up keys that
can be none any more and closes the collections that are over.  A run is followed from one
settled state to another, or to the point where it fails.
-/

namespace SourceScan.Yaml.Lexer

open Cursor

def settle (x : Lexer) : Except Fault Lexer := do
  let x ← (skipToToken (x.cursor.rest.length + 1) x).dropStaleKeys
  return x.unwindTo x.column

def proceed (fuel : Nat) (x : Lexer) : Except Fault (List Token) :=
  if isEnd x.cursor.here then do
    let x ← (x.unwindTo (-1)).removeKey
    return x.tokens.reverse
  else do run fuel (← x.token)

theorem run_succ (fuel : Nat) (x : Lexer) : run (fuel + 1) x = x.settle >>= proceed fuel := by
  rw [run, settle]
  cases (skipToToken (x.cursor.rest.length + 1) x).dropStaleKeys with
  | error e => rfl
  | ok y => rfl

/-- From one settled state the lexer comes to another one, with fuel to spare. -/
def Leads (x y : Lexer) : Prop :=
  ∃ n, n + y.cursor.rest.length ≤ x.cursor.rest.length ∧
    ∀ fuel, proceed (n + fuel) x = proceed fuel y

def Comes (x y : Lexer) : Prop :=
  ∃ n, n + y.cursor.rest.length ≤ x.cursor.rest.length ∧
    ∀ fuel, run (n + fuel + 1) x = proceed fuel y

def Fails (x : Lexer) : Prop :=
  ∀ fuel, x.cursor.rest.length ≤ fuel → proceed fuel x = .error .malformed

def FailsBehind (x : Lexer) : Prop :=
  ∀ fuel, x.cursor.rest.length ≤ fuel → run (fuel + 1) x = .error .malformed

theorem Leads.refl (x : Lexer) : Leads x x := ⟨0, by omega, fun fuel => by rw [Nat.zero_add]⟩

theorem Leads.trans {x y z : Lexer} (h : Leads x y) (h' : Leads y z) : Leads x z := by
  obtain ⟨m, hm, hx⟩ := h
  obtain ⟨n, hn, hy⟩ := h'
  refine ⟨m + n, by omega, fun fuel => ?_⟩
  rw [Nat.add_assoc, hx, hy]

theorem Comes.trans {x y z : Lexer} (h : Comes x y) (h' : Leads y z) : Comes x z := by
  obtain ⟨m, hm, hx⟩ := h
  obtain ⟨n, hn, hy⟩ := h'
  refine ⟨m + n, by omega, fun fuel => ?_⟩
  rw [Nat.add_assoc m, hx, hy]

theorem comes_of_settle {x y : Lexer} (h : x.settle = .ok y)
    (hle : y.cursor.rest.length ≤ x.cursor.rest.length) : Comes x y := by
  refine ⟨0, by omega, fun fuel => ?_⟩
  rw [Nat.zero_add, run_succ, h]
  rfl

theorem leads_of_token {x y z : Lexer} (hend : isEnd x.cursor.here = false)
    (h : x.token = .ok y) (hlt : y.cursor.rest.length < x.cursor.rest.length)
    (h' : Comes y z) : Leads x z := by
  obtain ⟨n, hn, hy⟩ := h'
  refine ⟨n + 1, by omega, fun fuel => ?_⟩
  rw [Nat.add_right_comm, ← hy, proceed, hend, h]
  rfl

theorem Fails.of_leads {x y : Lexer} (h : Leads x y) (h' : Fails y) : Fails x := by
  obtain ⟨n, hn, hx⟩ := h
  intro fuel hfuel
  have hsplit : fuel = n + (fuel - n) := by omega
  rw [hsplit, hx]
  exact h' _ (by omega)

theorem FailsBehind.of_comes {x y : Lexer} (h : Comes x y) (h' : Fails y) : FailsBehind x := by
  obtain ⟨n, hn, hx⟩ := h
  intro fuel hfuel
  have hsplit : fuel = n + (fuel - n) := by omega
  rw [hsplit, hx]
  exact h' _ (by omega)

theorem failsBehind_of_settle {x : Lexer} (h : x.settle = .error .malformed) : FailsBehind x := by
  intro fuel _
  rw [run_succ, h]
  rfl

theorem fails_of_token {x : Lexer} (hend : isEnd x.cursor.here = false)
    (h : x.token = .error .malformed) : Fails x := by
  intro fuel _
  rw [proceed, hend, h]
  rfl

theorem Fails.of_token {x y : Lexer} (hend : isEnd x.cursor.here = false) (h : x.token = .ok y)
    (hlt : y.cursor.rest.length < x.cursor.rest.length) (h' : FailsBehind y) : Fails x := by
  intro fuel hfuel
  obtain ⟨fuel, rfl⟩ : ∃ m, fuel = m + 1 := ⟨fuel - 1, by omega⟩
  rw [proceed, hend, h]
  exact h' fuel (by omega)

/-! ## Settled states -/

def ready (c : Cursor) (indent : Int) (indents : List Int) (tokens : List Token) : Lexer :=
  ⟨c, 0, indent, indents, true, [], tokens⟩

def Begins (r : Text) : Prop := ∀ ch, r.head? = some ch → ch ≠ ' ' ∧ ch ≠ '#' ∧ isBreak ch = false

variable {c : Cursor} {r : Text} {x : Lexer} {k : Nat} {m : Int} {is : List Int}
  {toks : List Token} {allowed : Bool} {keys : List (Nat × SimpleKey)}

theorem skip_space_begins (h : c.rest = List.replicate k ' ' ++ r) (hr : Begins r) :
    (c.skip (· = ' ')).skipComment = c.forward k ∧ isBreak (c.forward k).here = false := by
  have hskip : c.skip (· = ' ') = c.forward k :=
    skip_spaces h rfl fun ch hch => by simpa using (hr ch hch).1
  have hhere : (c.forward k).here ≠ '#' ∧ isBreak (c.forward k).here = false :=
    here_of_head? (q := fun ch => ch ≠ '#' ∧ isBreak ch = false) (rest_forward_spaces h)
      (fun ch hch => (hr ch hch).2) (by decide)
  rw [hskip, skipComment, if_neg hhere.1]
  exact ⟨rfl, hhere.2⟩

theorem skipToToken_spaces {fuel : Nat} (h : x.cursor.rest = List.replicate k ' ' ++ r)
    (hr : Begins r) : skipToToken (fuel + 1) x = { x with cursor := x.cursor.forward k } := by
  obtain ⟨hskip, hbreak⟩ := skip_space_begins h hr
  simp [skipToToken, hskip, hbreak]

theorem skipToToken_lineStart {fuel : Nat} (h : x.cursor.rest = lineStart k ++ r)
    (hflow : x.flowLevel = 0) (hr : Begins r) :
    skipToToken (fuel + 2) x =
      { x with cursor := x.cursor.forward (k + 1), keyAllowed := true } := by
  have hcons : x.cursor.rest = '\n' :: (List.replicate k ' ' ++ r) := h
  have hskip : x.cursor.skip (· = ' ') = x.cursor := skip_none hcons rfl
  have hhere := here_cons hcons
  have hcomment : x.cursor.skipComment = x.cursor := by simp [skipComment, hhere]
  have hbreak : isBreak x.cursor.here = true := by
    rw [hhere]
    decide
  rw [skipToToken, hskip, hcomment, if_pos hbreak, lineBreak_cons hcons (by decide)]
  rw [skipToToken_spaces (x := { x with
    cursor := x.cursor.next, keyAllowed := x.keyAllowed || x.flowLevel = 0 })
    (rest_next_cons hcons) hr]
  simp [hflow, forward_succ]

def isStale (c : Cursor) (k : SimpleKey) : Bool :=
  k.line ≠ c.line || keyLimit < c.index - k.index

theorem dropStaleKeys_eq : x.dropStaleKeys =
    if x.keys.any fun k => isStale x.cursor k.2 && k.2.required then .error .malformed
    else .ok { x with keys := x.keys.filter (!isStale x.cursor ·.2) } :=
  rfl

/-- The keys were noted on lines before, and none of them had to be one. -/
def Stale (c : Cursor) (keys : List (Nat × SimpleKey)) : Prop :=
  ∀ k ∈ keys, k.2.required = false ∧ k.2.line < c.line

theorem dropStaleKeys_stale (h : Stale x.cursor x.keys) :
    x.dropStaleKeys = .ok { x with keys := [] } := by
  have hfilter : x.keys.filter (!isStale x.cursor ·.2) = [] := by
    rw [List.filter_eq_nil_iff]
    intro k hk
    have hline : k.2.line ≠ x.cursor.line := Nat.ne_of_lt (h k hk).2
    simp [isStale, hline]
  rw [dropStaleKeys_eq, if_neg, hfilter]
  rw [Bool.not_eq_true, List.any_eq_false]
  intro k hk
  simp [(h k hk).1]

theorem dropStaleKeys_nil (h : x.keys = []) : x.dropStaleKeys = .ok x := by
  obtain ⟨c, level, m, is, allowed, keys, toks⟩ := x
  cases h
  rfl

/-- The keys were noted on this line, not too far before. -/
def Live (c : Cursor) (keys : List (Nat × SimpleKey)) : Prop :=
  ∀ k ∈ keys, k.2.line = c.line ∧ c.index ≤ k.2.index + keyLimit

theorem dropStaleKeys_live (h : Live x.cursor x.keys) : x.dropStaleKeys = .ok x := by
  have hlive : ∀ k ∈ x.keys, isStale x.cursor k.2 = false := by
    intro k hk
    obtain ⟨hline, hindex⟩ := h k hk
    have hnear : ¬keyLimit < x.cursor.index - k.2.index := by omega
    simp [isStale, hline, hnear]
  have hfilter : x.keys.filter (!isStale x.cursor ·.2) = x.keys := by
    rw [List.filter_eq_self]
    intro k hk
    simp [hlive k hk]
  rw [dropStaleKeys_eq, if_neg, hfilter]
  rw [Bool.not_eq_true, List.any_eq_false]
  intro k hk
  simp [hlive k hk]

theorem settle_lineStart (h : c.rest = lineStart k ++ r) (hr : Begins r)
    (hkeys : ∀ key ∈ keys, key.2.required = false ∧ key.2.line ≤ c.line) :
    settle ⟨c, 0, m, is, allowed, keys, toks⟩ =
      .ok ((ready (c.forward (k + 1)) m is toks).unwindTo k) := by
  obtain ⟨fuel, hfuel⟩ : ∃ n, c.rest.length + 1 = n + 2 := ⟨k + r.length, by simp [h]; omega⟩
  have hstale : Stale (c.forward (k + 1)) keys := by
    intro key hkey
    rw [line_lineStart h]
    exact ⟨(hkeys key hkey).1, Nat.lt_succ_of_le (hkeys key hkey).2⟩
  rw [settle]
  simp only [hfuel]
  rw [skipToToken_lineStart h rfl hr, dropStaleKeys_stale hstale]
  simp [bind, Except.bind, pure, Except.pure, column, column_lineStart h, ready]

theorem settle_stale (hr : Begins c.rest) (hkeys : Stale c keys) :
    settle ⟨c, 0, m, is, true, keys, toks⟩ =
      .ok ((ready c m is toks).unwindTo c.column) := by
  rw [settle, skipToToken_spaces (k := 0) rfl hr]
  simp only [forward_zero]
  rw [dropStaleKeys_stale hkeys]
  rfl

theorem unwindTo_of_le {column : Int} (h : x.indent ≤ column) : x.unwindTo column = x := by
  rw [unwindTo]
  cases x.indents with
  | nil => rfl
  | cons outer indents =>
      rw [unwind, if_neg]
      simp only [Bool.and_eq_true, decide_eq_true_eq, not_and, Int.not_lt]
      exact fun _ => h

theorem unwindTo_ready {outer column : Int} (h : column < m) :
    (ready c m (outer :: is) toks).unwindTo column =
      (ready c outer is (.blockEnd :: toks)).unwindTo column := by
  simp [unwindTo, unwind, ready, h]

theorem settle_here (hr : Begins x.cursor.rest) (hkeys : Live x.cursor x.keys)
    (hindent : x.flowLevel ≠ 0 ∨ x.indent ≤ x.column) : x.settle = .ok x := by
  rw [settle, skipToToken_spaces (k := 0) rfl hr]
  simp only [forward_zero]
  rw [dropStaleKeys_live hkeys]
  refine congrArg Except.ok ?_
  rcases hindent with hflow | hindent
  · rw [unwindTo]
    cases x.indents with
    | nil => rfl
    | cons outer indents => simp [unwind, hflow]
  · exact unwindTo_of_le hindent

theorem settle_space (h : c.rest = ' ' :: r) (hr : Begins r) (hm : m ≤ c.column + 1) :
    settle ⟨c, 0, m, is, allowed, [], toks⟩ = .ok ⟨c.next, 0, m, is, allowed, [], toks⟩ := by
  have hcolumn := (next_flat h isFlat_space).2
  have hspaces : c.rest = List.replicate 1 ' ' ++ r := h
  rw [settle, skipToToken_spaces hspaces hr]
  simp only [forward_one]
  rw [dropStaleKeys_nil rfl]
  refine congrArg Except.ok (unwindTo_of_le ?_)
  simpa [column, hcolumn] using hm

/-! ## Marks of collections -/

def opened (x : Lexer) (start : Token) : Lexer :=
  if x.indent < x.column then
    { x with indent := x.column, indents := x.indent :: x.indents, tokens := start :: x.tokens }
  else x

def marked (x : Lexer) (t : Token) : Lexer :=
  { x with cursor := x.cursor.next, tokens := t :: x.tokens }

theorem opened_of_le {start : Token} (h : (c.column : Int) ≤ m) :
    opened (ready c m is toks) start = ready c m is toks :=
  if_neg (Int.not_lt.mpr h)

theorem opened_of_lt {start : Token} (h : m < c.column) :
    opened (ready c m is toks) start = ready c c.column (m :: is) (start :: toks) :=
  if_pos h

theorem blockEntry_ready :
    (ready c m is toks).blockEntry =
      .ok (marked (opened (ready c m is toks) .blockSequenceStart) .blockEntry) := by
  by_cases h : m < c.column <;>
    simp [blockEntry, ready, opened, marked, addIndent, column, emit, mark, removeKey, h, bind,
      Except.bind, pure, Except.pure, forward_one]

theorem explicitKey_ready :
    (ready c m is toks).explicitKey =
      .ok (marked (opened (ready c m is toks) .blockMappingStart) .key) := by
  by_cases h : m < c.column <;>
    simp [explicitKey, ready, opened, marked, addIndent, column, emit, mark, removeKey, h, bind,
      Except.bind, pure, Except.pure, forward_one]

theorem valueMark_ready (h : (c.column : Int) ≤ m) :
    (ready c m is toks).valueMark = .ok (marked (ready c m is toks) .value) := by
  simp [valueMark, ready, marked, addIndent, column, emit, mark, removeKey, Int.not_lt.mpr h, bind,
    Except.bind, pure, Except.pure, forward_one]

theorem token_dash (h : c.rest = '-' :: r) (hr : isBlankOrEnd (r.headD '\x00') = true)
    (hsep : c.atSeparator = false) :
    (ready c m is toks).token = (ready c m is toks).blockEntry := by
  have hpeek : isBlankOrEnd (c.peek 1) = true := by rwa [peek_one_cons h]
  simp [token, ready, here_cons h, hsep, hpeek]

theorem token_question (h : c.rest = '?' :: r) (hr : isBlankOrEnd (r.headD '\x00') = true) :
    (ready c m is toks).token = (ready c m is toks).explicitKey := by
  have hpeek : isBlankOrEnd (c.peek 1) = true := by rwa [peek_one_cons h]
  simp [token, ready, here_cons h, hpeek]

theorem token_colon (hflow : x.flowLevel = 0) (h : x.cursor.rest = ':' :: r)
    (hr : isBlankOrEnd (r.headD '\x00') = true) : x.token = x.valueMark := by
  have hpeek : isBlankOrEnd (x.cursor.peek 1) = true := by rwa [peek_one_cons h]
  simp [token, here_cons h, hpeek, hflow]

/-! ## Scalars -/

theorem leadingMarks_eq : leadingMarks =
    ['#', ',', '[', ']', '\x7b', '\x7d', '&', '*', '!', '|', '>', '\'', '"', '%', '@', '`'] :=
  rfl

theorem token_plain (hflow : x.flowLevel = 0) (h : x.cursor.rest = ch :: r)
    (hmark : leadingMarks.contains ch = false) (hblank : isBlankOrEnd ch = false)
    (hsign : ch = '?' ∨ ch = ':' ∨ ch = '-' → isBlankOrEnd (r.headD '\x00') = false)
    (hsep : x.cursor.atSeparator = false) : x.token = x.plain := by
  have hpeek := peek_one_cons h
  simp only [leadingMarks_eq, List.contains_eq_mem, decide_eq_false_iff_not] at hmark
  simp only [not_or, List.mem_cons, List.not_mem_nil] at hmark
  have hplain : x.canBePlain = true := by
    rw [canBePlain, here_cons h, hpeek, hflow]
    by_cases hs : ch = '?' ∨ ch = ':' ∨ ch = '-'
    · rw [hsign hs]
      rcases hs with rfl | rfl | rfl <;> simp
    · simp only [not_or] at hs
      simp [hblank, hmark, hs]
  rw [token, here_cons h, hpeek]
  by_cases hs : ch = '?' ∨ ch = ':' ∨ ch = '-'
  · rw [hsign hs]
    rcases hs with rfl | rfl | rfl <;> simp [hflow, hsep, hplain]
  · simp only [not_or] at hs
    simp [hs, hmark, hsep, hplain]


def noted (allowed : Bool) (m : Int) (c : Cursor) (number : Nat) : List (Nat × SimpleKey) :=
  if allowed then [(0, ⟨number, m = c.column, c.index, c.line, c.column⟩)] else []

theorem beginKey_eq :
    beginKey ⟨c, 0, m, is, allowed, [], toks⟩ =
      .ok ⟨c, 0, m, is, false, noted allowed m c toks.length, toks⟩ := by
  cases allowed <;> rfl

theorem token_quoted {double : Bool} {n : Nat} {t w tail : Text} (hn : 0 < n)
    (htail : tail.head? ≠ some '\'') (hquoted : Quoted double n t w)
    (h : c.rest = quoteOf double :: w ++ quoteOf double :: tail) :
    token ⟨c, 0, m, is, allowed, [], toks⟩ =
      .ok ⟨c.forward (w.length + 2), 0, m, is, false, noted allowed m c toks.length,
        .scalar false t :: toks⟩ := by
  have hread := Quoted.quotedScalar_eq hn htail hquoted h
  rw [token, here_cons h, beginKey_eq]
  cases double <;> simp [quoteOf, hread, bind, Except.bind, pure, Except.pure, take, emit]

theorem plain_eq {n e : Nat} {t w tail : Text} {fresh : Bool} (hplain : Plain n t w)
    (hend : EndsPlain (m + 1) tail fresh e) (hn : m + 1 ≤ n) (hpos : 0 < n)
    (h : c.rest = w ++ tail) (hcolumn : m ≤ c.column) :
    Lexer.plain ⟨c, 0, m, is, allowed, [], toks⟩ =
      .ok ⟨c.forward (w.length + e), 0, m, is, fresh, noted allowed m c toks.length,
        .scalar true t :: toks⟩ := by
  have hlength : w.length < c.rest.length + 1 := by
    rw [h, List.length_append]
    omega
  have hread := Plain.plainScalar_eq hplain hend hpos hn [] [] false c (c.rest.length + 1) h
    (by omega) hlength
  rw [Lexer.plain, beginKey_eq]
  simp [hread, bind, Except.bind, pure, Except.pure, take, emit]

end SourceScan.Yaml.Lexer
