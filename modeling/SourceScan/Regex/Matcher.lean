import SourceScan.Regex.Basic

/-!
# Matching regular expressions

A match is searched by backtracking: each node tries its ways in order of
preference and hands the place that it reaches to the rest of the expression. A
loop that could go round without reading anything does so at most once.
-/

namespace SourceScan.Regex

/-- A place in a text, with the texts of the groups closed so far. `before` holds the characters in
front of it, the nearest one first. -/
structure Place where
  before : Text
  after : Text
  groups : List (Nat × Text)
  deriving Inhabited

abbrev Next := Place → Option Place

namespace Place

def advance (p : Place) : Option (Char × Place) :=
  match p.after with
  | [] => none
  | c :: after => some (c, { p with before := c :: p.before, after })

def groupText? (p : Place) (index : Nat) : Option Text :=
  (p.groups.find? (·.1 = index)).map (·.2)

def close (p : Place) (index : Nat) (start : Place) : Place :=
  let read := start.after.take (start.after.length - p.after.length)
  { p with groups := (index, read) :: p.groups.filter (·.1 ≠ index) }

def holdsAnchor (p : Place) : Anchor → Bool
  | .textStart => p.before.isEmpty
  | .lineStart => p.before.isEmpty || p.before.head? = some '\n'
  | .textEnd => p.after.isEmpty
  | .finalEnd => p.after.isEmpty || p.after = ['\n']
  | .lineEnd => p.after.isEmpty || p.after.head? = some '\n'
  | .boundary ascii negated =>
      let isWord (c : Option Char) : Bool := c.any (CharKind.word.holds ascii)
      !(p.before.isEmpty && p.after.isEmpty) &&
        (isWord p.before.head? != isWord p.after.head?) != negated

end Place

def readText (same : Char → Char → Bool) : Text → Place → Option Place
  | [], p => some p
  | c :: cs, p =>
      match p.advance with
      | none => none
      | some (d, q) => if same c d then readText same cs q else none

def sameChar (ignoreCase ascii : Bool) (c d : Char) : Bool :=
  c = d || (ignoreCase && foldCase ascii c = foldCase ascii d)

def stepBack : Nat → Place → Option Place
  | 0, p => some p
  | n + 1, p =>
      match p.before with
      | [] => none
      | c :: before => stepBack n { p with before, after := c :: p.after }

def required (body : Next → Next) : Nat → Next → Next
  | 0, k => k
  | n + 1, k => body (required body n k)

/-- Runs a body as often as it goes, then hands on. `last` is the length left when the latest round
began, and the fuel bounds the number of rounds. -/
def greedily (body : Next → Next) (k : Next) : Nat → Option Nat → Next
  | 0, _, p => k p
  | fuel + 1, last, p =>
      if last = some p.after.length then k p
      else
        match body (greedily body k fuel (some p.after.length)) p with
        | some q => some q
        | none => k p

def lazily (body : Next → Next) (k : Next) : Nat → Option Nat → Next
  | 0, _, p => k p
  | fuel + 1, last, p =>
      match k p with
      | some q => some q
      | none =>
          if last = some p.after.length then none
          else body (lazily body k fuel (some p.after.length)) p

/-- The number of rounds that can matter: each reads a character, but for a last one. -/
def rounds (least : Nat) (most : Option Nat) (p : Place) : Nat :=
  let reach := p.after.length + 1
  match most with
  | none => reach
  | some most => min (most - least) reach

mutual

def run : Regex → Next → Next
  | .set k, next => fun p =>
      match p.advance with
      | none => none
      | some (c, q) => if k.holds c then next q else none
  | .anchor a, next => fun p => if p.holdsAnchor a then next p else none
  | .seq items, next => runAll items next
  | .alt choices, next => runAny choices next
  | .rep mode least most body, next => fun p =>
      match mode with
      | .greedy =>
          required (run body) least
            (fun q => greedily (run body) next (rounds least most q) none q) p
      | .lazy =>
          required (run body) least
            (fun q => lazily (run body) next (rounds least most q) none q) p
      | .possessive =>
          match required (run body) least
              (fun q => greedily (run body) some (rounds least most q) none q) p with
          | some q => next q
          | none => none
  | .group index body, next => fun p => run body (fun q => next (q.close index p)) p
  | .backref index ignoreCase ascii, next => fun p =>
      match p.groupText? index with
      | none => none
      | some t =>
          match readText (sameChar ignoreCase ascii) t p with
          | none => none
          | some q => next q
  | .look behind negated body, next => fun p =>
      let found := (stepBack (behind.getD 0) p).bind (run body some)
      if negated then if found.isSome then none else next p
      else
        match found with
        | none => none
        | some q => next { p with groups := q.groups }
  | .atomic body, next => fun p =>
      match run body some p with
      | none => none
      | some q => next q
  | .conditional index whenSet otherwise, next => fun p =>
      if (p.groupText? index).isSome then run whenSet next p else run otherwise next p
  | .fail, _ => fun _ => none

def runAll : List Regex → Next → Next
  | [], next => next
  | item :: items, next => run item (runAll items next)

def runAny : List Regex → Next → Next
  | [], _ => fun _ => none
  | choice :: choices, next => fun p =>
      match run choice next p with
      | some q => some q
      | none => runAny choices next p

end

def holdsAtStart (r : Regex) (s : Text) : Bool := (run r some ⟨[], s, []⟩).isSome

end SourceScan.Regex
