import SourceScan.Text.Blank
import SourceScan.Text.Case

/-!
# Console markup

What is printed may hold tags in square brackets, which set a style and are not
shown themselves. A tag starts with a small letter, `#`, `/` or `@`. One that starts
with a slash closes a tag that is open. A backslash in front of a tag makes it plain
text.
-/

namespace SourceScan

inductive MarkupError where
  | notOpen (tag : Text) (position : Nat)
  | nothingOpen (position : Nat)
  deriving DecidableEq, Repr

def MarkupError.message : MarkupError → Text
  | .notOpen tag position =>
      ("closing tag '[" : Text) ++ tag ++ ("]' at position " : Text) ++ Text.ofNat position ++
        (" doesn't match any open tag" : Text)
  | .nothingOpen position =>
      ("closing tag '[/]' at position " : Text) ++ Text.ofNat position ++
        (" has nothing to close" : Text)

namespace Markup

def startsTag (c : Char) : Bool := ('a' ≤ c && c ≤ 'z') || c = '#' || c = '/' || c = '@'

def opensTag : Text → Bool
  | c :: s =>
      startsTag c &&
        match Text.cutWhere (fun c => c = '[' || c = ']') s with
        | some (_, ']', _) => true
        | _ => false
  | [] => false

structure Reading where
  /-- The plain text, last character first. -/
  shown : Text
  /-- The names of the open tags, the last one first. -/
  opened : List Text
  deriving DecidableEq, Repr

/-- Tags of one name in different spellings are the same. -/
def styleName (name : Text) : Text := Text.lower (Text.strip name)

def readTag (r : Reading) (position : Nat) (tag : Text) : Except MarkupError Reading :=
  match tag.takeWhile (· ≠ '=') with
  | '/' :: name =>
      if Text.strip name = [] then
        match r.opened with
        | [] => .error (.nothingOpen position)
        | _ :: opened => .ok { r with opened }
      else if styleName name ∈ r.opened then
        .ok { r with opened := r.opened.erase (styleName name) }
      else .error (.notOpen tag position)
  | name => .ok { r with opened := styleName name :: r.opened }

/-- The tag that is being read: its position, its text with the last character first, and whether it
counts as plain text. -/
structure OpenTag where
  position : Nat
  text : Text
  isPlain : Bool

def readFrom (position slashes : Nat) (inside : Option OpenTag) (r : Reading) :
    Text → Except MarkupError Reading
  | [] => .ok { r with shown := List.replicate slashes '\\' ++ r.shown }
  | c :: s =>
      match inside with
      | some tag =>
          if c = ']' then
            if tag.isPlain then
              readFrom (position + 1) 0 none { r with shown := ']' :: tag.text ++ '[' :: r.shown } s
            else do readFrom (position + 1) 0 none (← readTag r tag.position tag.text.reverse) s
          else readFrom (position + 1) 0 (some { tag with text := c :: tag.text }) r s
      | none =>
          if c = '\\' then readFrom (position + 1) (slashes + 1) none r s
          else if c = '[' && opensTag s then
            let r := { r with shown := List.replicate (slashes / 2) '\\' ++ r.shown }
            readFrom (position + 1) 0 (some ⟨position, [], slashes % 2 = 1⟩) r s
          else
            let slashes := if c = '[' then slashes - 1 else slashes
            readFrom (position + 1) 0 none
              { r with shown := c :: List.replicate slashes '\\' ++ r.shown } s

def isControl (c : Char) : Bool := c.toNat ∈ [0x7, 0x8, 0xB, 0xC, 0xD]

def render (s : Text) : Except MarkupError Text :=
  return ((← readFrom 0 0 none ⟨[], []⟩ s).shown.reverse).filter fun c => !isControl c

end Markup

end SourceScan
