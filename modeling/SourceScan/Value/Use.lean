import SourceScan.Path
import SourceScan.Value

/-!
# Using values

Settings may hold values of any kind, and only their use shows whether the kind
fits. A use that does not fit is a `Misuse`.
-/

namespace SourceScan

inductive Misuse where
  | notIterable (kind : Kind)
  | noEntries (kind : Kind)
  | unhashable (kind : Kind)
  | notPattern
  /-- A number was compared with something else. -/
  | unordered (symbol : Text) (kind : Kind)
  | notAddable (kind : Kind)
  | notDivisible (kind : Kind)
  | tooLarge
  | notPath (kind : Kind)
  | notTextPath (kind : Kind)
  | noUpperCase (kind : Kind)
  | notAttribute (kind : Kind)
  | tooLong
  deriving DecidableEq, Repr

namespace Misuse

def quotedKind (kind : Kind) : Text := '\'' :: kind.fullName ++ ['\'']

def message : Misuse → Text
  | .notIterable kind => quotedKind kind ++ (" object is not iterable" : Text)
  | .noEntries kind => quotedKind kind ++ (" object has no attribute 'items'" : Text)
  | .unhashable kind => ("unhashable type: " : Text) ++ quotedKind kind
  | .notPattern => "first argument must be string or compiled pattern"
  | .unordered symbol kind =>
      '\'' :: symbol ++ ("' not supported between instances of 'int' and " : Text) ++
        quotedKind kind
  | .notAddable kind =>
      ("unsupported operand type(s) for +: 'float' and " : Text) ++ quotedKind kind
  | .notDivisible kind =>
      ("unsupported operand type(s) for /: " : Text) ++ quotedKind kind ++ (" and 'float'" : Text)
  | .tooLarge => "int too large to convert to float"
  | .notPath kind => ("expected str, bytes or os.PathLike object, not " : Text) ++ kind.name
  | .notTextPath kind =>
      ("argument should be a str object or an os.PathLike object returning str, not <class " :
        Text) ++
        quotedKind kind ++ ['>']
  | .noUpperCase kind => quotedKind kind ++ (" object has no attribute 'upper'" : Text)
  | .notAttribute kind => ("attribute name must be string, not " : Text) ++ quotedKind kind
  | .tooLong => Value.TooLong.message

end Misuse

namespace Value

/-- The elements of a value that is gone through. A value that counts as false has none. -/
def elements (v : Value) : Except Misuse (List Value) :=
  if !v.isTruthy then .ok []
  else
    match v.elements? with
    | some vs => .ok vs
    | none => .error (.notIterable v.kind)

def entries (v : Value) : Except Misuse (List (Value × Value)) :=
  if !v.isTruthy then .ok []
  else
    match v with
    | .map es => .ok es
    | v => .error (.noEntries v.kind)

def shownText (v : Value) : Except Misuse Text := v.toText.mapError fun _ => .tooLong

def orderOf (symbol : Text) (n : Nat) (v : Value) : Except Misuse (Option Ordering) :=
  match v.int?, v with
  | some i, _ => .ok (some (compare (n : Int) i))
  | none, .float x => .ok (Binary64.compareInt? n x)
  | none, v => .error (.unordered symbol v.kind)

def isExceededBy (v : Value) (n : Nat) : Except Misuse Bool :=
  return (← orderOf ['>'] n v) = some .gt

def isReachedBy (v : Value) (n : Nat) : Except Misuse Bool := do
  let o ← orderOf ['>', '='] n v
  return o = some .gt || o = some .eq

def roundInt (i : Int) : Except Misuse Binary64 :=
  match Binary64.ofInt i with
  | .infinite _ => .error .tooLarge
  | x => .ok x

/-- The floating-point number of a number; `other` is the misuse of anything else. -/
def number (other : Kind → Misuse) (v : Value) : Except Misuse Binary64 :=
  match v.int?, v with
  | some i, _ => roundInt i
  | none, .float x => .ok x
  | none, v => .error (other v.kind)

def path : Value → Except Misuse Path
  | .str s => .ok (.ofText s)
  | .bytes _ => .error (.notTextPath .bytes)
  | v => .error (.notPath v.kind)

end Value

end SourceScan
