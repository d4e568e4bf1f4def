/-!
# Binary floating-point numbers of 64 bits

A finite number is a signed natural significand below `2 ^ 53` times a power of
two; the significand is at least `2 ^ 52` unless the exponent is the least one.
Every operation computes the exact rational result and rounds it to the nearest
number, a tie going to the even significand.
-/

namespace SourceScan

inductive Binary64 where
  | nan
  | infinite (negative : Bool)
  | finite (negative : Bool) (significand : Nat) (exponent : Int)
  deriving DecidableEq, Repr, Inhabited

namespace Binary64

def leastExponent : Int := -1074

def greatestExponent : Int := 971

def zero : Binary64 := .finite false 0 leastExponent

def scaled (num den : Nat) (exponent : Int) : Nat × Nat :=
  if 0 ≤ exponent then (num, den * Nat.pow 2 exponent.toNat)
  else (num * Nat.pow 2 (-exponent).toNat, den)

/-- The quotient rounded to the nearest natural number, a half to the even neighbour. -/
def roundHalfEven (num den : Nat) : Nat :=
  let q := num / den
  let r := num % den
  if 2 * r < den then q
  else if den < 2 * r then q + 1
  else if q % 2 = 0 then q else q + 1

/-- The exponent at which the ratio has a significand of 53 bits, but at least the least one. -/
def exponentOf (num den : Nat) : Int :=
  let guess : Int := (num.log2 : Int) - den.log2 - 52
  let (n, d) := scaled num den guess
  max leastExponent (if n / d < Nat.pow 2 52 then guess - 1 else guess)

def ofRatio (negative : Bool) (num den : Nat) : Binary64 :=
  if num = 0 then .finite negative 0 leastExponent
  else
    let e := exponentOf num den
    let (n, d) := scaled num den e
    let m := roundHalfEven n d
    let (m, e) := if m = Nat.pow 2 53 then (Nat.pow 2 52, e + 1) else (m, e)
    if greatestExponent < e then .infinite negative else .finite negative m e

/-- The number nearest to `digits · 10 ^ exponent`. Exponents beyond the range of the format give
infinity or zero without large powers being computed. -/
def ofDecimal (negative : Bool) (digits : Nat) (exponent : Int) : Binary64 :=
  let size : Int := (Nat.toDigits 10 digits).length + exponent
  if digits = 0 || size < -330 then .finite negative 0 leastExponent
  else if 330 < size then .infinite negative
  else if 0 ≤ exponent then ofRatio negative (digits * Nat.pow 10 exponent.toNat) 1
  else ofRatio negative digits (Nat.pow 10 (-exponent).toNat)

def ofInt (i : Int) : Binary64 := ofRatio (i < 0) i.natAbs 1

def ratio? : Binary64 → Option (Int × Nat)
  | .finite negative m e =>
      let (n, d) : Nat × Nat :=
        if 0 ≤ e then (m * Nat.pow 2 e.toNat, 1) else (m, Nat.pow 2 (-e).toNat)
      some (if negative then -(n : Int) else n, d)
  | _ => none

def ceil? (x : Binary64) : Option Int := x.ratio?.map fun (num, den) => -(-num).fdiv den

def isNegative : Binary64 → Bool
  | .nan => false
  | .infinite negative => negative
  | .finite negative _ _ => negative

def neg : Binary64 → Binary64
  | .nan => .nan
  | .infinite negative => .infinite (!negative)
  | .finite negative m e => .finite (!negative) m e

/-- The sum; a zero sum is negative only if both terms are. -/
def add (a b : Binary64) : Binary64 :=
  match a, b with
  | .nan, _ | _, .nan => .nan
  | .infinite s, .infinite t => if s = t then .infinite s else .nan
  | .infinite s, _ => .infinite s
  | _, .infinite t => .infinite t
  | .finite s .., .finite t .. =>
      match a.ratio?, b.ratio? with
      | some (n, d), some (n', d') =>
          let sum := n * d' + n' * d
          ofRatio (if sum = 0 then s && t else sum < 0) sum.natAbs (d * d')
      | _, _ => .nan

def mul (a b : Binary64) : Binary64 :=
  match a, b with
  | .nan, _ | _, .nan => .nan
  | .infinite s, b =>
      match b with
      | .finite _ 0 _ => .nan
      | _ => .infinite (s != b.isNegative)
  | .finite _ 0 _, .infinite _ => .nan
  | .finite s _ _, .infinite t => .infinite (s != t)
  | .finite s .., .finite t .. =>
      match a.ratio?, b.ratio? with
      | some (n, d), some (n', d') => ofRatio (s != t) (n * n').natAbs (d * d')
      | _, _ => .nan

def compare? (a b : Binary64) : Option Ordering :=
  match a, b with
  | .nan, _ | _, .nan => none
  | .infinite s, .infinite t => some (compare (!s).toNat (!t).toNat)
  | .infinite s, _ => some (if s then .lt else .gt)
  | _, .infinite t => some (if t then .gt else .lt)
  | a, b =>
      match a.ratio?, b.ratio? with
      | some (n, d), some (n', d') => some (compare (n * d') (n' * d))
      | _, _ => none

def lt (a b : Binary64) : Bool := a.compare? b = some .lt

/-- The comparison of an integer with a number, without rounding the integer. -/
def compareInt? (i : Int) (b : Binary64) : Option Ordering :=
  match b with
  | .nan => none
  | .infinite t => some (if t then .gt else .lt)
  | .finite .. => b.ratio?.map fun (n, d) => compare (i * d) n

def isZero : Binary64 → Bool
  | .finite _ 0 _ => true
  | _ => false

end Binary64

end SourceScan
