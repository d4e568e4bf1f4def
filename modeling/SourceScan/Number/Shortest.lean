import SourceScan.Number.Binary64
import SourceScan.Text.Basic

/-!
# The shortest decimal text of a number

Of the decimals that read back as the number, those with the fewest digits are
taken, and of these the one nearest to it. `NumberStyle` says how digits and
exponent are then written.
-/

namespace SourceScan

namespace Binary64

def leadingPlace (num den : Nat) : Int :=
  if den ≤ num then (Nat.toDigits 10 (num / den)).length - 1
  else -((Nat.toDigits 10 ((den + num - 1) / num - 1)).length : Int)

/-- The ratio over a power of ten, as a quotient and twice the remainder with its divisor. -/
def overPower (num den : Nat) (place : Int) : Nat × Nat × Nat :=
  let (n, d) :=
    if 0 ≤ place then (num, den * Nat.pow 10 place.toNat)
    else (num * Nat.pow 10 (-place).toNat, den)
  (n / d, 2 * (n % d), d)

/-- The neighbours of the ratio among the multiples of a power of ten, the nearer one first; of two
equally near ones the even one comes first. -/
def neighbours (num den : Nat) (place : Int) : List Nat :=
  let (q, twice, d) := overPower num den place
  if twice < d || (twice = d && q % 2 = 0) then [q, q + 1] else [q + 1, q]

def shortestFrom (target : Binary64) (num den : Nat) (place : Int) : Nat → Nat × Int
  | 0 =>
      let grid := place - 16
      ((neighbours num den grid).headD 0, grid)
  | left + 1 =>
      let grid := place - (16 - left : Nat)
      match (neighbours num den grid).find? fun d => ofDecimal false d grid = target with
      | some d => (d, grid)
      | none => shortestFrom target num den place left

def shortestDecimal (m : Nat) (e : Int) : Nat × Int :=
  let (num, den) := if 0 ≤ e then (m * Nat.pow 2 e.toNat, 1) else (m, Nat.pow 2 (-e).toNat)
  shortestFrom (.finite false m e) num den (leadingPlace num den) 17

structure NumberStyle where
  notANumber : Text
  infinity : Text
  /-- A point in the mantissa also before an exponent. -/
  pointBeforeExponent : Bool

/-- Digits and the place of the point, positional from `1e-4` to below `1e16`. -/
def decimalText (style : NumberStyle) (digits : Text) (point : Int) : Text :=
  if -4 < point && point ≤ 16 then
    if point ≤ 0 then
      ("0." : Text) ++ List.replicate (-point).toNat '0' ++ digits
    else
      let whole := digits.take point.toNat
      let rest := digits.drop point.toNat
      whole ++ List.replicate (point.toNat - digits.length) '0' ++
        '.' :: (if rest.isEmpty then ['0'] else rest)
  else
    let exponent := point - 1
    let mantissa :=
      match digits with
      | [d] => if style.pointBeforeExponent then [d, '.', '0'] else [d]
      | d :: ds => d :: '.' :: ds
      | [] => []
    mantissa ++ 'e' :: (if exponent < 0 then '-' else '+') ::
      Text.ofNatPadded 10 2 exponent.natAbs

def toText (style : NumberStyle) : Binary64 → Text
  | .nan => style.notANumber
  | .infinite negative => if negative then '-' :: style.infinity else style.infinity
  | .finite negative m e =>
      let unsigned : Text :=
        if m = 0 then "0.0"
        else
          let (d, place) := shortestDecimal m e
          let all := Nat.toDigits 10 d
          decimalText style (Text.dropEndWhile (· = '0') all) (all.length + place)
      if negative then '-' :: unsigned else unsigned

def plainStyle : NumberStyle := ⟨"nan", "inf", false⟩

end Binary64

end SourceScan
