import SourceScan.Text.Basic

/-!
# Dates

Dates of the Gregorian calendar in the years 1 to 9999, and their numbering: day 1
is the first of January of the year 1.
-/

namespace SourceScan.Calendar

structure Date where
  year : Nat
  month : Nat
  day : Nat
  deriving DecidableEq, Repr, Inhabited

def leastYear : Nat := 1

def greatestYear : Nat := 9999

def isLeap (year : Nat) : Bool :=
  year % 4 = 0 && (year % 100 ≠ 0 || year % 400 = 0)

def monthLengths (year : Nat) : List Nat :=
  [31, if isLeap year then 29 else 28, 31, 30, 31, 30, 31, 31, 30, 31, 30, 31]

def daysInMonth (year month : Nat) : Nat := (monthLengths year).getD (month - 1) 0

def daysBeforeYear (year : Nat) : Nat :=
  let y := year - 1
  y * 365 + y / 4 - y / 100 + y / 400

def daysBeforeMonth (year month : Nat) : Nat :=
  ((monthLengths year).take (month - 1)).foldl (· + ·) 0

inductive DateFault where
  | year (value : Nat)
  | month
  | day
  deriving DecidableEq, Repr

def DateFault.message : DateFault → Text
  | .year value => ("year " : Text) ++ Text.ofNat value ++ (" is out of range" : Text)
  | .month => "month must be in 1..12"
  | .day => "day is out of range for month"

namespace Date

def fault? (d : Date) : Option DateFault :=
  if d.year < leastYear || greatestYear < d.year then some (.year d.year)
  else if d.month < 1 || 12 < d.month then some .month
  else if d.day < 1 || daysInMonth d.year d.month < d.day then some .day
  else none

def ordinal (d : Date) : Nat := daysBeforeYear d.year + daysBeforeMonth d.year d.month + d.day

def monthAndDay (month index : Nat) : List Nat → Nat × Nat
  | [] => (month, index + 1)
  | length :: lengths =>
      if index < length then (month, index + 1)
      else monthAndDay (month + 1) (index - length) lengths

/-- The date of a day number. Days are counted off in spans of 400, 100, 4 and 1 years; the last day
of a long span would open a fifth or fourth short one. -/
def ofOrdinal (n : Nat) : Date :=
  let n := n - 1
  let r400 := n % 146097
  let r100 := r400 % 36524
  let r4 := r100 % 1461
  let y := n / 146097 * 400 + r400 / 36524 * 100 + r100 / 1461 * 4 + r4 / 365 + 1
  if r4 / 365 = 4 || r400 / 36524 = 4 then ⟨y - 1, 12, 31⟩
  else
    let (month, day) := monthAndDay 1 (r4 % 365) (monthLengths y)
    ⟨y, month, day⟩

def greatestOrdinal : Nat := 3652059

def toText (d : Date) : Text :=
  Text.ofNatPadded 10 4 d.year ++ '-' :: Text.ofNatPadded 10 2 d.month ++
    '-' :: Text.ofNatPadded 10 2 d.day

end Date

end SourceScan.Calendar
