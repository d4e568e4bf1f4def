import SourceScan.Calendar.Date

/-!
# Points in time

A date with a time of the day, read in a zone that is a fixed number of minutes
away from universal time, or in no zone at all.
-/

namespace SourceScan.Calendar

structure DateTime where
  date : Date
  hour : Nat
  minute : Nat
  second : Nat
  microsecond : Nat
  /-- Minutes east of universal time. -/
  offset : Option Int
  deriving DecidableEq, Repr, Inhabited

inductive TimeFault where
  | date (fault : DateFault)
  | hour
  | minute
  | second
  /-- A zone a whole day or more away. -/
  | offset (minutes : Int)
  deriving DecidableEq, Repr

def daysAndSeconds (minutes : Int) : Int × Int := (minutes / 1440, minutes % 1440 * 60)

def spanText (minutes : Int) : Text :=
  let (days, seconds) := daysAndSeconds minutes
  let parts : List Text :=
    (if days = 0 then [] else [("days=" : Text) ++ Text.ofInt days]) ++
      (if seconds = 0 then [] else [("seconds=" : Text) ++ Text.ofInt seconds])
  let parts := if parts.isEmpty then [['0']] else parts
  ("datetime.timedelta(" : Text) ++ List.intercalate (", " : Text) parts ++ (")" : Text)

def TimeFault.message : TimeFault → Text
  | .date fault => fault.message
  | .hour => "hour must be in 0..23"
  | .minute => "minute must be in 0..59"
  | .second => "second must be in 0..59"
  | .offset minutes =>
      ("offset must be a timedelta strictly between -timedelta(hours=24) and " : Text) ++
        ("timedelta(hours=24), not " : Text) ++ spanText minutes ++ (("." : Text))

namespace DateTime

def fault? (t : DateTime) : Option TimeFault :=
  match t.offset.filter fun o => o ≤ -1440 || 1440 ≤ o with
  | some o => some (.offset o)
  | none =>
      match t.date.fault? with
      | some fault => some (.date fault)
      | none =>
          if 23 < t.hour then some .hour
          else if 59 < t.minute then some .minute
          else if 59 < t.second then some .second
          else none

def localMinutes (t : DateTime) : Int :=
  ((t.date.ordinal * 24 + t.hour) * 60 + t.minute : Nat)

def utcMinutes (t : DateTime) : Int := t.localMinutes - t.offset.getD 0

def toUtc? (t : DateTime) : Option DateTime :=
  let m := t.utcMinutes
  let day := m / 1440
  if day < 1 || (Date.greatestOrdinal : Int) < day then none
  else
    let rest := (m % 1440).toNat
    some { t with
      date := Date.ofOrdinal day.toNat, hour := rest / 60, minute := rest % 60, offset := some 0 }

def offsetText (minutes : Int) : Text :=
  let n := minutes.natAbs
  (if minutes < 0 then '-' else '+') :: Text.ofNatPadded 10 2 (n / 60) ++
    ':' :: Text.ofNatPadded 10 2 (n % 60)

def clockText (t : DateTime) : Text :=
  Text.ofNatPadded 10 2 t.hour ++ ':' :: Text.ofNatPadded 10 2 t.minute ++
    ':' :: Text.ofNatPadded 10 2 t.second

/-- Date and time with the character between them; microseconds only if there are any. -/
def toText (between : Char) (t : DateTime) : Text :=
  t.date.toText ++ between :: t.clockText ++
    (if t.microsecond = 0 then [] else '.' :: Text.ofNatPadded 10 6 t.microsecond) ++
    (t.offset.map offsetText).getD []

/-- The instant in universal time to the millisecond, marked with a `Z`; none if it lies outside the
years that have dates. -/
def stamp? (t : DateTime) : Option Text :=
  t.toUtc?.map fun u =>
    u.date.toText ++ 'T' :: u.clockText ++
      '.' :: Text.ofNatPadded 10 3 (u.microsecond / 1000) ++ ['Z']

def unixStart : Date := ⟨1970, 1, 1⟩

def ofUnix (microseconds : Nat) : DateTime :=
  let seconds := microseconds / 1000000
  { date := Date.ofOrdinal (unixStart.ordinal + seconds / 86400)
    hour := seconds % 86400 / 3600
    minute := seconds % 3600 / 60
    second := seconds % 60
    microsecond := microseconds % 1000000
    offset := some 0 }

/-- Whether two points in time are the same instant; a point with a zone and one without are not. -/
def sameInstant (t u : DateTime) : Bool :=
  t.offset.isSome = u.offset.isSome && t.utcMinutes = u.utcMinutes && t.second = u.second &&
    t.microsecond = u.microsecond

end DateTime

end SourceScan.Calendar
