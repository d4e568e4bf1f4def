import SourceScan.Yaml.Style

/-!
# Writing YAML scalars

A pen has written some text and knows the column it stands at. Long scalars are
continued on a new line at a single space beyond the eightieth column.
-/

namespace SourceScan.Yaml

structure Pen where
  /-- What is written, the last character first. -/
  out : Text
  column : Nat
  /-- No space is needed in front of a mark here. -/
  spaced : Bool
  /-- The line holds nothing but marks of collections yet. -/
  fresh : Bool

namespace Pen

def start : Pen := ⟨[], 0, true, true⟩

def text (p : Pen) : Text := p.out.reverse

def put (s : Text) (p : Pen) : Pen :=
  { p with out := s.reverse ++ p.out, column := p.column + s.length }

def putBreak (c : Char) (p : Pen) : Pen := ⟨c :: p.out, 0, true, true⟩

def toColumn (column : Nat) (p : Pen) : Pen :=
  let p :=
    if !p.fresh || column < p.column || (p.column = column && !p.spaced) then p.putBreak '\n' else p
  if p.column < column then
    { p.put (List.replicate (column - p.column) ' ') with spaced := true }
  else p

def mark (s : Text) (p : Pen) : Pen :=
  let p := if p.spaced then p.put s else p.put (' ' :: s)
  { p with spaced := false, fresh := false }

def close (s : Text) (p : Pen) : Pen := { p.put s with spaced := false, fresh := false }

/-- A mark of a collection, after which a nested collection may begin on the same line. -/
def bullet (s : Text) (p : Pen) : Pen :=
  let q := p.mark s
  { q with fresh := p.fresh }

def width : Nat := 80

def runs (s : Text) : List Text :=
  s.splitBy fun c d =>
    (c = ' ') = (d = ' ') && isWrittenBreak c = isWrittenBreak d

def plainRuns (column : Nat) (split : Bool) : List Text → Pen → Pen
  | [], p => p
  | run :: runs, p =>
      let p :=
        if run = [' '] && width < p.column && split then
          { p.toColumn column with spaced := false, fresh := false }
        else p.put run
      plainRuns column split runs p

def plain (column : Nat) (split : Bool) (s : Text) (p : Pen) : Pen :=
  if s.isEmpty then p
  else
    let p := if p.spaced then p else p.put [' ']
    plainRuns column split (runs s) { p with spaced := false, fresh := false }

def quotesDoubled (s : Text) : Text := s.flatMap fun c => if c = '\'' then ['\'', '\''] else [c]

/-- A row of line ends, where a line feed counts double after other characters. -/
def putBreaks (column : Nat) (s : Text) (p : Pen) : Pen :=
  let p := if s.head? = some '\n' then p.putBreak '\n' else p
  (s.foldl (fun p c => p.putBreak c) p).toColumn column

/-- Writes the runs of a single-quoted scalar. The first and the last run are never a place to go to
a new line. -/
def singleRuns (column : Nat) (split first : Bool) : List Text → Pen → Pen
  | [], p => p
  | run :: runs, p =>
      let p :=
        if run.any isWrittenBreak then p.putBreaks column run
        else if run = [' '] && width < p.column && split && !first && !runs.isEmpty then
          p.toColumn column
        else p.put (quotesDoubled run)
      singleRuns column split false runs p

def single (column : Nat) (split : Bool) (s : Text) (p : Pen) : Pen :=
  (singleRuns column split true (runs s) (p.mark ['\''])).close ['\'']

def continueDouble (column : Nat) (next : Option TextUnit) (p : Pen) : Pen :=
  let p := { (p.put ['\\']).toColumn column with spaced := false, fresh := false }
  if next = some (.char ' ') then p.put ['\\'] else p

/-- Writes the units of a double-quoted scalar; `run` holds those not written yet, the last one
first. -/
def doubleUnits (wide : Bool) (column : Nat) (split first : Bool) (run : Text) :
    RawText → Pen → Pen
  | [], p => p.put run.reverse
  | u :: s, p =>
      match escape? wide u, u with
      | some e, _ =>
          let p := (p.put run.reverse).put e
          let p :=
            if !first && !s.isEmpty && width + 1 < p.column && split then
              p.continueDouble column s.head?
            else p
          doubleUnits wide column split false [] s p
      | none, .stray _ => doubleUnits wide column split false run s p
      | none, .char c =>
          if !first && !s.isEmpty && (c = ' ' || run.isEmpty) &&
              width < p.column + run.length && split then
            doubleUnits wide column split false [c] s
              ((p.put run.reverse).continueDouble column (some u))
          else doubleUnits wide column split false (c :: run) s p

def double (wide : Bool) (column : Nat) (split : Bool) (s : RawText) (p : Pen) : Pen :=
  (doubleUnits wide column split true [] s (p.mark ['"'])).close ['"']

def literal (column : Nat) (lines : List Text) (p : Pen) : Pen :=
  lines.foldl (fun p line => ((p.toColumn column).put line).putBreak '\n')
    ((p.mark ['|']).putBreak '\n')

end Pen

end SourceScan.Yaml
