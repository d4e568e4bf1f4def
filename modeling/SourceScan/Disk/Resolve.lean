import SourceScan.Disk.Tree

/-!
# Real paths

The real path of a path has no links and no dots in it. Names that are not there
are kept, so that every path has a real path, unless its links lead in a circle.
Then the rest of the path is joined to the repeated link as it was written, and a
rest that begins with a slash takes the place of all that was in front of it.
-/

namespace SourceScan

inductive Resolved where
  | real (place : Place)
  /-- The links lead in a circle; this is left of the path. -/
  | circle (left : Path)
  /-- Something is missing, where all has to be there. -/
  | missing
  deriving DecidableEq, Repr

namespace FileTree

/-- What is left of a path in a circle, with the names that were not followed. -/
def leftover (left : Path) (names : List FileName) : Path := left.join (.parse (Path.joined names))

/-- Follows names from a place, link by link. `active` lists the links that are being followed, and
`fuel` is at least the number of the others. -/
def followNames (root : FileTree) (strict : Bool) (fuel : Nat) (active : List Place)
    (place : Place) : List FileName → Resolved
  | [] => .real place
  | name :: names =>
      if staysHere name then followNames root strict fuel active place names
      else if name = Path.dotDot then followNames root strict fuel active place.dropLast names
      else
        let next := place ++ [name]
        match root.at? next with
        | none => if strict then .missing else followNames root strict fuel active next names
        | some (.link target) =>
            if next ∈ active then .circle (leftover ⟨1, next⟩ names)
            else
              match fuel with
              -- All links are being followed by then, so it does not come to this.
              | 0 => .circle (leftover ⟨1, next⟩ names)
              | fuel + 1 =>
                  match followNames root strict fuel (next :: active) (linkStart target place)
                    (linkNames target) with
                  | .real place => followNames root strict (fuel + 1) active place names
                  | .circle left => .circle (leftover left names)
                  | .missing => .missing
        | some _ => followNames root strict fuel active next names
termination_by names => (fuel, names.length)

def withoutDots (names : List FileName) : Place :=
  names.foldl
    (fun place name =>
      if staysHere name then place
      else if name = Path.dotDot then place.dropLast
      else place ++ [name])
    []

end FileTree

end SourceScan
