/-!
# Paths

Paths are text. The last slash separates a directory from a name. A path leads to a place, and
several paths may lead to the same one.
-/

namespace ExpressionArt

namespace Path

/-- A directory and a name in it as one path. An absolute name stays as it is. -/
def join (dir name : String) : String :=
  if name.startsWith "/" then name
  else if dir.isEmpty || dir.endsWith "/" then dir ++ name
  else dir ++ "/" ++ name

/-- What stands before the last slash, without the slashes at its end, and what stands behind.
A directory of slashes alone is kept. -/
def split (path : String) : String × String :=
  let cs := path.toList.reverse
  let tail := (cs.takeWhile (· ≠ '/')).reverse
  let head := cs.dropWhile (· ≠ '/')
  let trimmed := head.dropWhile (· = '/')
  (String.ofList (if trimmed.isEmpty then head.reverse else trimmed.reverse), String.ofList tail)

/-- The directory part of a path. -/
def directory (path : String) : String := (split path).1

/-- The steps of a path; slashes in a row separate as one does. -/
def steps (path : String) : List String :=
  ((path.toList.splitOnP (· == '/')).filter (· ≠ [])).map String.ofList

/-- A path that holds a null character names nothing. -/
def hasNull (path : String) : Bool := path.toList.contains '\x00'

end Path

/-- The steps that lead to a place from the start. A place below the root has a slash as its first
step, and only the first steps lead up. -/
abbrev Place := List String

namespace Place

def root : Place := ["/"]

/-- The place from which a path leads on. -/
def start (path : String) : Place := if path.startsWith "/" then root else []

/-- Whether a place is the start or above it, or the root. -/
def isOutside (place : Place) : Bool := place == root || place.all (· == "..")

/-- Whether a place is below the start. -/
def isBelow (place : Place) : Bool := place.head?.any fun s => s ≠ "/" ∧ s ≠ ".."

/-- The place above a place. The root is above itself. -/
def above (place : Place) : Place :=
  if place = root then root
  else if place.isOutside then place ++ [".."]
  else place.dropLast

/-- Where a step leads from a place: two dots lead above it, and a single dot stays. -/
def step (place : Place) (s : String) : Place :=
  if s = "." then place else if s = ".." then place.above else place ++ [s]

def path (place : Place) : String :=
  match place with
  | "/" :: steps => "/" ++ "/".intercalate steps
  | steps => "/".intercalate steps

end Place

end ExpressionArt
