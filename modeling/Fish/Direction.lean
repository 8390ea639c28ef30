/-!
Directions of travel, and the mirrors that turn one into another.
-/

namespace Fish

inductive Direction
  | up
  | down
  | left
  | right
  deriving DecidableEq, Repr, Inhabited

/-- The cells that reflect the pointer. -/
inductive Mirror
  | slash
  | backslash
  | vertical
  | horizontal
  | both
  deriving DecidableEq, Repr

namespace Direction

/-- One step along the columns and one along the rows; rows are counted downward. -/
def dx : Direction → Int
  | up => 0
  | down => 0
  | left => -1
  | right => 1

def dy : Direction → Int
  | up => -1
  | down => 1
  | left => 0
  | right => 0

def opposite : Direction → Direction
  | up => down
  | down => up
  | left => right
  | right => left

/-- The direction after a mirror. -/
def reflect : Mirror → Direction → Direction
  | .slash, right => up
  | .slash, left => down
  | .slash, up => right
  | .slash, down => left
  | .backslash, right => down
  | .backslash, left => up
  | .backslash, up => left
  | .backslash, down => right
  | .vertical, left => right
  | .vertical, right => left
  | .vertical, d => d
  | .horizontal, up => down
  | .horizontal, down => up
  | .horizontal, d => d
  | .both, d => d.opposite

/-- The directions in the order in which a random turn numbers them. -/
def ofIndex : Fin 4 → Direction
  | 0 => up
  | 1 => down
  | 2 => left
  | 3 => right

end Direction

def Mirror.ofChar? : Char → Option Mirror
  | '/' => some .slash
  | '\\' => some .backslash
  | '|' => some .vertical
  | '_' => some .horizontal
  | '#' => some .both
  | _ => none

end Fish
