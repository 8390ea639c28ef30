/-!
The codebox: the text of a program as a table of characters, one to a cell. Rows end at
newlines, and a carriage return before a newline does not count. Rows may differ in length;
a cell that was not written reads as a space. The table is never empty, so that both of its
axes can be walked around.
-/

namespace Fish

structure Codebox where
  rows : Array (Array Char)
  width : Nat
  height : Nat
  width_pos : 0 < width
  height_pos : 0 < height

namespace Codebox

/-- The pieces between newlines; there is always one. -/
def lines (source : List Char) : List (List Char) :=
  source.foldr (fun c rows =>
    if c = '\n' then [] :: rows
    else match rows with
      | row :: rest => (c :: row) :: rest
      | [] => [[c]]) [[]]

def dropReturn (row : List Char) : List Char :=
  if row.getLast? = some '\r' then row.dropLast else row

/-- A newline at the very end does not begin another row. -/
def dropTrailing (rows : List (List Char)) : List (List Char) :=
  if 1 < rows.length ∧ rows.getLast? = some [] then rows.dropLast else rows

def rowsOf (source : String) : List (List Char) :=
  dropTrailing ((lines source.toList).map dropReturn)

/-- A table wide enough for its longest row. -/
def ofRows (rows : List (List Char)) : Codebox where
  rows := (rows.map List.toArray).toArray
  width := (rows.map List.length).foldl max 1
  height := max 1 rows.length
  width_pos := by
    have bound : ∀ (ns : List Nat) (n : Nat), n ≤ ns.foldl max n := by
      intro ns
      induction ns with
      | nil => exact fun n => Nat.le_refl n
      | cons k ns ih => exact fun n => Nat.le_trans (Nat.le_max_left n k) (ih (max n k))
    exact bound _ 1
  height_pos := by omega

def ofSource (source : String) : Codebox := ofRows (rowsOf source)

/-- The cell at column `x` of row `y`, if the source wrote one there. -/
def stored? (box : Codebox) (x y : Nat) : Option Char :=
  box.rows[y]?.bind fun row => row[x]?

/-- The cell at column `x` of row `y`, a space where none was written. -/
def charAt (box : Codebox) (x y : Nat) : Char := (box.stored? x y).getD ' '

/-- The same as `stored?` for coordinates that may be negative, where no cell is. -/
def storedAt? (box : Codebox) (x y : Int) : Option Char :=
  if 0 ≤ x ∧ 0 ≤ y then box.stored? x.toNat y.toNat else none

/-- The column that `x` stands for when the columns are walked around. -/
def wrapX (box : Codebox) (x : Int) : Nat := (x % box.width).toNat

/-- The row that `y` stands for when the rows are walked around. -/
def wrapY (box : Codebox) (y : Int) : Nat := (y % box.height).toNat

theorem wrapX_lt (box : Codebox) (x : Int) : box.wrapX x < box.width := by
  have pos : (0 : Int) < box.width := by exact_mod_cast box.width_pos
  have nonneg := Int.emod_nonneg x (Int.ne_of_gt pos)
  have below := Int.emod_lt_of_pos x pos
  unfold wrapX
  omega

theorem wrapY_lt (box : Codebox) (y : Int) : box.wrapY y < box.height := by
  have pos : (0 : Int) < box.height := by exact_mod_cast box.height_pos
  have nonneg := Int.emod_nonneg y (Int.ne_of_gt pos)
  have below := Int.emod_lt_of_pos y pos
  unfold wrapY
  omega

end Codebox

end Fish
