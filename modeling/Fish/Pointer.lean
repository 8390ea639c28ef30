import Fish.Codebox
import Fish.Direction

/-!
The instruction pointer: a place in the codebox and a direction of travel. It starts in the
top left corner facing right, and leaving the codebox on one side enters it on the other. A
pointer can be put anywhere. Where a coordinate lies outside the codebox, a step takes it
for the signed number that its 64 bits stand for.
-/

namespace Fish

structure Pointer where
  x : Nat := 0
  y : Nat := 0
  direction : Direction := .right
  deriving DecidableEq, Repr, Inhabited

namespace Pointer

/-- Goes to a place that may lie outside, walked around both axes. -/
def jump (box : Codebox) (x y : Int) (p : Pointer) : Pointer :=
  { p with x := box.wrapX x, y := box.wrapY y }

/-- The coordinate `d` places on, along an axis with `extent` cells. From outside of them the
sum is that of signed words, which wraps around. -/
def stepFrom (extent place : Nat) (d : Int) : Int :=
  if place < extent then place + d else (place + d).bmod UInt64.size

/-- One cell along the direction of travel. -/
def moveOn (box : Codebox) (p : Pointer) : Pointer :=
  p.jump box (stepFrom box.width p.x p.direction.dx) (stepFrom box.height p.y p.direction.dy)

/-- Inside the codebox a step adds the direction to the place. -/
theorem moveOn_of_inside (box : Codebox) (p : Pointer) (inX : p.x < box.width)
    (inY : p.y < box.height) :
    p.moveOn box = p.jump box (p.x + p.direction.dx) (p.y + p.direction.dy) := by
  simp [moveOn, stepFrom, inX, inY]

def turn (d : Direction) (p : Pointer) : Pointer := { p with direction := d }

def reflect (m : Mirror) (p : Pointer) : Pointer := p.turn (p.direction.reflect m)

end Pointer

end Fish
