import BoundaryAtlas.Grid.Basic

/-!
# Nodes in machine words

The cross product as it comes out where no step is checked. A result that does not fit comes back
at the other end of the signed words.
-/

namespace BoundaryAtlas

namespace Words

/-- A node whose column and row are words. -/
structure Node where
  col : UInt32
  row : UInt32
  deriving DecidableEq, Repr

def Node.toPoint (p : Node) : GridPoint := ⟨p.col.toNat, p.row.toNat⟩

/-- The signed word of 64 bits with the value of `n`. -/
def widen (n : UInt32) : Int64 := n.toUInt64.toInt64

/-- Twice the signed area of the triangle `p`, `q`, `r`, up to a multiple of `2 ^ 64`. -/
def wrappedCross (p q r : Node) : Int64 :=
  (widen q.col - widen p.col) * (widen r.row - widen q.row) -
    (widen q.row - widen p.row) * (widen r.col - widen q.col)

/-- The three nodes count as lying on one line. -/
def wrappedCollinear (p q r : Node) : Bool := wrappedCross p q r == 0

end Words

end BoundaryAtlas
