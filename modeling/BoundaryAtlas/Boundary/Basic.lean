import BoundaryAtlas.Fault
import BoundaryAtlas.Point

/-!
# Boundaries

A boundary is a polyline in the parameter plane whose `x` never goes back. Two neighbours
with the same `x` are a vertical jump.
-/

namespace BoundaryAtlas

/-- A polyline, given by its points from left to right. -/
structure Boundary (α : Type) where
  points : List (Point α)
  nonempty : points ≠ []
  deriving DecidableEq, Repr

/-- The neighbours in a list, from left to right. -/
def neighbours {β : Type} (l : List β) : List (β × β) := l.zip l.tail

theorem length_neighbours {β : Type} (l : List β) : (neighbours l).length = l.length - 1 := by
  simp [neighbours]

theorem getElem_neighbours {β : Type} (l : List β) (i : Nat) (h : i < (neighbours l).length)
    (hi : i + 1 < l.length) : (neighbours l)[i] = (l[i], l[i + 1]) := by
  simp [neighbours]

theorem mem_neighbours {β : Type} (l : List β) (i : Nat) (hi : i < l.length)
    (hnext : i + 1 < l.length) : (l[i], l[i + 1]) ∈ neighbours l := by
  rw [← getElem_neighbours l i (by rw [length_neighbours]; omega) hnext]
  exact List.getElem_mem _

namespace Boundary

variable {α : Type}

def first (b : Boundary α) : Point α := b.points.head b.nonempty
def last (b : Boundary α) : Point α := b.points.getLast b.nonempty

/-- The times from the first point to the last. -/
def domain (b : Boundary α) : Interval α := ⟨b.first.x, b.last.x⟩

/-- Checks that there is a point, that all points are finite, and that `x` never goes back. -/
def ofPoints [Scalar α] (points : List (Point α)) : Except (Fault α) (Boundary α) :=
  if h : points = [] then .error (.param .noPoints)
  else if points.any fun p => !p.isFinite then .error (.param .infinitePoint)
  else if (neighbours points).any fun (p, q) => q.x < p.x then .error (.param .unorderedPoints)
  else .ok ⟨points, h⟩

end Boundary

end BoundaryAtlas
