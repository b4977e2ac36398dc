import BoundaryAtlas.Grid.Boundary

/-!
# The text key of a grid boundary

Nodes are written `column:row` and joined by `;`, as in `0:5;2:3;4:1`.
-/

namespace BoundaryAtlas

def GridPoint.key (p : GridPoint) : String := toString p.col ++ ":" ++ toString p.row

def GridBoundary.key (b : GridBoundary) : String := ";".intercalate (b.points.map GridPoint.key)

end BoundaryAtlas
