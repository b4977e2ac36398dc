/-!
# Powers of two and ten

The scales of binary and decimal places.
-/

namespace BoundaryAtlas

def twoPow (n : Nat) : Nat := Nat.pow 2 n
def tenPow (n : Nat) : Nat := Nat.pow 10 n

end BoundaryAtlas
