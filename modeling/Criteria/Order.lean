/-!
# Orders

Comparison by a strict order, and the lexicographic order of lists.
-/

namespace Criteria

/-- **Three-way comparison by a strict order**: which of two things comes first,
if either does. -/
def threeWay {α : Type} (less : α → α → Bool) (a b : α) : Ordering :=
  if less a b then .lt else if less b a then .gt else .eq

/-- **The lexicographic order of lists**, from an order of their elements; a proper
initial part comes first. -/
def lexLess {α : Type} (less : α → α → Bool) : List α → List α → Bool
  | [], [] => false
  | [], _ :: _ => true
  | _ :: _, [] => false
  | x :: xs, y :: ys => less x y || (!less y x && lexLess less xs ys)

end Criteria
