import PocketCalculator.Decimal.Extended

/-!
# The fewest digits that read back

Many decimals have the same nearest float. `Decimal.shortest` takes one with the fewest digits, and
of those the nearest. It searches digit count by digit count among the two neighbours of the exact
value; the exact value itself ends the search, so the result always reads back
(`toFloat_shortest`).
-/

namespace PocketCalculator

namespace Decimal

/-- Whether cutting after `count` digits drops less than half of the last place kept. -/
def truncateIsNearer (count : Nat) (d : Decimal) : Bool :=
  2 * (d.coefficient % Nat.pow 10 (d.digitCount - count)) < Nat.pow 10 (d.digitCount - count)

/-- The neighbour of the decimal with `count` digits that has the same nearest float. If both have,
it is the nearer one, and the upper one of two equally near. -/
def neighbour? (count : Nat) (d : Decimal) : Option Decimal :=
  let lower := d.truncate count
  let upper := lower.succ
  if lower.toFloat = d.toFloat ∧ (d.truncateIsNearer count ∨ upper.toFloat ≠ d.toFloat) then
    some lower
  else if upper.toFloat = d.toFloat then
    some upper
  else
    none

theorem toFloat_of_neighbour? {count : Nat} {d e : Decimal} (h : d.neighbour? count = some e) :
    e.toFloat = d.toFloat := by
  simp only [neighbour?] at h
  split at h
  · next hlower =>
    cases h
    exact hlower.1
  · split at h
    · next hupper =>
      cases h
      exact hupper
    · cases h

/-- The decimal with the fewest digits that has the same nearest float. -/
def shortest (d : Decimal) : Decimal :=
  ((List.range d.digitCount).findSome? fun dropped ↦ d.neighbour? (dropped + 1)).getD d

/-- The shortest decimal reads back as the float of the decimal it was made from. -/
@[simp] theorem toFloat_shortest (d : Decimal) : d.shortest.toFloat = d.toFloat := by
  unfold shortest
  cases h : (List.range d.digitCount).findSome? fun dropped ↦ d.neighbour? (dropped + 1) with
  | none => rfl
  | some e =>
    obtain ⟨count, -, hcount⟩ := List.exists_of_findSome?_eq_some h
    exact toFloat_of_neighbour? hcount

end Decimal

end PocketCalculator
