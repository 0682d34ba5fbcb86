import Mathlib.Data.List.TakeWhile
import Mathlib.Order.Defs.LinearOrder
import Mathlib.Order.Lattice

/-! # Stamped lists

A list whose entries carry a stamp is read as a history. A reader at instant `t`
scans from the oldest entry and stops at the first one stamped after `t`. -/

namespace Timeline

variable {α τ : Type*} [LinearOrder τ] (stamp : α → τ)

/-- The entry a scan at `t` is left with. -/
def latestAt (t : τ) (xs : List α) : Option α := (xs.takeWhile fun x => stamp x ≤ t).getLast?

end Timeline
