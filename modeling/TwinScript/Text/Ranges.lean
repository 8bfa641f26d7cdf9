/-!
# Character classes listed by code point

A class of characters is a list of closed ranges of code points, in increasing order.
-/
namespace TwinScript.Text

/-- Closed ranges of code points, the lower end first. -/
abbrev Ranges := List (Nat × Nat)

def Ranges.has (ranges : Ranges) (c : Char) : Bool :=
  ranges.any fun (low, high) => low ≤ c.toNat && c.toNat ≤ high

theorem Ranges.has_iff {ranges : Ranges} {c : Char} :
    ranges.has c = true ↔ ∃ r ∈ ranges, r.1 ≤ c.toNat ∧ c.toNat ≤ r.2 := by
  simp [Ranges.has]

end TwinScript.Text
