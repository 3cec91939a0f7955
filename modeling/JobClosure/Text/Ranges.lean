/-!
# Classes of characters given by ranges

A property of characters that needs a table is a list of ranges of code points, each with its first
and its last member. The tables themselves stand in modules of their own.
-/

namespace JobClosure.Text

/-- Ranges of code points, first and last member included. -/
abbrev Ranges := List (Nat × Nat)

namespace Ranges

/-- Whether some range holds the code point of `c`. -/
def contains (ranges : Ranges) (c : Char) : Bool :=
  ranges.any fun r => r.1 ≤ c.toNat && c.toNat ≤ r.2

/-- The range that holds the code point of `c`, if one does. -/
def find? (ranges : Ranges) (c : Char) : Option (Nat × Nat) :=
  List.find? (fun r => r.1 ≤ c.toNat && c.toNat ≤ r.2) ranges

theorem contains_iff {ranges : Ranges} {c : Char} :
    ranges.contains c = true ↔ ∃ r ∈ ranges, r.1 ≤ c.toNat ∧ c.toNat ≤ r.2 := by
  simp [contains]

end Ranges

end JobClosure.Text
