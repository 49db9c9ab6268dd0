import Mathlib.Algebra.Group.Int.Defs
import Mathlib.Tactic.SplitIfs
/-!
# Checked machine words

An operation on 64-bit words is exact if its mathematical result fits in the
word it is stored in. `signed` and `unsigned` store a number or fail, so that
code that never fails has neither overflowed nor wrapped around.
-/

namespace Lib

/-- The signed word that holds the number. -/
def signed (n : Int) : Option Int64 := if -2 ^ 63 ≤ n ∧ n < 2 ^ 63 then some (.ofInt n) else none

/-- The unsigned word that holds the number. -/
def unsigned (n : Int) : Option UInt64 := if 0 ≤ n ∧ n < 2 ^ 64 then some (.ofNat n.toNat) else none

theorem toInt_bounds (a : Int64) : -9223372036854775808 ≤ a.toInt ∧ a.toInt < 9223372036854775808 :=
  ⟨a.le_toInt, a.toInt_lt⟩

theorem signed_of_bounds {n : Int} (hl : -9223372036854775808 ≤ n) (hu : n < 9223372036854775808) :
    ∃ a, signed n = some a ∧ a.toInt = n :=
  ⟨.ofInt n, if_pos ⟨hl, hu⟩, Int64.toInt_ofInt_of_le hl hu⟩

theorem unsigned_of_bounds {n : Int} (hl : 0 ≤ n) (hu : n < 18446744073709551616) :
    ∃ a, unsigned n = some a ∧ (a.toNat : Int) = n := by
  have hsize : n.toNat < 18446744073709551616 := by omega
  refine ⟨.ofNat n.toNat, if_pos ⟨hl, hu⟩, ?_⟩
  rw [UInt64.toNat_ofNat_of_lt' hsize, Int.toNat_of_nonneg hl]

end Lib
