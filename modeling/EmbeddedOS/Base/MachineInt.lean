import Mathlib.Tactic.Linarith

/-!
# Machine integers over `Int` and `Nat`

C arithmetic is written in `Int` and wrapped where a value is converted to a fixed-width type:
`u16`, `u32`, `u64` are the unsigned conversions and `i32` the conversion to `int`.
-/

namespace EmbeddedOS
namespace Base

/-! ## Conversions -/

/-- Conversion to a 16-bit unsigned integer. -/
def u16 (x : Int) : Nat := (x % 65536).toNat

/-- Conversion to a 32-bit unsigned integer. -/
def u32 (x : Int) : Nat := (x % 4294967296).toNat

/-- Conversion to a 64-bit unsigned integer. -/
def u64 (x : Int) : Nat := (x % 18446744073709551616).toNat

/-- Conversion to a 32-bit signed integer. -/
def i32 (x : Int) : Int := (BitVec.ofInt 32 x).toInt

theorem i32_eq (x : Int) : i32 x = (x + 2147483648) % 4294967296 - 2147483648 := by
  rw [i32, BitVec.toInt_ofInt, Int.bmod]
  split <;> omega

theorem i32_bounds (x : Int) : -2147483648 ≤ i32 x ∧ i32 x < 2147483648 := by
  rw [i32_eq]
  omega

theorem u32_lt (x : Int) : u32 x < 4294967296 := by
  unfold u32
  omega

@[simp] theorem u32_natCast {n : Nat} (h : n < 4294967296) : u32 n = n := by
  unfold u32
  omega

theorem u32_of_range {x : Int} {n : Nat} (hx : x = n) (h : n < 4294967296) : u32 x = n := by
  unfold u32
  omega

theorem u64_of_range {x : Int} {n : Nat} (hx : x = n) (h : n < 18446744073709551616) :
    u64 x = n := by
  unfold u64
  omega

theorem i32_of_range {x : Int} (hlo : -2147483648 ≤ x) (hhi : x < 2147483648) : i32 x = x := by
  rw [i32_eq]
  omega

theorem i32_natCast {n : Nat} (h : n < 2147483648) : i32 n = n :=
  i32_of_range (by omega) (by omega)

/-- A store of an `int` and its reload as an `int` agree, whichever 32 bits carried it. -/
theorem i32_u32 (x : Int) : i32 (u32 x) = i32 x := by
  rw [i32_eq, i32_eq]
  unfold u32
  omega

end Base
end EmbeddedOS
