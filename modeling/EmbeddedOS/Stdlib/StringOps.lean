import EmbeddedOS.Base.ByteMem

/-!
# Block operations of `string.c` and `memset.c`

`memset`, `memcpy` and `memmove` as the loops of the source, and the block operations of
`ByteMem` they compute. `memmove` chooses its loop by a test that mixes 64-bit pointers with a
32-bit length; the test is kept as it stands.
-/

namespace EmbeddedOS
namespace Stdlib

open Base Base.ByteMem

/-- One byte store, `*a = c`. -/
def setByte (m : ByteMem) (a : Nat) (c : UInt8) : ByteMem :=
  fun b => if b = a then c else m b

/-! ## The loops -/

/-- `for (i = 0; i < n; i++) b[i] = val;` -/
def fillUp (m : ByteMem) (b : Nat) (val : UInt8) : Nat → ByteMem
  | 0 => m
  | n + 1 => setByte (fillUp m b val n) (b + n) val

/-- `for (i = 0; i < n; i++) d[i] = s[i];` -/
def copyUp (m : ByteMem) (d s : Nat) : Nat → ByteMem
  | 0 => m
  | n + 1 =>
      let m' := copyUp m d s n
      setByte m' (d + n) (m' (s + n))

/-- `while (n) n--, d[n] = s[n];` -/
def copyDown (m : ByteMem) (d s : Nat) : Nat → ByteMem
  | 0 => m
  | n + 1 => copyDown (setByte m (d + n) (m (s + n))) d s n

def memset (m : ByteMem) (dest : Nat) (val : UInt8) (n : Nat) : ByteMem :=
  fillUp m dest val n

def memcpy (m : ByteMem) (dest src n : Nat) : ByteMem :=
  if dest = 0 then m else copyUp m dest src n

def memmove (m : ByteMem) (dest src n : Nat) : ByteMem :=
  if dest = src then m
  -- `(uintptr_t)s - (uintptr_t)d - n` is a 64-bit value, `-2 * n` a 32-bit one.
  else if u64 ((src : Int) - dest - n) ≤ u32 (-2 * n) then memcpy m dest src n
  else if dest < src then copyUp m dest src n
  else copyDown m dest src n

/-! ## What the loops compute -/

theorem fillUp_eq_fill (m : ByteMem) (b : Nat) (val : UInt8) (n : Nat) :
    fillUp m b val n = fill m b n val := by
  induction n with
  | zero =>
      funext x
      simp [fillUp, fill]
  | succ n ih =>
      funext x
      simp only [fillUp, ih, setByte, fill]
      by_cases hx : x = b + n
      · rw [if_pos hx, if_pos (by omega)]
      · rw [if_neg hx]
        by_cases hin : b ≤ x ∧ x < b + n
        · rw [if_pos hin, if_pos (by omega)]
        · rw [if_neg hin, if_neg (by omega)]

/-- The ascending loop is a block copy unless it overwrites source bytes it has yet to read. -/
theorem copyUp_eq_copy (m : ByteMem) {d s : Nat} (n : Nat) (h : d ≤ s ∨ s + n ≤ d) :
    copyUp m d s n = copy m d s n := by
  induction n with
  | zero =>
      funext x
      simp [copyUp, copy]
  | succ n ih =>
      have ih' := ih (by omega)
      funext x
      simp only [copyUp, ih', setByte]
      have hsrc : copy m d s n (s + n) = m (s + n) := copy_outside (by omega)
      by_cases hx : x = d + n
      · subst hx
        rw [if_pos rfl, hsrc, copy_inside (by omega), Nat.add_sub_cancel_left]
      · rw [if_neg hx]
        by_cases hin : d ≤ x ∧ x < d + n
        · rw [copy_inside hin, copy_inside (by omega)]
        · rw [copy_outside (by omega), copy_outside (by omega)]

/-- The descending loop is a block copy when the destination lies at or above the source. -/
theorem copyDown_eq_copy (m : ByteMem) {d s : Nat} (n : Nat) (h : s ≤ d) :
    copyDown m d s n = copy m d s n := by
  induction n generalizing m with
  | zero =>
      funext x
      simp [copyDown, copy]
  | succ n ih =>
      funext x
      rw [copyDown, ih]
      by_cases hin : d ≤ x ∧ x < d + n
      · rw [copy_inside hin, copy_inside (by omega), setByte, if_neg (by omega)]
      · rw [copy_outside (by omega), setByte]
        by_cases hx : x = d + n
        · subst hx
          rw [if_pos rfl, copy_inside (by omega), Nat.add_sub_cancel_left]
        · rw [if_neg hx, copy_outside (by omega)]

@[simp] theorem memset_eq_fill (m : ByteMem) (dest : Nat) (val : UInt8) (n : Nat) :
    memset m dest val n = fill m dest n val :=
  fillUp_eq_fill m dest val n

/-- Wherever the source lies, `memcpy` writes into the destination only. -/
theorem writesOnly_memcpy (m : ByteMem) (dest src n : Nat) :
    WritesOnly m (memcpy m dest src n) dest (dest + n) := by
  unfold memcpy
  split
  · exact .refl _ _ _
  · induction n with
    | zero => exact .refl _ _ _
    | succ n ih =>
        intro x hx
        rw [copyUp, setByte, if_neg (by omega)]
        exact ih x (by omega)

theorem memcpy_eq_copy (m : ByteMem) {dest src n : Nat} (hd : dest ≠ 0)
    (h : dest ≤ src ∨ src + n ≤ dest) : memcpy m dest src n = copy m dest src n := by
  rw [memcpy, if_neg hd, copyUp_eq_copy m n h]

/-- For ranges that do not wrap around the address space the mixed test selects the ascending
copy only when that is safe, so `memmove` always moves the bytes the source held before. -/
theorem memmove_eq_copy (m : ByteMem) {dest src n : Nat} (hd : dest ≠ 0)
    (hn : n < 4294967296) (hsrc : src + n ≤ 18446744073709551616) :
    memmove m dest src n = copy m dest src n := by
  unfold memmove
  by_cases heq : dest = src
  · subst heq
    rw [if_pos rfl]
    funext x
    by_cases hin : dest ≤ x ∧ x < dest + n
    · rw [copy_inside hin]
      congr 1
      omega
    · rw [copy_outside (by omega)]
  · rw [if_neg heq]
    by_cases htest : u64 ((src : Int) - dest - n) ≤ u32 (-2 * n)
    · rw [if_pos htest]
      apply memcpy_eq_copy m hd
      unfold u64 u32 at htest
      omega
    · rw [if_neg htest]
      by_cases hlt : dest < src
      · rw [if_pos hlt, copyUp_eq_copy m n (by omega)]
      · rw [if_neg hlt, copyDown_eq_copy m n (by omega)]

/-- **Overlapping copy.** The destination holds what the source held before, and every other byte
is unchanged. -/
theorem memmove_bytes (m : ByteMem) (dest src n : Nat) (hd : dest ≠ 0) (hn : n < 4294967296)
    (hsrc : src + n ≤ 18446744073709551616) :
    (∀ i, i < n → memmove m dest src n (dest + i) = m (src + i)) ∧
      ∀ a, a < dest ∨ dest + n ≤ a → memmove m dest src n a = m a := by
  rw [memmove_eq_copy m hd hn hsrc]
  refine ⟨?_, fun a ha => copy_outside ha⟩
  intro i hi
  rw [copy_inside (by omega), Nat.add_sub_cancel_left]

/-- Three gigabytes move up by one byte. -/
theorem memmove_bytes_up :
    (∀ i, i < 3221225472 → memmove (fun a => UInt8.ofNat a) 2 1 3221225472 (2 + i) =
      UInt8.ofNat (1 + i)) ∧
    ∀ a, a < 2 ∨ 2 + 3221225472 ≤ a →
      memmove (fun a => UInt8.ofNat a) 2 1 3221225472 a = UInt8.ofNat a :=
  memmove_bytes (fun a => UInt8.ofNat a) 2 1 3221225472 (by decide) (by decide) (by decide)

end Stdlib
end EmbeddedOS
