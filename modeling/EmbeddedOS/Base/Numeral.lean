import Mathlib.Data.Nat.Digits.Lemmas

/-!
# Numerals

The digits of a number in a base, the characters they are written with, and the reader that takes
a written numeral back to its number. Zero has one digit; no other number starts with a zero.
-/

namespace EmbeddedOS
namespace Base

/-! ## Digits -/

/-- The digits of a number, the least significant first. -/
def lowDigits (b n : Nat) : List Nat := if n = 0 then [0] else Nat.digits b n

/-- The digits of a number, the most significant first. -/
def numeral (b n : Nat) : List Nat := (lowDigits b n).reverse

/-- What digits stand for, the most significant first. -/
def value (b : Nat) (ds : List Nat) : Nat := ds.foldl (fun v d => v * b + d) 0

variable {b n : Nat} {ds : List Nat}

theorem lowDigits_ne_nil (b n : Nat) : lowDigits b n ≠ [] := by
  unfold lowDigits
  split
  · exact List.cons_ne_nil 0 []
  · exact Nat.digits_ne_nil_iff_ne_zero.mpr ‹_›

/-- A division takes off one digit. -/
theorem lowDigits_step (hb : 2 ≤ b) (n : Nat) :
    lowDigits b n = n % b :: if n / b = 0 then [] else lowDigits b (n / b) := by
  by_cases hn : n = 0
  · subst hn
    simp [lowDigits]
  · rw [lowDigits, if_neg hn, Nat.digits_eq_cons_digits_div hb hn]
    by_cases hq : n / b = 0
    · rw [if_pos hq, hq, Nat.digits_zero]
    · rw [if_neg hq, lowDigits, if_neg hq]

theorem lowDigits_lt (hb : 2 ≤ b) : ∀ d ∈ lowDigits b n, d < b := by
  intro d hd
  unfold lowDigits at hd
  split at hd
  · rw [List.mem_singleton.mp hd]
    omega
  · exact Nat.digits_lt_base hb hd

theorem numeral_ne_nil (b n : Nat) : numeral b n ≠ [] := by
  rw [numeral, Ne, List.reverse_eq_nil_iff]
  exact lowDigits_ne_nil b n

theorem numeral_lt (hb : 2 ≤ b) : ∀ d ∈ numeral b n, d < b :=
  fun d hd => lowDigits_lt hb d (List.mem_reverse.mp hd)

/-- No other number starts with a zero. -/
theorem numeral_head (hn : n ≠ 0) : (numeral b n).head? ≠ some 0 := by
  rw [numeral, List.head?_reverse, lowDigits, if_neg hn,
    List.getLast?_eq_some_getLast (Nat.digits_ne_nil_iff_ne_zero.mpr hn), Ne, Option.some.injEq]
  exact Nat.getLast_digit_ne_zero b hn

/-! ## Values -/

theorem value_concat (b : Nat) (ds : List Nat) (d : Nat) :
    value b (ds ++ [d]) = value b ds * b + d := by
  rw [value, List.foldl_append]
  rfl

theorem value_reverse (b : Nat) (ds : List Nat) : value b ds.reverse = Nat.ofDigits b ds := by
  induction ds with
  | nil => rfl
  | cons d ds ih =>
      rw [List.reverse_cons, value_concat, ih, Nat.ofDigits_cons]
      simp [Nat.mul_comm, Nat.add_comm]

/-- **A numeral stands for its number.** -/
@[simp] theorem value_numeral (b n : Nat) : value b (numeral b n) = n := by
  rw [numeral, value_reverse, lowDigits]
  split
  · rename_i hn
    simp [hn]
  · exact Nat.ofDigits_digits b n

/-- Zeros in front do not count. -/
@[simp] theorem value_leading (b k : Nat) (ds : List Nat) :
    value b (List.replicate k 0 ++ ds) = value b ds := by
  have hzeros : (List.replicate k 0).foldl (fun v d => v * b + d) 0 = 0 := by
    induction k with
    | zero => rfl
    | succ k ih => simpa [List.replicate_succ] using ih
  rw [value, List.foldl_append, hzeros]
  rfl

/-- Each zero behind multiplies by the base. -/
theorem value_trailing (b k : Nat) (ds : List Nat) :
    value b (ds ++ List.replicate k 0) = value b ds * b ^ k := by
  induction k with
  | zero => simp
  | succ k ih =>
      rw [List.replicate_succ', ← List.append_assoc, value_concat, ih, Nat.pow_succ, Nat.add_zero,
        Nat.mul_assoc]

/-! ## Characters -/

/-- `'0'` to `'9'`, and from `letter` on for the digits from 10. -/
def digitChar (letter d : Nat) : UInt8 :=
  UInt8.ofNat (if d < 10 then d + 48 else d + letter - 10)

/-- The digit that a character stands for, a letter in either case. -/
def digitValue (c : UInt8) : Option Nat :=
  if 48 ≤ c.toNat ∧ c.toNat ≤ 57 then some (c.toNat - 48)
  else if 97 ≤ c.toNat ∧ c.toNat ≤ 122 then some (c.toNat - 87)
  else if 65 ≤ c.toNat ∧ c.toNat ≤ 90 then some (c.toNat - 55)
  else none

/-- One more digit is read. -/
def readDigit (b v : Nat) (c : UInt8) : Option Nat :=
  (digitValue c).bind fun d => if d < b then some (v * b + d) else none

/-- The number that is written in base `b`. -/
def readNat (b : Nat) (cs : List UInt8) : Option Nat :=
  if cs = [] then none else cs.foldlM (readDigit b) 0

/-- A number with a sign in front, if it is negative. -/
def readInt (b : Nat) : List UInt8 → Option Int
  | [] => none
  | c :: cs => if c = 45 then (readNat b cs).map fun n => -(n : Int) else (readNat b (c :: cs)).map Int.ofNat

variable {letter d : Nat}

theorem digitChar_toNat (hletter : letter = 97 ∨ letter = 65) (hd : d < 36) :
    (digitChar letter d).toNat = if d < 10 then d + 48 else d + letter - 10 := by
  rw [digitChar, UInt8.toNat_ofNat']
  split <;> omega

theorem digitValue_digitChar (hletter : letter = 97 ∨ letter = 65) (hd : d < 36) :
    digitValue (digitChar letter d) = some d := by
  rw [digitValue, digitChar_toNat hletter hd]
  split
  · rw [if_pos (by omega), Nat.add_sub_cancel]
  · rcases hletter with rfl | rfl
    · rw [if_neg (by omega), if_pos (by omega)]
      congr 1
    · rw [if_neg (by omega), if_neg (by omega), if_pos (by omega)]
      congr 1

/-- Only the digit zero is written as `'0'`. -/
theorem digitChar_eq_zero (hletter : letter = 97 ∨ letter = 65) (hd : d < 36) :
    digitChar letter d = 48 ↔ d = 0 := by
  rw [← UInt8.toNat_inj, digitChar_toNat hletter hd]
  change _ = 48 ↔ _
  split <;> omega

/-- No digit is written as a character below `'0'`: no terminator, no blank, no sign. -/
theorem digitChar_ge (hletter : letter = 97 ∨ letter = 65) (hd : d < 36) :
    48 ≤ (digitChar letter d).toNat := by
  rw [digitChar_toNat hletter hd]
  split <;> omega

theorem readDigits_map (hletter : letter = 97 ∨ letter = 65) (hb : b ≤ 36)
    (hds : ∀ d ∈ ds, d < b) (v : Nat) :
    (ds.map (digitChar letter)).foldlM (readDigit b) v =
      some (ds.foldl (fun v d => v * b + d) v) := by
  induction ds generalizing v with
  | nil => rfl
  | cons d ds ih =>
      have hd : d < b := hds d List.mem_cons_self
      have hread : readDigit b v (digitChar letter d) = some (v * b + d) := by
        rw [readDigit, digitValue_digitChar hletter (by omega), Option.bind_some, if_pos hd]
      rw [List.map_cons, List.foldlM_cons, hread, List.foldl_cons]
      exact ih (fun d hd => hds d (List.mem_cons_of_mem _ hd)) _

/-- **What is written is read back**, in either case. -/
theorem readNat_map (hletter : letter = 97 ∨ letter = 65) (hb : b ≤ 36) (hne : ds ≠ [])
    (hds : ∀ d ∈ ds, d < b) : readNat b (ds.map (digitChar letter)) = some (value b ds) := by
  rw [readNat, if_neg (by simpa using hne), readDigits_map hletter hb hds]
  rfl

end Base
end EmbeddedOS
