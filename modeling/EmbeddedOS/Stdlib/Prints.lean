import EmbeddedOS.Base.MachineInt
import EmbeddedOS.Base.Numeral
import Mathlib.Data.List.DropRight

/-!
# Integer conversion of `printk`

`prints` and `simple_outputi` of `printk.c`. They differ from `screen_prints` and `screen_outputi`
in the function that takes each character only, so the model keeps the characters in order. An
integer comes out with its padding; it reads back as the integer unless zeros stand behind it.
-/

namespace EmbeddedOS
namespace Stdlib

open Base

/-! ## The code -/

def PAD_ZERO : Nat := 1
def PAD_RIGHT : Nat := 2

/-- The characters that went out, and `pc`. -/
structure Printed where
  chars : List UInt8
  pc : Int
  deriving DecidableEq, Repr

namespace Printed

def nothing : Printed := ⟨[], 0⟩

/-- `outputchar(c); ++pc;` -/
def outputchar (p : Printed) (c : UInt8) : Option Printed :=
  if p.pc = 2147483647 then none else some ⟨p.chars ++ [c], p.pc + 1⟩

/-- `pc += …` behind another call. -/
def add (p q : Printed) : Option Printed :=
  if p.pc + q.pc ≤ 2147483647 then some ⟨p.chars ++ q.chars, p.pc + q.pc⟩ else none

end Printed

open Printed

/-- `for ( ; *string; ++string)` -/
def outputString : List UInt8 → Printed → Option Printed
  | [], p => some p
  | c :: string, p => (outputchar p c).bind (outputString string)

/-- `for ( ; width > 0; --width)` -/
def outputPad (padchar : UInt8) : Nat → Printed → Option Printed
  | 0, p => some p
  | width + 1, p => (outputchar p padchar).bind (outputPad padchar width)

def prints (string : List UInt8) (width : Int) (flags : Nat) : Option Printed := do
  -- `len` is an `int`.
  if width > 0 ∧ string.length > 2147483647 then none
  let padchar : UInt8 := if width > 0 ∧ flags &&& PAD_ZERO ≠ 0 then 48 else 32
  let width := if width > 0 ∧ width ≤ string.length then 0
    else if width > 0 then width - string.length
    else width
  let right := flags &&& PAD_RIGHT ≠ 0
  let p ← if right then some nothing else outputPad padchar width.toNat nothing
  let p ← outputString string p
  if right then outputPad padchar width.toNat p else some p

/-- `while (u)`, on `u` and the characters from `s` on. -/
def outputDigits (base letbase : Nat) : Nat → Nat → List UInt8 → Option (List UInt8)
  | 0, _, _ => none
  | fuel + 1, u, s =>
      if u = 0 then some s
      -- A division by zero, or `s` at the start of `print_buf`.
      else if base = 0 ∨ s.length = 63 then none
      else
        let t := u % base
        let t := if t ≥ 10 then t + letbase - 48 - 10 else t
        outputDigits base letbase fuel (u / base) (UInt8.ofNat (t + 48) :: s)

def outputi (i : Int) (base : Nat) (sign : Bool) (width : Int) (flags letbase : Nat) :
    Option Printed :=
  if i = 0 then prints [48] width flags
  else
    let neg := sign = true ∧ base = 10 ∧ i < 0
    if neg ∧ i = -9223372036854775808 then none
    else
      let u := u64 (if neg then -i else i)
      (outputDigits base letbase 64 u []).bind fun s =>
        if neg then
          if width ≠ 0 ∧ flags &&& PAD_ZERO ≠ 0 then
            if width = -2147483648 then none
            else
              (outputchar nothing 45).bind fun p =>
                (prints s (width - 1) flags).bind (add p)
          else if s.length = 63 then none
          else prints (45 :: s) width flags
        else prints s width flags

/-- `simple_outputi`: the characters go to the serial port. -/
def simple_outputi (i : Int) (base : Nat) (sign : Bool) (width : Int) (flags letbase : Nat) :
    Option Printed :=
  outputi i base sign width flags letbase

/-! ## What is meant to be shown -/

/-- The number that a conversion shows: unsigned conversions show the 64 bits of `i`. -/
def shown (base : Nat) (sign : Bool) (i : Int) : Int :=
  if sign = true ∧ base = 10 then i else u64 i

/-- Without padding. -/
def plain (base : Nat) (sign : Bool) (letbase : Nat) (i : Int) : List UInt8 :=
  if sign = true ∧ base = 10 ∧ i < 0 then 45 :: (numeral base (-i).toNat).map (digitChar letbase)
  else (numeral base (u64 i)).map (digitChar letbase)

/-- Without the blanks in front and behind. -/
def strip (cs : List UInt8) : List UInt8 :=
  (cs.dropWhile (· == 32)).rdropWhile (· == 32)

/-- The call comes back, its characters read back as the number, they fill the field, and the count
is theirs. -/
def Shows (base : Nat) (sign : Bool) (letbase : Nat) (i width : Int) (r : Option Printed) : Prop :=
  ∃ p, r = some p ∧ readInt base (strip p.chars) = some (shown base sign i) ∧
    (p.chars.length : Int) = max width (plain base sign letbase i).length ∧
    p.pc = p.chars.length

/-! ## The loops -/

variable {string : List UInt8} {p : Printed}

theorem outputString_eq (h : p.pc + string.length ≤ 2147483647) :
    outputString string p = some ⟨p.chars ++ string, p.pc + string.length⟩ := by
  induction string generalizing p with
  | nil => simp [outputString]
  | cons c string ih =>
      rw [List.length_cons, Nat.cast_succ] at h ⊢
      rw [outputString, outputchar, if_neg (by omega), Option.bind_some,
        ih (by simp only; omega)]
      simp
      omega

theorem outputPad_eq {padchar : UInt8} {width : Nat} (h : p.pc + width ≤ 2147483647) :
    outputPad padchar width p = some ⟨p.chars ++ List.replicate width padchar, p.pc + width⟩ := by
  induction width generalizing p with
  | zero => simp [outputPad]
  | succ width ih =>
      rw [Nat.cast_succ] at h ⊢
      rw [outputPad, outputchar, if_neg (by omega), Option.bind_some, ih (by simp only; omega)]
      simp [List.replicate_succ]
      omega

/-- The padding character. -/
def padchar (flags : Nat) : UInt8 := if flags &&& PAD_ZERO ≠ 0 then 48 else 32

/-- A string comes out with the padding on one side of it. -/
theorem prints_eq {width : Int} {flags : Nat} (hlen : string.length ≤ 2147483647)
    (hwidth : width ≤ 2147483647) :
    prints string width flags =
      some ⟨if flags &&& PAD_RIGHT ≠ 0 then
          string ++ List.replicate (width.toNat - string.length) (padchar flags)
        else List.replicate (width.toNat - string.length) (padchar flags) ++ string,
        max width string.length⟩ := by
  -- What is left of the width is the padding, on either side.
  have hk : (if width > 0 ∧ width ≤ string.length then 0
      else if width > 0 then width - string.length else width).toNat =
      width.toNat - string.length := by
    split_ifs <;> omega
  have hpad : List.replicate (width.toNat - string.length)
      (if width > 0 ∧ flags &&& PAD_ZERO ≠ 0 then (48 : UInt8) else 32) =
      List.replicate (width.toNat - string.length) (padchar flags) := by
    by_cases hpos : width > 0
    · simp only [hpos, true_and, padchar]
    · rw [Int.toNat_of_nonpos (by omega), Nat.zero_sub, List.replicate_zero, List.replicate_zero]
  unfold prints
  rw [if_neg (by omega)]
  simp only [hk]
  by_cases hright : flags &&& PAD_RIGHT ≠ 0
  · simp only [if_pos hright, Option.bind_eq_bind, Option.bind_some]
    rw [outputString_eq (by simp only [nothing]; omega), Option.bind_some,
      outputPad_eq (by simp only [nothing]; omega), hpad]
    simp only [nothing, List.nil_append]
    congr 2
    omega
  · simp only [if_neg hright, Option.bind_eq_bind]
    rw [outputPad_eq (by simp only [nothing]; omega), Option.bind_some,
      outputString_eq (by simp only [nothing]; omega), hpad, Option.bind_some]
    simp only [nothing, List.nil_append]
    congr 2
    omega

/-- The digits come out in front of what `s` points to. -/
theorem outputDigits_eq {base letbase fuel u : Nat} {s : List UInt8} (hb : 2 ≤ base)
    (hletbase : letbase = 97 ∨ letbase = 65) (hfuel : (Nat.digits base u).length < fuel)
    (hs : (Nat.digits base u).length + s.length ≤ 63) :
    outputDigits base letbase fuel u s =
      some ((Nat.digits base u).reverse.map (digitChar letbase) ++ s) := by
  induction fuel generalizing u s with
  | zero => omega
  | succ fuel ih =>
      by_cases hu : u = 0
      · subst hu
        simp [outputDigits]
      · have hdigits := Nat.digits_eq_cons_digits_div hb hu
        have hlen : (Nat.digits base u).length = (Nat.digits base (u / base)).length + 1 := by
          rw [hdigits, List.length_cons]
        have hchar : UInt8.ofNat ((if u % base ≥ 10 then u % base + letbase - 48 - 10 else u % base)
            + 48) = digitChar letbase (u % base) := by
          rw [digitChar]
          congr 1
          split_ifs <;> omega
        rw [outputDigits, if_neg hu, if_neg (by omega)]
        simp only [hchar]
        rw [ih (by omega) (by simp only [List.length_cons]; omega), hdigits]
        simp

/-! ## Reading back -/

/-- Signed decimal conversions of negative integers have a sign. -/
abbrev Negative (base : Nat) (sign : Bool) (i : Int) : Prop :=
  sign = true ∧ base = 10 ∧ i < 0

/-- The number behind the sign. -/
def magnitude (base : Nat) (sign : Bool) (i : Int) : Nat :=
  if Negative base sign i then (-i).toNat else u64 i

/-- Digits with their sign. -/
def signed (neg : Prop) [Decidable neg] (letbase : Nat) (ds : List Nat) : List UInt8 :=
  (if neg then [45] else []) ++ ds.map (digitChar letbase)

theorem plain_eq (base : Nat) (sign : Bool) (letbase : Nat) (i : Int) :
    plain base sign letbase i =
      signed (Negative base sign i) letbase (numeral base (magnitude base sign i)) := by
  unfold plain signed magnitude
  split <;> rfl

theorem dropWhile_blanks {c : UInt8} (hc : c ≠ 32) (k : Nat) (cs : List UInt8) :
    (List.replicate k 32 ++ c :: cs).dropWhile (· == 32) = c :: cs := by
  induction k with
  | zero => rw [List.replicate_zero, List.nil_append, List.dropWhile_cons_of_neg (by simpa using hc)]
  | succ k ih => rw [List.replicate_succ, List.cons_append, List.dropWhile_cons_of_pos (by simp), ih]

theorem strip_blanks {cs : List UInt8} (hne : cs ≠ []) (hcs : ∀ c ∈ cs, c ≠ 32) (k k' : Nat) :
    strip (List.replicate k 32 ++ cs ++ List.replicate k' 32) = cs := by
  obtain ⟨c, tail, hcons⟩ := List.exists_cons_of_ne_nil hne
  obtain ⟨d, front, hlast⟩ := List.exists_cons_of_ne_nil (List.reverse_ne_nil_iff.mpr hne)
  have hc : c ≠ 32 := hcs c (by rw [hcons]; exact List.mem_cons_self)
  have hd : d ≠ 32 := hcs d (by rw [← List.mem_reverse, hlast]; exact List.mem_cons_self)
  have hfront : (List.replicate k 32 ++ cs ++ List.replicate k' 32).dropWhile (· == 32) =
      cs ++ List.replicate k' 32 := by
    rw [hcons, List.append_assoc, List.cons_append, dropWhile_blanks hc]
  rw [strip, hfront, List.rdropWhile, List.reverse_append, List.reverse_replicate, hlast,
    dropWhile_blanks hd, ← hlast, List.reverse_reverse]

section ReadBack

variable {base letbase : Nat} {ds : List Nat} {neg : Prop} [Decidable neg]

theorem signed_no_blank (hletbase : letbase = 97 ∨ letbase = 65) (hds : ∀ d ∈ ds, d < 36) :
    ∀ c ∈ signed neg letbase ds, c ≠ 32 := by
  intro c hc hblank
  subst hblank
  rcases List.mem_append.mp hc with hsign | hdigit
  · split at hsign <;> simp at hsign
  · rcases List.mem_map.mp hdigit with ⟨d, hd, hchar⟩
    have hge := digitChar_ge hletbase (hds d hd)
    rw [hchar] at hge
    simp at hge

theorem readInt_signed (hletbase : letbase = 97 ∨ letbase = 65) (hb : base ≤ 36) (hne : ds ≠ [])
    (hds : ∀ d ∈ ds, d < base) :
    readInt base (signed neg letbase ds) =
      some (if neg then -(value base ds : Int) else value base ds) := by
  have hread := readNat_map hletbase hb hne hds
  unfold signed
  split
  · rw [List.singleton_append, readInt, if_pos rfl, hread]
    rfl
  · obtain ⟨d, tail, hcons⟩ := List.exists_cons_of_ne_nil hne
    have hd : d < base := hds d (by rw [hcons]; exact List.mem_cons_self)
    have hchar : digitChar letbase d ≠ 45 := by
      intro hminus
      have hge := digitChar_ge hletbase (show d < 36 by omega)
      rw [hminus] at hge
      simp at hge
    rw [List.nil_append, hcons, List.map_cons, readInt, if_neg hchar, ← List.map_cons, ← hcons,
      hread]
    rfl

end ReadBack

/-! ## The field -/

/-- A number in its field: blanks, the sign, zeros, the digits, zeros and blanks. -/
structure Field where
  front : Nat
  zeros : Nat
  trailing : Nat
  back : Nat

namespace Field

def pad (f : Field) : Nat := f.front + f.zeros + f.trailing + f.back

/-- The digits with the zeros on both sides. -/
def digits (f : Field) (ds : List Nat) : List Nat :=
  List.replicate f.zeros 0 ++ ds ++ List.replicate f.trailing 0

def chars (f : Field) (neg : Prop) [Decidable neg] (letbase : Nat) (ds : List Nat) : List UInt8 :=
  List.replicate f.front 32 ++ signed neg letbase (f.digits ds) ++ List.replicate f.back 32

variable {f : Field} {base letbase : Nat} {ds : List Nat} {neg : Prop} [Decidable neg]

theorem digits_lt {b : Nat} (hb : 0 < b) (hds : ∀ d ∈ ds, d < b) : ∀ d ∈ f.digits ds, d < b := by
  intro d hd
  simp only [digits, List.mem_append, List.mem_replicate] at hd
  rcases hd with (⟨_, rfl⟩ | hd) | ⟨_, rfl⟩
  · exact hb
  · exact hds d hd
  · exact hb

/-- The zeros behind the digits count. -/
theorem value_digits (f : Field) (b : Nat) (ds : List Nat) :
    value b (f.digits ds) = value b ds * b ^ f.trailing := by
  rw [digits, List.append_assoc, value_leading, value_trailing]

theorem readInt_chars (hletbase : letbase = 97 ∨ letbase = 65) (hb : 0 < base) (hb' : base ≤ 36)
    (hne : ds ≠ []) (hds : ∀ d ∈ ds, d < base) :
    readInt base (strip (f.chars neg letbase ds)) =
      some (if neg then -((value base ds * base ^ f.trailing : Nat) : Int)
        else ((value base ds * base ^ f.trailing : Nat) : Int)) := by
  have hdigits := digits_lt (f := f) hb hds
  have hfull : f.digits ds ≠ [] := by simp [digits, hne]
  rw [chars, strip_blanks (by simp [signed, hfull])
    (signed_no_blank hletbase fun d hd => by have := hdigits d hd; omega),
    readInt_signed hletbase hb' hfull hdigits, value_digits]

theorem length_chars : (f.chars neg letbase ds).length = f.pad + (signed neg letbase ds).length := by
  simp only [chars, signed, digits, pad, List.length_append, List.length_replicate, List.length_map]
  omega

end Field

/-- Where `k` characters of padding go. -/
def fieldOf (flags k : Nat) : Field :=
  if flags &&& PAD_ZERO ≠ 0 then
    if flags &&& PAD_RIGHT ≠ 0 then ⟨0, 0, k, 0⟩ else ⟨0, k, 0, 0⟩
  else
    if flags &&& PAD_RIGHT ≠ 0 then ⟨0, 0, 0, k⟩ else ⟨k, 0, 0, 0⟩

section FieldOf

variable {flags k letbase : Nat} {ds : List Nat} {neg : Prop} [Decidable neg]

@[simp] theorem fieldOf_pad (flags k : Nat) : (fieldOf flags k).pad = k := by
  unfold fieldOf
  split_ifs <;> simp [Field.pad]

theorem fieldOf_trailing :
    0 < (fieldOf flags k).trailing ↔ flags &&& PAD_ZERO ≠ 0 ∧ flags &&& PAD_RIGHT ≠ 0 ∧ 0 < k := by
  unfold fieldOf
  by_cases hzero : flags &&& PAD_ZERO ≠ 0 <;> by_cases hright : flags &&& PAD_RIGHT ≠ 0 <;>
    simp [hzero, hright]

theorem digitChar_zero (letbase : Nat) : digitChar letbase 0 = 48 := rfl

/-- Without a sign in front of zeros, the padding stands beside the text. -/
theorem fieldOf_beside (h : ¬ neg ∨ ¬ flags &&& PAD_ZERO ≠ 0 ∨ k = 0) :
    (fieldOf flags k).chars neg letbase ds =
      if flags &&& PAD_RIGHT ≠ 0 then signed neg letbase ds ++ List.replicate k (padchar flags)
      else List.replicate k (padchar flags) ++ signed neg letbase ds := by
  by_cases hk : k = 0
  · subst hk
    unfold fieldOf
    split_ifs <;> simp [Field.chars, Field.digits]
  · by_cases hzero : flags &&& PAD_ZERO ≠ 0
    · have hneg : ¬ neg := by tauto
      by_cases hright : flags &&& PAD_RIGHT ≠ 0 <;>
        simp [fieldOf, hzero, hright, Field.chars, Field.digits, signed, hneg, padchar,
          digitChar_zero]
    · by_cases hright : flags &&& PAD_RIGHT ≠ 0 <;>
        simp [fieldOf, hzero, hright, Field.chars, Field.digits, padchar]

/-- Zeros stand behind the sign. -/
theorem fieldOf_behind (hneg : neg) (hzero : flags &&& PAD_ZERO ≠ 0) :
    (fieldOf flags k).chars neg letbase ds =
      [45] ++ if flags &&& PAD_RIGHT ≠ 0 then
          ds.map (digitChar letbase) ++ List.replicate k (padchar flags)
        else List.replicate k (padchar flags) ++ ds.map (digitChar letbase) := by
  by_cases hright : flags &&& PAD_RIGHT ≠ 0 <;>
    simp [fieldOf, hzero, hright, Field.chars, Field.digits, signed, hneg, padchar, digitChar_zero]

/-- `prints` on a text with its sign. -/
theorem prints_signed {width : Int} (hlen : (signed neg letbase ds).length ≤ 2147483647)
    (hwidth : width ≤ 2147483647)
    (h : ¬ neg ∨ ¬ flags &&& PAD_ZERO ≠ 0 ∨ width.toNat - (signed neg letbase ds).length = 0) :
    prints (signed neg letbase ds) width flags =
      some ⟨(fieldOf flags (width.toNat - (signed neg letbase ds).length)).chars neg letbase ds,
        max width (signed neg letbase ds).length⟩ := by
  rw [prints_eq hlen hwidth, fieldOf_beside h]

theorem signed_neg (hneg : neg) (letbase : Nat) (ds : List Nat) :
    signed neg letbase ds = 45 :: ds.map (digitChar letbase) := by
  rw [signed, if_pos hneg, List.singleton_append]

theorem signed_bare (hneg : ¬ neg) (letbase : Nat) (ds : List Nat) :
    signed neg letbase ds = ds.map (digitChar letbase) := by
  rw [signed, if_neg hneg, List.nil_append]

/-- The sign goes out by itself, and the digits in a field of one column less. -/
theorem prints_behind {width : Int} (hlen : ds.length ≤ 20) (hwidth : 0 < width ∧ width ≤ 2147483647)
    (hneg : neg) (hzero : flags &&& PAD_ZERO ≠ 0) :
    ((outputchar nothing 45).bind fun p =>
        (prints (ds.map (digitChar letbase)) (width - 1) flags).bind (add p)) =
      some ⟨(fieldOf flags (width.toNat - (signed neg letbase ds).length)).chars neg letbase ds,
        max width (signed neg letbase ds).length⟩ := by
  have hminus : (signed neg letbase ds).length = ds.length + 1 := by
    rw [signed_neg hneg, List.length_cons, List.length_map]
  have hk : (width - 1).toNat - ds.length = width.toNat - (ds.length + 1) := by omega
  rw [outputchar, if_neg (by simp [nothing]), Option.bind_some,
    prints_eq (by rw [List.length_map]; omega) (by omega), Option.bind_some, add,
    if_pos (by simp only [nothing, List.length_map]; omega), fieldOf_behind hneg hzero,
    List.length_map, hk, hminus]
  simp only [nothing, List.nil_append]
  congr 2
  omega

end FieldOf

theorem magnitude_lt {i : Int} (hi : -9223372036854775808 ≤ i ∧ i < 9223372036854775808) (base : Nat)
    (sign : Bool) : magnitude base sign i < 2 ^ 64 := by
  unfold magnitude u64
  split <;> omega

theorem numeral_length_le {base u : Nat} (hbase : base = 10 ∨ base = 16) (hu : u < 2 ^ 64) :
    (numeral base u).length ≤ 20 := by
  rw [numeral, List.length_reverse, lowDigits]
  split
  · simp
  · rw [Nat.digits_length_le_iff (by omega)]
    rcases hbase with rfl | rfl <;> omega

theorem outputDigits_numeral {base letbase u : Nat} (hbase : base = 10 ∨ base = 16)
    (hletbase : letbase = 97 ∨ letbase = 65) (hu : u < 2 ^ 64) (hu0 : u ≠ 0) :
    outputDigits base letbase 64 u [] = some ((numeral base u).map (digitChar letbase)) := by
  have hnum : numeral base u = (Nat.digits base u).reverse := by
    rw [numeral, lowDigits, if_neg hu0]
  have hlen := numeral_length_le hbase hu
  rw [hnum, List.length_reverse] at hlen
  rw [outputDigits_eq (by omega) hletbase (by omega) (by simp only [List.length_nil]; omega), hnum,
    List.append_nil]

/-- **What comes out for an integer**: its digits in a field that the flags lay out. -/
theorem outputi_eq {i : Int} (hi : -9223372036854775808 ≤ i ∧ i < 9223372036854775808) {base : Nat}
    (hbase : base = 10 ∨ base = 16) {sign : Bool} {width : Int}
    (hwidth : 0 ≤ width ∧ width ≤ 2147483647) (flags : Nat) {letbase : Nat}
    (hletbase : letbase = 97 ∨ letbase = 65)
    (hmin : ¬ (sign = true ∧ base = 10 ∧ i = -9223372036854775808)) :
    outputi i base sign width flags letbase =
      some ⟨(fieldOf flags (width.toNat - (plain base sign letbase i).length)).chars
          (Negative base sign i) letbase (numeral base (magnitude base sign i)),
        max width (plain base sign letbase i).length⟩ := by
  have hu := magnitude_lt hi base sign
  have hlen := numeral_length_le hbase hu
  have hsigned : (signed (Negative base sign i) letbase
      (numeral base (magnitude base sign i))).length ≤ 21 := by
    rw [signed, List.length_append, List.length_map]
    split <;> simp <;> omega
  rw [plain_eq]
  unfold outputi
  by_cases hi0 : i = 0
  · -- The numeral of zero is not computed.
    subst hi0
    have hneg : ¬ Negative base sign 0 := fun h => absurd h.2.2 (by omega)
    have hzero : signed (Negative base sign 0) letbase
        (numeral base (magnitude base sign 0)) = [48] := by
      rw [magnitude, if_neg hneg, signed_bare hneg]
      rfl
    rw [if_pos rfl, ← prints_signed (by omega) hwidth.2 (Or.inl hneg), hzero]
  · have hmag : u64 (if sign = true ∧ base = 10 ∧ i < 0 then -i else i) =
        magnitude base sign i := by
      unfold magnitude Negative
      split
      · unfold u64
        omega
      · rfl
    have hmag0 : magnitude base sign i ≠ 0 := by
      rw [← hmag]
      unfold u64
      split <;> omega
    have hdefined : ¬ ((sign = true ∧ base = 10 ∧ i < 0) ∧ i = -9223372036854775808) :=
      fun h => hmin ⟨h.1.1, h.1.2.1, h.2⟩
    rw [if_neg hi0, if_neg hdefined]
    simp only [hmag, outputDigits_numeral hbase hletbase hu hmag0, Option.bind_some]
    by_cases hneg : Negative base sign i
    · rw [if_pos hneg]
      by_cases hpad : width ≠ 0 ∧ flags &&& PAD_ZERO ≠ 0
      · rw [if_pos hpad, if_neg (by omega)]
        exact prints_behind hlen (by omega) hneg hpad.2
      · -- The sign is part of the text, and no zeros stand in front of it.
        have hone : ¬ flags &&& PAD_ZERO ≠ 0 ∨ width.toNat - (signed (Negative base sign i) letbase
            (numeral base (magnitude base sign i))).length = 0 := by
          by_cases hwidth0 : width = 0
          · right
            subst hwidth0
            exact Nat.zero_sub _
          · exact Or.inl fun hzero => hpad ⟨hwidth0, hzero⟩
        rw [if_neg hpad, if_neg (by rw [List.length_map]; omega), ← signed_neg hneg,
          prints_signed (by omega) hwidth.2 (Or.inr hone)]
    · rw [if_neg hneg, ← signed_bare hneg, prints_signed (by omega) hwidth.2 (Or.inl hneg)]

/-- The least integer has no negative: its conversion as a signed decimal is undefined. -/
theorem outputi_least (width : Int) (flags letbase : Nat) :
    outputi (-9223372036854775808) 10 true width flags letbase = none := by
  simp [outputi]

theorem magnitude_eq_zero {i : Int} (hi : -9223372036854775808 ≤ i ∧ i < 9223372036854775808)
    (base : Nat) (sign : Bool) : magnitude base sign i = 0 ↔ i = 0 := by
  unfold magnitude u64
  split <;> omega

theorem shown_eq {base : Nat} {sign : Bool} {i : Int}
    (hi : -9223372036854775808 ≤ i ∧ i < 9223372036854775808) :
    shown base sign i =
      if Negative base sign i then -(magnitude base sign i : Int) else magnitude base sign i := by
  unfold shown magnitude u64
  by_cases hneg : Negative base sign i
  · rw [if_pos hneg, if_pos hneg, if_pos ⟨hneg.1, hneg.2.1⟩]
    have := hneg.2.2
    omega
  · rw [if_neg hneg, if_neg hneg]
    split
    · rename_i hsigned
      have hpos : ¬ i < 0 := fun h => hneg ⟨hsigned.1, hsigned.2, h⟩
      omega
    · rfl

/-- Whatever the zeros behind them, the digits stand for the number only if there are none, or it
is zero. -/
theorem mul_pow_eq_self {v base t : Nat} (hb : 2 ≤ base) : v * base ^ t = v ↔ v = 0 ∨ t = 0 := by
  constructor
  · intro h
    by_contra hboth
    push Not at hboth
    have hpow : 1 < base ^ t := Nat.one_lt_pow hboth.2 (by omega)
    have hless : v * 1 < v * base ^ t := Nat.mul_lt_mul_of_pos_left hpow (by omega)
    omega
  · rintro (rfl | rfl)
    · exact Nat.zero_mul _
    · rw [Nat.pow_zero, Nat.mul_one]

/-- **Which conversions show their number.** All but two kinds: the least integer as a signed
decimal, whose negative overflows, and a number other than zero with zero padding on its right. -/
theorem simple_outputi_shows_iff (i : Int)
    (hi : -9223372036854775808 ≤ i ∧ i < 9223372036854775808) (base : Nat)
    (hbase : base = 10 ∨ base = 16) (sign : Bool) (width : Int)
    (hwidth : 0 ≤ width ∧ width ≤ 2147483647) (flags letbase : Nat)
    (hletbase : letbase = 97 ∨ letbase = 65) :
    Shows base sign letbase i width (simple_outputi i base sign width flags letbase) ↔
      ¬ (sign = true ∧ base = 10 ∧ i = -9223372036854775808) ∧
        ¬ (flags &&& PAD_ZERO ≠ 0 ∧ flags &&& PAD_RIGHT ≠ 0 ∧ i ≠ 0 ∧
          ((plain base sign letbase i).length : Int) < width) := by
  have hb : 2 ≤ base := by omega
  by_cases hmin : sign = true ∧ base = 10 ∧ i = -9223372036854775808
  · rcases hmin with ⟨rfl, rfl, rfl⟩
    rw [simple_outputi, outputi_least]
    simp [Shows]
  · rw [simple_outputi, outputi_eq hi hbase hwidth flags hletbase hmin, and_iff_right hmin]
    have hpad := fieldOf_pad flags (width.toNat - (plain base sign letbase i).length)
    have hplaces := @fieldOf_trailing flags (width.toNat - (plain base sign letbase i).length)
    -- From here on only the size of the field and its trailing zeros matter.
    generalize fieldOf flags (width.toNat - (plain base sign letbase i).length) = f
      at hpad hplaces ⊢
    have hread := @Field.readInt_chars f base letbase _ (Negative base sign i) _ hletbase (by omega)
      (by omega) (numeral_ne_nil base (magnitude base sign i)) (numeral_lt hb)
    have hlen := @Field.length_chars f letbase (numeral base (magnitude base sign i))
      (Negative base sign i) _
    rw [hpad, ← plain_eq] at hlen
    rw [value_numeral] at hread
    generalize f.chars (Negative base sign i) letbase (numeral base (magnitude base sign i)) = chars
      at hread hlen ⊢
    have hvalue : (if Negative base sign i
          then -((magnitude base sign i * base ^ f.trailing : Nat) : Int)
          else ((magnitude base sign i * base ^ f.trailing : Nat) : Int)) = shown base sign i ↔
        i = 0 ∨ f.trailing = 0 := by
      rw [← magnitude_eq_zero hi base sign, ← mul_pow_eq_self hb, shown_eq hi]
      split <;> omega
    have htrailing : f.trailing = 0 ↔ ¬ (flags &&& PAD_ZERO ≠ 0 ∧ flags &&& PAD_RIGHT ≠ 0 ∧
        ((plain base sign letbase i).length : Int) < width) := by
      have hk : 0 < width.toNat - (plain base sign letbase i).length ↔
          ((plain base sign letbase i).length : Int) < width := by omega
      rw [← hk, ← hplaces, Nat.not_lt, Nat.le_zero]
    rw [htrailing] at hvalue
    have hfills : ((width.toNat - (plain base sign letbase i).length +
        (plain base sign letbase i).length : Nat) : Int) =
        max width (plain base sign letbase i).length := by omega
    constructor
    · rintro ⟨p, hp, hshown, _⟩ ⟨hzero, hright, hi0, hwide⟩
      cases hp
      rw [hread, Option.some.injEq, hvalue] at hshown
      rcases hshown with hzero' | hnarrow
      · exact hi0 hzero'
      · exact hnarrow ⟨hzero, hright, hwide⟩
    · intro h
      refine ⟨_, rfl, ?_, ?_, ?_⟩
      · rw [hread, Option.some.injEq, hvalue]
        by_cases hi0 : i = 0
        · exact Or.inl hi0
        · exact Or.inr fun hall => h ⟨hall.1, hall.2.1, hi0, hall.2.2⟩
      · rw [hlen, hfills]
      · rw [hlen, hfills]

theorem simple_outputi_shows_left :
    Shows 10 true 97 (-42) 8 (simple_outputi (-42) 10 true 8 PAD_ZERO 97) :=
  (simple_outputi_shows_iff (-42) (by decide) 10 (by decide) true 8 (by decide) PAD_ZERO 97
    (by decide)).mpr (by decide)

/-- `42` with zero padding on the right of five columns comes out as `42000`. -/
theorem simple_outputi_appends_zeros :
    ¬ Shows 10 true 97 42 5 (simple_outputi 42 10 true 5 (PAD_ZERO ||| PAD_RIGHT) 97) := by
  rintro ⟨p, hp, hread, _⟩
  have hout : simple_outputi 42 10 true 5 (PAD_ZERO ||| PAD_RIGHT) 97 =
      some ⟨[52, 50, 48, 48, 48], 5⟩ := by decide
  rw [hout] at hp
  cases hp
  exact absurd hread (by decide)

end Stdlib
end EmbeddedOS
