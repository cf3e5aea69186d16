import EmbeddedOS.Base.ByteText
import EmbeddedOS.Base.Loop
import EmbeddedOS.Base.Numeral
import EmbeddedOS.Stdlib.StringOps

/-!
# Numbers and their texts

`itoa` and `atoi` of `string.c`. `itoa` writes the digits as the divisions give them, the least
significant first, and turns the text round in place. What it writes is the numeral of its number,
and `atoi` takes a decimal numeral back to the number.
-/

namespace EmbeddedOS
namespace Stdlib

open Base Base.ByteMem

/-! ## `itoa` -/

/-- One pass of `do { … } while (n /= base);` on the memory, `i` and `n`. -/
def digitPass (buf base : Nat) :
    ByteMem × Nat × Nat → Option (Pass (ByteMem × Nat × Nat) (ByteMem × Nat))
  | (m, i, n) =>
      -- A division by zero, or an `int` that overflows.
      if base = 0 ∨ i = 2147483647 then none
      else
        let tmp := n % base
        let m := setByte m (buf + i) (UInt8.ofNat (if tmp < 10 then tmp + 48 else tmp + 97 - 10))
        let n := n / base
        if n ≠ 0 then some (.again (m, i + 1, n)) else some (.done (m, i + 1))

/-- `for (j = 0; j < i; j++, i--)`, from `j` and `i` on. -/
def swapFrom (buf : Nat) (m : ByteMem) (j : Nat) : Nat → ByteMem
  | 0 => m
  | i + 1 =>
      if j < i + 1 then
        let tmp := m (buf + j)
        let m := setByte m (buf + j) (m (buf + (i + 1)))
        swapFrom buf (setByte m (buf + (i + 1)) tmp) (j + 1) i
      else m

/-- `void itoa(char *buf, unsigned long int n, int base)` -/
def itoa (m : ByteMem) (buf n : Nat) (base : Int) : Option ByteMem :=
  (loop (digitPass buf (u64 base)) (n + 1) (m, 0, n)).map fun (m, i) =>
    swapFrom buf (setByte m (buf + i) 0) 0 (i - 1)

/-! ## `atoi` -/

def isspace (c : UInt8) : Bool := c = 32 || c = 9 || c = 10 || c = 11 || c = 12 || c = 13

/-- `while (isspace(*string))` -/
def spacePass (m : ByteMem) (string : Nat) : Option (Pass Nat Nat) :=
  some (if isspace (m string) then .again (string + 1) else .done string)

/-- One pass of `for ( ; ; string += 1)` on `string` and `result`. -/
def resultPass (m : ByteMem) : Nat × Int → Option (Pass (Nat × Int) Int)
  | (string, result) =>
      let digit := u32 (((m string).toNat : Int) - 48)
      if digit > 9 then some (.done result)
      else if -2147483648 ≤ 10 * result ∧ 10 * result ≤ 2147483647 then
        -- The sum is of unsigned integers.
        some (.again (string + 1, i32 (u32 (10 * result + digit))))
      else none

/-- `int atoi(char *string)`; `fuel` bounds the passes of each loop. -/
def atoi (m : ByteMem) (fuel string : Nat) : Option Int := do
  let string ← loop (spacePass m) fuel string
  let sign := m string = 45
  let string := if m string = 45 ∨ m string = 43 then string + 1 else string
  let result ← loop (resultPass m) fuel (string, 0)
  if sign then
    if result = -2147483648 then none else some (-result)
  else some result

/-! ## The text that `itoa` writes -/

/-- `'0'` to `'9'` and `'a'` to `'z'`. -/
def LowerDigit (c : UInt8) : Prop :=
  (48 ≤ c.toNat ∧ c.toNat ≤ 57) ∨ (97 ≤ c.toNat ∧ c.toNat ≤ 122)

/-- The text of `n` in base `b`: its digits, most significant first, and no zero in front. -/
structure Canonical (b n : Nat) (text : List UInt8) : Prop where
  digits : ∀ c ∈ text, LowerDigit c
  head : text.head? = some 48 → text = [48]
  value : readNat b text = some n

variable {m : ByteMem} {b n : Nat} {ds : List Nat}

theorem lowerDigit_digitChar {d : Nat} (hd : d < 36) : LowerDigit (digitChar 97 d) := by
  rw [LowerDigit, digitChar_toNat (Or.inl rfl) hd]
  split <;> omega

theorem canonical_numeral (hb : 2 ≤ b) (hb' : b ≤ 36) (n : Nat) :
    Canonical b n ((numeral b n).map (digitChar 97)) where
  digits := by
    intro c hc
    rcases List.mem_map.mp hc with ⟨d, hd, rfl⟩
    have hdigit := numeral_lt hb d hd
    exact lowerDigit_digitChar (by omega)
  head := by
    intro hhead
    by_cases hn : n = 0
    · subst hn
      rfl
    · rw [List.head?_map, Option.map_eq_some_iff] at hhead
      rcases hhead with ⟨d, hd, hchar⟩
      have hdigit := numeral_lt hb d (List.mem_of_head? hd)
      rw [digitChar_eq_zero (Or.inl rfl) (by omega)] at hchar
      subst hchar
      exact absurd hd (numeral_head hn)
  value := by
    rw [readNat_map (Or.inl rfl) hb' (numeral_ne_nil b n) (numeral_lt hb), value_numeral]

/-! ## The digit loop -/

theorem lowDigits_length_le (hb : 2 ≤ b) (hn : n < 2 ^ 64) : (lowDigits b n).length ≤ 64 := by
  unfold lowDigits
  split
  · simp
  · rw [Nat.digits_length_le_iff (by omega)]
    calc n < 2 ^ 64 := hn
      _ ≤ b ^ 64 := Nat.pow_le_pow_left hb 64

/-- The loop writes the digits from `i` on, the least significant first, and nothing else. -/
theorem digitPass_loop {buf fuel i : Nat} (hb : 2 ≤ b) (hfuel : n < fuel)
    (hi : i + (lowDigits b n).length ≤ 2147483647) :
    ∃ m', loop (digitPass buf b) fuel (m, i, n) = some (m', i + (lowDigits b n).length) ∧
      Holds m' (buf + i) ((lowDigits b n).map (digitChar 97)) ∧
      WritesOnly m m' (buf + i) (buf + i + (lowDigits b n).length) := by
  induction fuel generalizing m i n with
  | zero => omega
  | succ fuel ih =>
      have hstep := lowDigits_step hb n
      have hguard : ¬ (b = 0 ∨ i = 2147483647) := by
        rw [hstep] at hi
        simp at hi
        omega
      let m₁ := setByte m (buf + i) (digitChar 97 (n % b))
      -- The quotient decides whether this digit is the last.
      by_cases hq : n / b = 0
      · have hpass : digitPass buf b (m, i, n) = some (.done (m₁, i + 1)) := by
          simp only [digitPass, if_neg hguard, hq, ne_eq, not_true_eq_false, if_false]
          rfl
        refine ⟨m₁, ?_⟩
        rw [loop_done hpass, hstep, if_pos hq]
        refine ⟨rfl, ⟨by simp [m₁, setByte], trivial⟩, ?_⟩
        intro x hx
        simp only [m₁, setByte]
        rw [if_neg (by simp at hx; omega)]
      · have hpass : digitPass buf b (m, i, n) = some (.again (m₁, i + 1, n / b)) := by
          simp only [digitPass, if_neg hguard, ne_eq, hq, not_false_eq_true, if_true]
          rfl
        rw [if_neg hq] at hstep
        have hlen : (lowDigits b n).length = (lowDigits b (n / b)).length + 1 := by
          rw [hstep, List.length_cons]
        have hn : n ≠ 0 := fun hzero => hq (hzero ▸ Nat.zero_div b)
        have hless : n / b < fuel := by
          have := Nat.div_lt_self (Nat.pos_of_ne_zero hn) hb
          omega
        rcases ih hless (i := i + 1) (m := m₁) (by omega) with ⟨m', hloop, hholds, hwrites⟩
        refine ⟨m', ?_, ?_, ?_⟩
        · rw [loop_again hpass, hloop, hlen, Nat.add_assoc, Nat.add_comm 1]
        · rw [hstep, List.map_cons]
          refine ⟨?_, by rwa [Nat.add_assoc]⟩
          -- The later passes write behind this digit.
          rw [hwrites (buf + i) (by omega)]
          simp [m₁, setByte]
        · intro x hx
          rw [hwrites x (by omega)]
          simp only [m₁, setByte]
          rw [if_neg (by omega)]

/-! ## The reversal -/

/-- Each byte from index `j` to index `i` comes from its mirror image. -/
theorem swapFrom_apply (buf : Nat) (m : ByteMem) (j i a : Nat) :
    swapFrom buf m j i a =
      if buf + j ≤ a ∧ a ≤ buf + i then m (buf + i + (buf + j) - a) else m a := by
  induction i generalizing m j with
  | zero =>
      rw [swapFrom]
      split
      · congr 1
        omega
      · rfl
  | succ i ih =>
      rw [swapFrom]
      by_cases hji : j < i + 1
      · rw [if_pos hji]
        simp only [ih, setByte]
        -- Between the two bytes that are swapped, at one of them, or outside.
        by_cases hin : buf + (j + 1) ≤ a ∧ a ≤ buf + i
        · have hsum : buf + i + (buf + (j + 1)) - a = buf + (i + 1) + (buf + j) - a := by omega
          rw [if_pos hin, if_neg (by omega), if_neg (by omega), if_pos (by omega), hsum]
        · rw [if_neg hin]
          by_cases hlast : a = buf + (i + 1)
          · subst hlast
            rw [if_pos rfl, if_pos (by omega), Nat.add_sub_cancel_left]
          · rw [if_neg hlast]
            by_cases hfirst : a = buf + j
            · subst hfirst
              rw [if_pos rfl, if_pos (by omega), Nat.add_sub_cancel]
            · rw [if_neg hfirst, if_neg (by omega)]
      · rw [if_neg hji]
        split
        · congr 1
          omega
        · rfl

theorem swapFrom_holds {buf : Nat} {cs : List UInt8} (h : Holds m buf cs) :
    Holds (swapFrom buf m 0 (cs.length - 1)) buf cs.reverse := by
  rw [holds_iff] at h ⊢
  intro i hi
  rw [List.length_reverse] at hi
  have hmirror : buf + (cs.length - 1) + (buf + 0) - (buf + i) = buf + (cs.length - 1 - i) := by
    omega
  rw [swapFrom_apply, if_pos (by omega), hmirror, h _ (by omega), List.getElem_reverse]

/-- **`itoa` writes the numeral of `n`** and its terminator, and nothing else. -/
theorem itoa_eq (m : ByteMem) (buf : Nat) (hn : n < 2 ^ 64) (hb : 2 ≤ b) (hb' : b ≤ 36) :
    ∃ m', itoa m buf n b = some m' ∧
      Holds m' buf ((numeral b n).map (digitChar 97) ++ [0]) ∧
      WritesOnly m m' buf (buf + (numeral b n).length + 1) := by
  have hlen := lowDigits_length_le hb hn
  have hbase : u64 (b : Int) = b := u64_of_range rfl (by omega)
  have hpos : 0 < (lowDigits b n).length := List.length_pos_iff.mpr (lowDigits_ne_nil b n)
  have hcount : (numeral b n).length = (lowDigits b n).length := List.length_reverse
  rcases @digitPass_loop m b n buf (n + 1) 0 hb (Nat.lt_succ_self n) (by omega) with
    ⟨m₁, hloop, hdigits, hwrites⟩
  simp only [Nat.zero_add, Nat.add_zero] at hloop hdigits hwrites
  let m₂ := setByte m₁ (buf + (lowDigits b n).length) 0
  refine ⟨swapFrom buf m₂ 0 ((lowDigits b n).length - 1), ?_, ?_, ?_⟩
  · rw [itoa, hbase, hloop]
    rfl
  · have hkept : Holds m₂ buf ((lowDigits b n).map (digitChar 97)) := by
      refine hdigits.congr fun x hlo hhi => ?_
      rw [List.length_map] at hhi
      simp only [m₂, setByte]
      rw [if_neg (by omega)]
    have hswapped := swapFrom_holds hkept
    rw [List.length_map, ← List.map_reverse] at hswapped
    refine holds_append.mpr ⟨hswapped, ?_, trivial⟩
    rw [List.length_map, hcount, swapFrom_apply, if_neg (by omega)]
    simp [m₂, setByte]
  · intro x hx
    rw [swapFrom_apply, if_neg (by omega)]
    simp only [m₂, setByte]
    rw [if_neg (by omega), hwrites x (by omega)]

/-! ## The parser -/

theorem le_value_from (b v : Nat) (hb : 1 ≤ b) (ds : List Nat) :
    v ≤ ds.foldl (fun v d => v * b + d) v := by
  induction ds generalizing v with
  | nil => exact Nat.le_refl v
  | cons d ds ih =>
      calc v ≤ v * b := Nat.le_mul_of_pos_right v hb
        _ ≤ v * b + d := Nat.le_add_right _ _
        _ ≤ _ := ih _

theorem digitChar_decimal {d : Nat} (hd : d < 10) : (digitChar 97 d).toNat = d + 48 := by
  rw [digitChar_toNat (Or.inl rfl) (by omega), if_pos hd]

/-- The loop adds up the digits as long as the result is an `int`. -/
theorem resultPass_loop {fuel string r : Nat} (hds : ∀ d ∈ ds, d < 10)
    (hm : Holds m string (ds.map (digitChar 97) ++ [0]))
    (hmax : ds.foldl (fun v d => v * 10 + d) r ≤ 2147483647) (hfuel : ds.length < fuel) :
    loop (resultPass m) fuel (string, (r : Int)) =
      some ((ds.foldl (fun v d => v * 10 + d) r : Nat) : Int) := by
  induction fuel generalizing string r ds with
  | zero => omega
  | succ fuel ih =>
      cases ds with
      | nil =>
          refine loop_done ?_
          rw [resultPass, hm.1]
          rfl
      | cons d ds =>
          have hd : d < 10 := hds d List.mem_cons_self
          have hdigit : u32 (((m string).toNat : Int) - 48) = d := by
            rw [hm.1, digitChar_decimal hd]
            exact u32_of_range (by omega) (by omega)
          have hnext : r * 10 + d ≤ 2147483647 :=
            (le_value_from 10 (r * 10 + d) (by omega) ds).trans hmax
          -- Below the largest `int` the unsigned arithmetic is exact.
          have hsum : i32 (u32 (10 * (r : Int) + (d : Nat))) = ((r * 10 + d : Nat) : Int) := by
            rw [i32_u32, i32_of_range (by omega) (by omega)]
            omega
          have hpass : resultPass m (string, r) =
              some (.again (string + 1, ((r * 10 + d : Nat) : Int))) := by
            simp only [resultPass, hdigit]
            rw [if_neg (by omega), if_pos (by omega), hsum]
          rw [loop_again hpass, ih (fun d hd => hds d (List.mem_cons_of_mem _ hd)) hm.2 hmax
            (by simp at hfuel; omega)]
          rfl

/-- **`atoi` takes a decimal numeral back to its number.** -/
theorem atoi_numeral {fuel string : Nat} (hmax : n ≤ 2147483647)
    (hm : Holds m string ((numeral 10 n).map (digitChar 97) ++ [0]))
    (hfuel : (numeral 10 n).length < fuel) : atoi m fuel string = some (n : Int) := by
  have hds : ∀ d ∈ numeral 10 n, d < 10 := numeral_lt (by omega)
  obtain ⟨d, ds, hcons⟩ := List.exists_cons_of_ne_nil (numeral_ne_nil 10 n)
  have hfirst : (m string).toNat = d + 48 := by
    rw [hcons] at hm hds
    rw [hm.1, digitChar_decimal (hds d List.mem_cons_self)]
  -- Nothing is skipped in front of a digit, and there is no sign.
  have hspace : loop (spacePass m) fuel string = some string := by
    obtain ⟨fuel, rfl⟩ : ∃ k, fuel = k + 1 := ⟨fuel - 1, by omega⟩
    refine loop_done ?_
    have hnot : isspace (m string) = false := by
      simp only [isspace, ← UInt8.toNat_inj, hfirst]
      simp
    rw [spacePass, hnot]
    rfl
  have hminus : m string ≠ 45 := by
    rw [Ne, ← UInt8.toNat_inj, hfirst]
    simp
  have hplus : m string ≠ 43 := by
    rw [Ne, ← UInt8.toNat_inj, hfirst]
    simp
  have hloop := resultPass_loop (r := 0) hds hm (by rw [← value, value_numeral]; exact hmax) hfuel
  rw [← value, value_numeral, Nat.cast_zero] at hloop
  rw [atoi, hspace]
  simp [hminus, hplus, hloop]

/-- **Numbers survive their texts.** For every `unsigned long` and every base from 2 to 36, `itoa`
writes the canonical text of the number, as a string, and nothing else; in base 10, `atoi` reads
every `int` back from it. -/
theorem itoa_round_trip (m : ByteMem) (buf n b : Nat) (hn : n < 2 ^ 64) (hb : 2 ≤ b ∧ b ≤ 36) :
    ∃ m' text, itoa m buf n b = some m' ∧ StringAt m' buf text ∧ Canonical b n text ∧
      WritesOnly m m' buf (buf + text.length + 1) ∧
      (b = 10 → n ≤ 2147483647 → ∃ fuel, ∀ more, fuel ≤ more → atoi m' more buf = some (n : Int)) := by
  rcases itoa_eq m buf hn hb.1 hb.2 with ⟨m', hitoa, hholds, hwrites⟩
  refine ⟨m', (numeral b n).map (digitChar 97), hitoa, ⟨?_, hholds⟩, canonical_numeral hb.1 hb.2 n,
    by rwa [List.length_map], ?_⟩
  · intro hzero
    rcases List.mem_map.mp hzero with ⟨d, hd, hchar⟩
    have hdigit := numeral_lt hb.1 d hd
    have hge : 48 ≤ (digitChar 97 d).toNat := digitChar_ge (Or.inl rfl) (by omega)
    rw [hchar] at hge
    simp at hge
  · rintro rfl hmax
    exact ⟨(numeral 10 n).length + 1, fun more hmore => atoi_numeral hmax hholds hmore⟩

theorem itoa_round_trip_int_max :
    ∃ m' text, itoa (fun _ => 0) 4096 2147483647 (10 : Nat) = some m' ∧
      StringAt m' 4096 text ∧ Canonical 10 2147483647 text ∧
      WritesOnly (fun _ => 0) m' 4096 (4096 + text.length + 1) ∧
      (10 = 10 → 2147483647 ≤ 2147483647 →
        ∃ fuel, ∀ more, fuel ≤ more → atoi m' more 4096 = some ((2147483647 : Nat) : Int)) :=
  itoa_round_trip (fun _ => 0) 4096 2147483647 10 (by decide) (by decide)

end Stdlib
end EmbeddedOS
