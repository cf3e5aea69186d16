import EmbeddedOS.Memory.HardwareReserve

/-!
# The page bitmap as a set of chunks

The masks for positions 0 to 30 touch one bit. The mask for position 31 is a negative `int`, so
its conversion to 64 bits also carries bits 32 to 63: in every map built by the macros those
bits repeat bit 31 (`Mirrored`), and under that invariant `test_used` reads exactly the set of
used chunks.
-/

namespace EmbeddedOS
namespace Memory

open Base

/-- Bits 32 to 63 of every word repeat bit 31. -/
def Mirrored (map : PageMap) : Prop :=
  ∀ i k, 31 ≤ k → k < 64 → (map i).getLsbD k = (map i).getLsbD 31

/-- Chunk `n` is marked used. -/
def used (map : PageMap) (n : Nat) : Bool := (map (n / 32)).getLsbD (n % 32)

/-- Chunks whose word lies in the array. -/
abbrev MAP_CHUNKS : Nat := 786432

/-! ## The masks -/

theorem getLsbD_bitMask (n : Nat) {k : Nat} (hk : k < 64) :
    ((bitMask n).signExtend 64).getLsbD k =
      (decide (k = n % 32) || decide (n % 32 = 31 ∧ 31 ≤ k)) := by
  have hb : n % 32 < 32 := Nat.mod_lt n (by decide)
  simp only [bitMask]
  generalize n % 32 = b at hb
  revert k b
  decide +kernel

theorem getLsbD_not_bitMask (n : Nat) {k : Nat} (hk : k < 64) :
    ((~~~ bitMask n).signExtend 64).getLsbD k =
      !((bitMask n).signExtend 64).getLsbD k := by
  have hb : n % 32 < 32 := Nat.mod_lt n (by decide)
  simp only [bitMask]
  generalize n % 32 = b at hb
  revert k b
  decide +kernel

/-- The upper half of a mask repeats bit 31. -/
theorem getLsbD_bitMask_top (n : Nat) {k : Nat} (hk : 31 ≤ k) (hk' : k < 64) :
    ((bitMask n).signExtend 64).getLsbD k = ((bitMask n).signExtend 64).getLsbD 31 := by
  have hb : n % 32 < 32 := Nat.mod_lt n (by decide)
  rw [getLsbD_bitMask n hk', getLsbD_bitMask n (by omega)]
  by_cases h31 : n % 32 = 31
  · simp [h31, hk]
  · have h1 : ¬ k = n % 32 := by omega
    have h2 : ¬ 31 = n % 32 := by omega
    simp [h31, h1, h2]

/-- In the word of chunk `n` its mask touches chunk `n` only. -/
theorem getLsbD_bitMask_chunk {n k : Nat} (hw : k / 32 = n / 32) :
    ((bitMask n).signExtend 64).getLsbD (k % 32) = decide (k = n) := by
  have hkb : k % 32 < 32 := Nat.mod_lt k (by decide)
  rw [getLsbD_bitMask n (by omega)]
  have heq : (k % 32 = n % 32) ↔ k = n := by omega
  have htop : (n % 32 = 31 ∧ 31 ≤ k % 32) → k = n := by omega
  by_cases hkn : k = n
  · simp [hkn]
  · have h1 : ¬ k % 32 = n % 32 := fun h => hkn (heq.1 h)
    have h2 : ¬ (n % 32 = 31 ∧ 31 ≤ k % 32) := fun h => hkn (htop h)
    simp [h1, h2, hkn]

theorem mirrored_zero : Mirrored (fun _ => 0#64) := by
  intro i k _ _
  simp

/-! ## One macro call -/

theorem testUsed_eq {map : PageMap} (hm : Mirrored map) {n : Nat} (hn : n < MAP_CHUNKS) :
    testUsed map n = some (used map n) := by
  have hb : n % 32 < 32 := Nat.mod_lt n (by decide)
  have hword : n / 32 < MAP_WORDS := by
    simp only [MAP_CHUNKS, MAP_WORDS] at hn ⊢
    omega
  rw [testUsed, if_pos hword]
  congr 1
  by_cases hu : used map n = true
  · have hne : map (n / 32) &&& (bitMask n).signExtend 64 ≠ 0#64 := by
      intro h0
      have hbit := congrArg (fun w => w.getLsbD (n % 32)) h0
      simp only [BitVec.getLsbD_and, getLsbD_bitMask n (show n % 32 < 64 by omega)] at hbit
      unfold used at hu
      simp [hu] at hbit
    simp [hne, hu]
  · have heq : map (n / 32) &&& (bitMask n).signExtend 64 = 0#64 := by
      apply BitVec.eq_of_getLsbD_eq
      intro k hk
      rw [BitVec.getLsbD_and, getLsbD_bitMask n hk, BitVec.getLsbD_zero]
      have hfalse : (map (n / 32)).getLsbD (n % 32) = false := Bool.eq_false_iff.2 hu
      by_cases hkn : k = n % 32
      · rw [hkn, hfalse, Bool.false_and]
      · by_cases htop : n % 32 = 31 ∧ 31 ≤ k
        · rw [htop.1] at hfalse
          rw [hm (n / 32) k htop.2 hk, hfalse, Bool.false_and]
        · simp [hkn, htop]
    simp [heq, hu]

theorem testUsed_inBounds {map : PageMap} {n : Nat} {b : Bool} (h : testUsed map n = some b) :
    n < MAP_CHUNKS := by
  unfold testUsed at h
  split at h
  · simp only [MAP_CHUNKS, MAP_WORDS] at *
    omega
  · cases h

theorem getLsbD_setWord (map : PageMap) (i : Nat) (v : BitVec 64) (j k : Nat) :
    (setWord map i v j).getLsbD k = if j = i then v.getLsbD k else (map j).getLsbD k := by
  unfold setWord
  split <;> rfl

theorem used_setWord_ne {map : PageMap} {i : Nat} {v : BitVec 64} {k : Nat} (h : k / 32 ≠ i) :
    used (setWord map i v) k = used map k := by
  rw [used, getLsbD_setWord, if_neg h, used]

theorem markUsed_spec {map : PageMap} (hm : Mirrored map) {n : Nat} (hn : n < MAP_CHUNKS) :
    ∃ map', markUsed map n = some map' ∧ Mirrored map' ∧
      ∀ k, used map' k = (decide (k = n) || used map k) := by
  have hb : n % 32 < 32 := Nat.mod_lt n (by decide)
  have hword : n / 32 < MAP_WORDS := by
    simp only [MAP_CHUNKS, MAP_WORDS] at hn ⊢
    omega
  refine ⟨_, by rw [markUsed, if_pos hword], ?_, ?_⟩
  · intro i k hk hk'
    rw [getLsbD_setWord, getLsbD_setWord]
    split
    · rw [BitVec.getLsbD_or, BitVec.getLsbD_or, getLsbD_bitMask_top n hk hk', hm (n / 32) k hk hk']
    · exact hm i k hk hk'
  · intro k
    by_cases hw : k / 32 = n / 32
    · rw [used, getLsbD_setWord, if_pos hw, BitVec.getLsbD_or, getLsbD_bitMask_chunk hw, used, hw,
        Bool.or_comm]
    · have hkn : ¬ k = n := by
        intro h
        exact hw (by rw [h])
      rw [used_setWord_ne hw]
      simp [hkn]

theorem markFree_natCast (map : PageMap) {n : Nat} (hn : n < MAP_CHUNKS) :
    markFree map n = some (setWord map (n / 32)
      (map (n / 32) &&& (~~~ bitMask n).signExtend 64)) := by
  have hdiv : (n : Int).tdiv 32 = ((n / 32 : Nat) : Int) := rfl
  have hmod : ((n : Int) % 32).toNat = n % 32 := by omega
  have hword : (0 : Int) ≤ ((n / 32 : Nat) : Int) ∧ ((n / 32 : Nat) : Int) < (MAP_WORDS : Nat) := by
    simp only [MAP_CHUNKS, MAP_WORDS] at hn ⊢
    omega
  have hidem : bitMask (n % 32) = bitMask n := by
    simp [bitMask]
  simp only [markFree, hdiv, hmod, if_pos hword, Int.toNat_natCast, hidem]

theorem markFree_spec {map : PageMap} (hm : Mirrored map) {n : Nat} (hn : n < MAP_CHUNKS) :
    ∃ map', markFree map n = some map' ∧ Mirrored map' ∧
      ∀ k, used map' k = (!decide (k = n) && used map k) := by
  have hb : n % 32 < 32 := Nat.mod_lt n (by decide)
  refine ⟨_, markFree_natCast map hn, ?_, ?_⟩
  · intro i k hk hk'
    rw [getLsbD_setWord, getLsbD_setWord]
    split
    · rw [BitVec.getLsbD_and, BitVec.getLsbD_and, getLsbD_not_bitMask n hk',
        getLsbD_not_bitMask n (by omega), getLsbD_bitMask_top n hk hk', hm (n / 32) k hk hk']
    · exact hm i k hk hk'
  · intro k
    have hkb : k % 32 < 32 := Nat.mod_lt k (by decide)
    by_cases hw : k / 32 = n / 32
    · rw [used, getLsbD_setWord, if_pos hw, BitVec.getLsbD_and, getLsbD_not_bitMask n (by omega),
        getLsbD_bitMask_chunk hw, used, hw, Bool.and_comm]
    · have hkn : ¬ k = n := by
        intro h
        exact hw (by rw [h])
      rw [used_setWord_ne hw]
      simp [hkn]

/-! ## The marking loops -/

theorem markUsedUpTo_spec {map : PageMap} (hm : Mirrored map) {first : Nat} (n : Nat)
    (hn : first + n ≤ MAP_CHUNKS) :
    ∃ map', markUsedUpTo map first n = some map' ∧ Mirrored map' ∧
      ∀ k, used map' k = (decide (first ≤ k ∧ k < first + n) || used map k) := by
  induction n with
  | zero =>
      refine ⟨map, rfl, hm, ?_⟩
      intro k
      rw [decide_eq_false (by omega)]
      rfl
  | succ n ih =>
      rcases ih (by omega) with ⟨map₁, hrun, hm₁, hused₁⟩
      have hchunk : u64 (first + n) = first + n := by
        apply u64_of_range (by omega)
        simp only [MAP_CHUNKS] at hn
        omega
      rcases markUsed_spec hm₁ (show first + n < MAP_CHUNKS by omega)
          with ⟨map₂, hmark, hm₂, hused₂⟩
      refine ⟨map₂, by simp [markUsedUpTo, hrun, hchunk, hmark], hm₂, ?_⟩
      intro k
      have hiff : (k = first + n ∨ first ≤ k ∧ k < first + n) ↔
          (first ≤ k ∧ k < first + (n + 1)) := by omega
      rw [hused₂, hused₁, ← Bool.or_assoc, ← Bool.decide_or, decide_eq_decide.2 hiff]

theorem markFreeUpTo_spec {map : PageMap} (hm : Mirrored map) {first : Nat} (n : Nat)
    (hn : first + n ≤ MAP_CHUNKS) :
    ∃ map', markFreeUpTo map first n = some map' ∧ Mirrored map' ∧
      ∀ k, used map' k = (!decide (first ≤ k ∧ k < first + n) && used map k) := by
  induction n with
  | zero =>
      refine ⟨map, rfl, hm, ?_⟩
      intro k
      rw [decide_eq_false (by omega)]
      rfl
  | succ n ih =>
      rcases ih (by omega) with ⟨map₁, hrun, hm₁, hused₁⟩
      have hchunk : i32 ((first : Int) + n) = ((first + n : Nat) : Int) := by
        simp only [MAP_CHUNKS] at hn
        rw [i32_of_range (by omega) (by omega)]
        omega
      rcases markFree_spec hm₁ (show first + n < MAP_CHUNKS by omega)
          with ⟨map₂, hmark, hm₂, hused₂⟩
      have hnext : markFreeUpTo map first (n + 1) = some map₂ := by
        rw [markFreeUpTo, hrun, Option.bind_eq_bind, Option.bind_some, hchunk]
        exact hmark
      refine ⟨map₂, hnext, hm₂, ?_⟩
      intro k
      have hiff : (k = first + n ∨ first ≤ k ∧ k < first + n) ↔
          (first ≤ k ∧ k < first + (n + 1)) := by omega
      rw [hused₂, hused₁, ← Bool.and_assoc, ← Bool.not_or, ← Bool.decide_or,
        decide_eq_decide.2 hiff]

/-- The clearing loop of `mem_init` leaves a zero map zero. -/
theorem clearWords_zero (n : Nat) : clearWords (fun _ => 0#64) n = fun _ => 0#64 := by
  induction n with
  | zero => rfl
  | succ n ih =>
      funext j
      simp [clearWords, ih, setWord]

/-! ## Sequences of operations -/

/-- `mark_used(chunk)` or `mark_free(chunk)`. -/
inductive MapCall where
  | mark_used (chunk : Nat)
  | mark_free (chunk : Nat)
  deriving DecidableEq, Repr

namespace MapCall

def chunk : MapCall → Nat
  | mark_used n => n
  | mark_free n => n

def apply (map : PageMap) : MapCall → Option PageMap
  | mark_used n => markUsed map n
  | mark_free n => markFree map n

def applyAll (map : PageMap) : List MapCall → Option PageMap
  | [] => some map
  | c :: calls => (c.apply map).bind fun map => applyAll map calls

/-- The last operation on chunk `n`. -/
def last (n : Nat) : List MapCall → Option MapCall
  | [] => none
  | c :: calls => (last n calls).or (if c.chunk = n then some c else none)

variable {map : PageMap} {calls : List MapCall}

/-- One operation decides about its own chunk, and about no other. -/
theorem apply_spec (hm : Mirrored map) (c : MapCall) (hc : c.chunk < MAP_CHUNKS) :
    ∃ map', c.apply map = some map' ∧ Mirrored map' ∧
      ∀ n, used map' n = if n = c.chunk then decide (c = mark_used n) else used map n := by
  cases c with
  | mark_used k =>
      rcases markUsed_spec hm hc with ⟨map', hrun, hm', hused⟩
      refine ⟨map', hrun, hm', fun n => ?_⟩
      rw [hused]
      by_cases hn : n = k <;> simp [hn, chunk]
  | mark_free k =>
      rcases markFree_spec hm hc with ⟨map', hrun, hm', hused⟩
      refine ⟨map', hrun, hm', fun n => ?_⟩
      rw [hused]
      by_cases hn : n = k <;> simp [hn, chunk]

/-- What the last operation on a chunk says holds at the end; without one, what held before. -/
theorem applyAll_spec (hm : Mirrored map) (hcalls : ∀ c ∈ calls, c.chunk < MAP_CHUNKS) :
    ∃ map', applyAll map calls = some map' ∧ Mirrored map' ∧
      ∀ n, used map' n = match last n calls with
        | some c => decide (c = mark_used n)
        | none => used map n := by
  induction calls generalizing map with
  | nil => exact ⟨map, rfl, hm, fun _ => rfl⟩
  | cons c calls ih =>
      rcases apply_spec hm c (hcalls c List.mem_cons_self) with ⟨map₁, hrun, hm₁, hused₁⟩
      rcases ih hm₁ fun d hd => hcalls d (List.mem_cons_of_mem c hd) with
        ⟨map₂, hrest, hm₂, hused₂⟩
      refine ⟨map₂, by rw [applyAll, hrun, Option.bind_some, hrest], hm₂, fun n => ?_⟩
      rw [hused₂, last]
      cases hlast : last n calls with
      | some d => rfl
      | none =>
          rw [Option.none_or, hused₁]
          by_cases hn : n = c.chunk
          · rw [if_pos hn, if_pos hn.symm]
          · rw [if_neg hn, if_neg (Ne.symm hn)]

end MapCall

/-- **The page bitmap is a set.** After any sequence of operations `test_used` tells which chunks were
marked used last, and one more operation changes the answer for its own chunk only. -/
theorem page_bitmap_set (calls : List MapCall) (hcalls : ∀ c ∈ calls, c.chunk < MAP_CHUNKS) :
    ∃ map, MapCall.applyAll (fun _ => 0#64) calls = some map ∧
      (∀ n, n < MAP_CHUNKS →
        testUsed map n = some (decide (MapCall.last n calls = some (.mark_used n)))) ∧
      ∀ c : MapCall, c.chunk < MAP_CHUNKS → ∃ map', c.apply map = some map' ∧
        ∀ n, n < MAP_CHUNKS → n ≠ c.chunk → testUsed map' n = testUsed map n := by
  rcases MapCall.applyAll_spec mirrored_zero hcalls with ⟨map, hrun, hm, hused⟩
  refine ⟨map, hrun, ?_, ?_⟩
  · intro n hn
    rw [testUsed_eq hm hn, hused]
    cases MapCall.last n calls with
    | some c => simp
    | none => simp [used]
  · intro c hc
    rcases MapCall.apply_spec hm c hc with ⟨map', hstep, hm', hused'⟩
    refine ⟨map', hstep, fun n hn hne => ?_⟩
    rw [testUsed_eq hm' hn, testUsed_eq hm hn, hused', if_neg hne]

/-- Chunk 31 is marked twice, and freed in between. -/
theorem page_bitmap_set_top :
    ∃ map, MapCall.applyAll (fun _ => 0#64) [.mark_used 31, .mark_free 31, .mark_used 31] =
        some map ∧
      (∀ n, n < MAP_CHUNKS → testUsed map n = some (decide (MapCall.last n
        [.mark_used 31, .mark_free 31, .mark_used 31] = some (.mark_used n)))) ∧
      ∀ c : MapCall, c.chunk < MAP_CHUNKS → ∃ map', c.apply map = some map' ∧
        ∀ n, n < MAP_CHUNKS → n ≠ c.chunk → testUsed map' n = testUsed map n :=
  page_bitmap_set [.mark_used 31, .mark_free 31, .mark_used 31] (by decide)

end Memory
end EmbeddedOS
