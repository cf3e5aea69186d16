import EmbeddedOS.Base.MachineInt

/-!
# A flat byte memory

Little-endian loads and stores of `k` bytes, block fill and block copy, and what each write
leaves unchanged. A write is described by the interval it touches; everything else follows from
`load_congr` (a load only depends on the bytes it reads).
-/

namespace EmbeddedOS
namespace Base

/-- Byte contents of every address. -/
abbrev ByteMem := Nat → UInt8

namespace ByteMem

/-! ## Operations -/

/-- Little-endian value of the `k` bytes at `a`. -/
def load (m : ByteMem) : Nat → Nat → Nat
  | _, 0 => 0
  | a, k + 1 => (m a).toNat + 256 * load m (a + 1) k

/-- Byte `i` of the little-endian representation of `v`. -/
def byteOf (v i : Nat) : UInt8 := UInt8.ofNat (v / 256 ^ i)

/-- Store the low `k` bytes of `v` at `a`, little-endian. -/
def store (m : ByteMem) (a k v : Nat) : ByteMem :=
  fun b => if a ≤ b ∧ b < a + k then byteOf v (b - a) else m b

/-- Set the `n` bytes at `a` to `c`. -/
def fill (m : ByteMem) (a n : Nat) (c : UInt8) : ByteMem :=
  fun b => if a ≤ b ∧ b < a + n then c else m b

/-- Set the `n` bytes at `d` to what the `n` bytes at `s` held before. -/
def copy (m : ByteMem) (d s n : Nat) : ByteMem :=
  fun b => if d ≤ b ∧ b < d + n then m (s + (b - d)) else m b

/-- `m` and `m'` hold the same bytes on `[lo, hi)`. -/
def AgreeOn (m m' : ByteMem) (lo hi : Nat) : Prop :=
  ∀ b, lo ≤ b → b < hi → m b = m' b

namespace AgreeOn

theorem refl (m : ByteMem) (lo hi : Nat) : AgreeOn m m lo hi := by
  intro b _ _
  rfl

theorem symm {m m' : ByteMem} {lo hi : Nat} (h : AgreeOn m m' lo hi) : AgreeOn m' m lo hi := by
  intro b hlo hhi
  exact (h b hlo hhi).symm

theorem trans {m m' m'' : ByteMem} {lo hi : Nat}
    (h : AgreeOn m m' lo hi) (h' : AgreeOn m' m'' lo hi) : AgreeOn m m'' lo hi := by
  intro b hlo hhi
  exact (h b hlo hhi).trans (h' b hlo hhi)

theorem mono {m m' : ByteMem} {lo hi lo' hi' : Nat} (h : AgreeOn m m' lo hi)
    (hlo : lo ≤ lo') (hhi : hi' ≤ hi) : AgreeOn m m' lo' hi' := by
  intro b hb hb'
  exact h b (by omega) (by omega)

end AgreeOn

/-! ## Loads depend only on the bytes they read -/

theorem load_shift {m m' : ByteMem} {a b : Nat} (k : Nat)
    (h : ∀ i, i < k → m (a + i) = m' (b + i)) : load m a k = load m' b k := by
  induction k generalizing a b with
  | zero => rfl
  | succ k ih =>
      have h0 : m a = m' b := by
        simpa using h 0 (Nat.succ_pos k)
      have hrest : load m (a + 1) k = load m' (b + 1) k := by
        apply ih
        intro i hi
        have hi' := h (i + 1) (by omega)
        simpa [Nat.add_assoc, Nat.add_comm 1 i] using hi'
      simp [load, h0, hrest]

theorem load_congr {m m' : ByteMem} {a k : Nat} (h : AgreeOn m m' a (a + k)) :
    load m a k = load m' a k := by
  apply load_shift
  intro i hi
  exact h (a + i) (by omega) (by omega)

theorem load_lt (m : ByteMem) (a k : Nat) : load m a k < 256 ^ k := by
  induction k generalizing a with
  | zero => simp [load]
  | succ k ih =>
      have hb : (m a).toNat < 256 := (m a).toNat_lt
      have hr := ih (a + 1)
      rw [load, Nat.pow_succ]
      omega

theorem load_of_bytes {m : ByteMem} {a v : Nat} (k : Nat)
    (h : ∀ i, i < k → m (a + i) = byteOf v i) : load m a k = v % 256 ^ k := by
  induction k generalizing a v with
  | zero => simp [load, Nat.mod_one]
  | succ k ih =>
      have h0 : (m a).toNat = v % 256 := by
        have := h 0 (Nat.succ_pos k)
        simp only [Nat.add_zero, byteOf, Nat.pow_zero, Nat.div_one] at this
        simp [this]
      have hrest : load m (a + 1) k = (v / 256) % 256 ^ k := by
        apply ih
        intro i hi
        have hi' := h (i + 1) (by omega)
        have harg : a + (i + 1) = a + 1 + i := by omega
        rw [harg] at hi'
        rw [hi', byteOf, byteOf, Nat.div_div_eq_div_mul, Nat.pow_succ']
      rw [load, h0, hrest, Nat.pow_succ', Nat.mod_mul]

/-! ## What a write leaves alone, and what it writes -/

theorem store_outside {m : ByteMem} {a k v b : Nat} (h : b < a ∨ a + k ≤ b) :
    store m a k v b = m b := by
  unfold store
  rw [if_neg (by omega)]

theorem fill_outside {m : ByteMem} {a n : Nat} {c : UInt8} {b : Nat} (h : b < a ∨ a + n ≤ b) :
    fill m a n c b = m b := by
  unfold fill
  rw [if_neg (by omega)]

theorem copy_outside {m : ByteMem} {d s n b : Nat} (h : b < d ∨ d + n ≤ b) :
    copy m d s n b = m b := by
  unfold copy
  rw [if_neg (by omega)]

theorem copy_inside {m : ByteMem} {d s n b : Nat} (h : d ≤ b ∧ b < d + n) :
    copy m d s n b = m (s + (b - d)) := by
  unfold copy
  rw [if_pos h]

theorem load_store_same (m : ByteMem) (a k v : Nat) : load (store m a k v) a k = v % 256 ^ k := by
  apply load_of_bytes
  intro i hi
  unfold store
  rw [if_pos (by omega)]
  congr 1
  omega

theorem load_store_disjoint {m : ByteMem} {a k v b l : Nat} (h : b + l ≤ a ∨ a + k ≤ b) :
    load (store m a k v) b l = load m b l := by
  apply load_congr
  intro x hlo hhi
  exact store_outside (by omega)

theorem load_copy_inside {m : ByteMem} {d s n b l : Nat} (hlo : d ≤ b) (hhi : b + l ≤ d + n) :
    load (copy m d s n) b l = load m (s + (b - d)) l := by
  apply load_shift
  intro i hi
  rw [copy_inside (by omega)]
  congr 1
  omega

/-! ## `int` and pointer cells -/

/-- The `int` at `a`. -/
def loadInt (m : ByteMem) (a : Nat) : Int := i32 (load m a 4)

/-- The 64-bit pointer at `a`. -/
def loadPtr (m : ByteMem) (a : Nat) : Nat := load m a 8

def storeInt (m : ByteMem) (a : Nat) (v : Int) : ByteMem := store m a 4 (u32 v)

def storePtr (m : ByteMem) (a : Nat) (v : Nat) : ByteMem := store m a 8 v

theorem loadInt_congr {m m' : ByteMem} {a : Nat} (h : AgreeOn m m' a (a + 4)) :
    loadInt m a = loadInt m' a := by
  simp only [loadInt, load_congr h]

theorem loadPtr_congr {m m' : ByteMem} {a : Nat} (h : AgreeOn m m' a (a + 8)) :
    loadPtr m a = loadPtr m' a :=
  load_congr h

theorem loadInt_storeInt_same (m : ByteMem) (a : Nat) {v : Int}
    (hlo : -2147483648 ≤ v) (hhi : v < 2147483648) : loadInt (storeInt m a v) a = v := by
  have hmod : u32 v % 256 ^ 4 = u32 v := Nat.mod_eq_of_lt (u32_lt v)
  simp only [loadInt, storeInt, load_store_same, hmod, i32_u32]
  exact i32_of_range hlo hhi

theorem loadPtr_storePtr_same (m : ByteMem) (a : Nat) {v : Nat} (h : v < 18446744073709551616) :
    loadPtr (storePtr m a v) a = v := by
  simp only [loadPtr, storePtr, load_store_same]
  exact Nat.mod_eq_of_lt h

/-! ### Cells that a write does not touch -/

section Disjoint

variable {m : ByteMem} {a b : Nat}

theorem loadInt_storeInt {v : Int} (h : b + 4 ≤ a ∨ a + 4 ≤ b) :
    loadInt (storeInt m a v) b = loadInt m b := by
  simp only [loadInt, storeInt, load_store_disjoint h]

theorem loadInt_storePtr {v : Nat} (h : b + 4 ≤ a ∨ a + 8 ≤ b) :
    loadInt (storePtr m a v) b = loadInt m b := by
  simp only [loadInt, storePtr, load_store_disjoint h]

theorem loadPtr_storeInt {v : Int} (h : b + 8 ≤ a ∨ a + 4 ≤ b) :
    loadPtr (storeInt m a v) b = loadPtr m b :=
  load_store_disjoint h

theorem loadPtr_storePtr {v : Nat} (h : b + 8 ≤ a ∨ a + 8 ≤ b) :
    loadPtr (storePtr m a v) b = loadPtr m b :=
  load_store_disjoint h

end Disjoint

/-- A write confined to `[lo, hi)`. -/
def WritesOnly (m m' : ByteMem) (lo hi : Nat) : Prop :=
  ∀ b, b < lo ∨ hi ≤ b → m' b = m b

namespace WritesOnly

theorem refl (m : ByteMem) (lo hi : Nat) : WritesOnly m m lo hi := by
  intro b _
  rfl

theorem trans {m m' m'' : ByteMem} {lo hi : Nat}
    (h : WritesOnly m m' lo hi) (h' : WritesOnly m' m'' lo hi) : WritesOnly m m'' lo hi := by
  intro b hb
  exact (h' b hb).trans (h b hb)

theorem mono {m m' : ByteMem} {lo hi lo' hi' : Nat} (h : WritesOnly m m' lo hi)
    (hlo : lo' ≤ lo) (hhi : hi ≤ hi') : WritesOnly m m' lo' hi' := by
  intro b hb
  exact h b (by omega)

theorem agreeOn {m m' : ByteMem} {lo hi lo' hi' : Nat} (h : WritesOnly m m' lo hi)
    (hd : hi' ≤ lo ∨ hi ≤ lo') : AgreeOn m' m lo' hi' := by
  intro b hlo hhi
  exact h b (by omega)

theorem store (m : ByteMem) (a k v : Nat) : WritesOnly m (ByteMem.store m a k v) a (a + k) := by
  intro b hb
  exact store_outside hb

theorem storeInt (m : ByteMem) (a : Nat) (v : Int) :
    WritesOnly m (ByteMem.storeInt m a v) a (a + 4) :=
  WritesOnly.store m a 4 _

theorem storePtr (m : ByteMem) (a v : Nat) : WritesOnly m (ByteMem.storePtr m a v) a (a + 8) :=
  WritesOnly.store m a 8 v

theorem fill (m : ByteMem) (a n : Nat) (c : UInt8) :
    WritesOnly m (ByteMem.fill m a n c) a (a + n) := by
  intro b hb
  exact fill_outside hb

theorem copy (m : ByteMem) (d s n : Nat) : WritesOnly m (ByteMem.copy m d s n) d (d + n) := by
  intro b hb
  exact copy_outside hb

end WritesOnly

/-- A write confined to the addresses in `P`. -/
def WritesWithin (m m' : ByteMem) (P : Nat → Prop) : Prop :=
  ∀ b, ¬ P b → m' b = m b

namespace WritesWithin

variable {m m' m'' : ByteMem} {P Q : Nat → Prop} {lo hi : Nat}

theorem refl (m : ByteMem) (P : Nat → Prop) : WritesWithin m m P := by
  intro b _
  rfl

theorem trans (h : WritesWithin m m' P) (h' : WritesWithin m' m'' P) : WritesWithin m m'' P := by
  intro b hb
  exact (h' b hb).trans (h b hb)

theorem mono (h : WritesWithin m m' P) (hPQ : ∀ b, P b → Q b) : WritesWithin m m' Q := by
  intro b hb
  exact h b (fun hP => hb (hPQ b hP))

theorem agreeOn (h : WritesWithin m m' P) (hd : ∀ b, P b → b < lo ∨ hi ≤ b) :
    AgreeOn m' m lo hi := by
  intro b hlo hhi
  refine h b fun hP => ?_
  have := hd b hP
  omega

theorem writesOnly (h : WritesWithin m m' P) (hin : ∀ b, P b → lo ≤ b ∧ b < hi) :
    WritesOnly m m' lo hi := by
  intro b hb
  refine h b fun hP => ?_
  have := hin b hP
  omega

theorem of_writesOnly (h : WritesOnly m m' lo hi) (hin : ∀ b, lo ≤ b → b < hi → P b) :
    WritesWithin m m' P := by
  intro b hb
  refine h b ?_
  by_contra hnot
  exact hb (hin b (by omega) (by omega))

end WritesWithin

end ByteMem
end Base
end EmbeddedOS
