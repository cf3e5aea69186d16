import EmbeddedOS.Stdlib.StringOps
import Mathlib.Data.Nat.Bitwise

/-!
# Field codecs of FAT32

`load_half`, `load_full`, `load_cluster` and their stores, of `fat32.h`, and the FAT entries that
`fat32.c` moves through them. The loads join their bytes with `&&` where the stores part them with
`&`, and in the opposite order.
-/

namespace EmbeddedOS
namespace Fat32

open Base Stdlib

/-! ## The code -/

/-- `b && 0xFF` -/
def andFF (b : UInt8) : Nat := if b ≠ 0 ∧ 0xFF ≠ 0 then 1 else 0

/-- `r |= (ptr[offset] && 0xFF) << shift;` for each field. -/
def loadFields (m : ByteMem) (ptr : Nat) (fields : List (Nat × Nat)) : Nat :=
  fields.foldl (fun r (offset, shift) => r ||| (andFF (m (ptr + offset)) <<< shift)) 0

/-- `ptr[offset] = (v >> shift) & 0xFF;` for each field. -/
def storeFields (m : ByteMem) (ptr v : Nat) (fields : List (Nat × Nat)) : ByteMem :=
  fields.foldl
    (fun m (offset, shift) => setByte m (ptr + offset) (UInt8.ofNat ((v >>> shift) &&& 0xFF))) m

abbrev DIR_FstClusHi : Nat := 20

abbrev DIR_FstClusLo : Nat := 26

def load_half (m : ByteMem) (ptr : Nat) : Nat := loadFields m ptr [(1, 0), (0, 8)]

def load_full (m : ByteMem) (ptr : Nat) : Nat := loadFields m ptr [(3, 0), (2, 8), (1, 16), (0, 24)]

def store_half (m : ByteMem) (ptr v : Nat) : ByteMem := storeFields m ptr v [(0, 0), (1, 8)]

def store_full (m : ByteMem) (ptr v : Nat) : ByteMem :=
  storeFields m ptr v [(0, 0), (1, 8), (2, 16), (3, 24)]

def load_cluster (m : ByteMem) (dir : Nat) : Nat :=
  loadFields m dir [(DIR_FstClusLo + 1, 0), (DIR_FstClusLo + 0, 8),
    (DIR_FstClusHi + 1, 16), (DIR_FstClusHi + 0, 24)]

def store_cluster (m : ByteMem) (dir v : Nat) : ByteMem :=
  storeFields m dir v [(DIR_FstClusLo + 1, 0), (DIR_FstClusLo + 0, 8),
    (DIR_FstClusHi + 1, 16), (DIR_FstClusHi + 0, 24)]

/-! ## The format -/

/-- The number whose bytes stand at these offsets, the lowest first. -/
def littleEndian (m : ByteMem) (ptr : Nat) : List Nat → Nat
  | [] => 0
  | offset :: offsets => (m (ptr + offset)).toNat + 256 * littleEndian m ptr offsets

/-- What a load and a store do at one place: they undo each other, they touch the bytes of the field
only, and the number in these bytes is the one that is meant. -/
structure Codec (offsets : List Nat) (load : ByteMem → Nat → Nat)
    (store : ByteMem → Nat → Nat → ByteMem) (m : ByteMem) (ptr v : Nat) : Prop where
  load_store : load (store m ptr v) ptr = v
  store_load : store m ptr (load m ptr) = m
  frame : ∀ a, (∀ offset ∈ offsets, a ≠ ptr + offset) → store m ptr v a = m a
  load_format : load m ptr = littleEndian m ptr offsets
  store_format : littleEndian (store m ptr v) ptr offsets = v

abbrev HalfCodec : ByteMem → Nat → Nat → Prop := Codec [0, 1] load_half store_half

abbrev FullCodec : ByteMem → Nat → Nat → Prop := Codec [0, 1, 2, 3] load_full store_full

/-- The upper half of a cluster number stands apart from the lower one. -/
abbrev ClusterCodec : ByteMem → Nat → Nat → Prop :=
  Codec [DIR_FstClusLo, DIR_FstClusLo + 1, DIR_FstClusHi, DIR_FstClusHi + 1]
    load_cluster store_cluster

/-! ## What the loads and stores compute -/

section Fields

variable (m : ByteMem) (ptr : Nat)

theorem andFF_eq (b : UInt8) : andFF b = if b.toNat = 0 then 0 else 1 := by
  have hzero : b = 0 ↔ b.toNat = 0 := UInt8.toNat_inj.symm
  rw [andFF]
  by_cases hb : b.toNat = 0
  · rw [if_pos hb, if_neg]
    exact fun h => h.1 (hzero.mpr hb)
  · rw [if_neg hb, if_pos]
    exact ⟨fun h => hb (hzero.mp h), by decide⟩

theorem andFF_cases (b : UInt8) : andFF b = 0 ∨ andFF b = 1 := by
  rw [andFF_eq]
  split
  · exact .inl rfl
  · exact .inr rfl

theorem load_half_eq : load_half m ptr = andFF (m (ptr + 1)) + 256 * andFF (m (ptr + 0)) := by
  rw [load_half, loadFields]
  simp only [List.foldl]
  rcases andFF_cases (m (ptr + 1)) with h₁ | h₁ <;> rcases andFF_cases (m (ptr + 0)) with h₀ | h₀ <;>
    rw [h₀, h₁] <;> rfl

theorem loadFields_four (a b c d : Nat) :
    loadFields m ptr [(a, 0), (b, 8), (c, 16), (d, 24)] =
      andFF (m (ptr + a)) + 256 * andFF (m (ptr + b)) + 65536 * andFF (m (ptr + c)) +
        16777216 * andFF (m (ptr + d)) := by
  rw [loadFields]
  simp only [List.foldl]
  rcases andFF_cases (m (ptr + a)) with ha | ha <;> rcases andFF_cases (m (ptr + b)) with hb | hb <;>
    rcases andFF_cases (m (ptr + c)) with hc | hc <;>
      rcases andFF_cases (m (ptr + d)) with hd | hd <;> rw [ha, hb, hc, hd] <;> rfl

theorem byte_toNat (v shift : Nat) :
    (UInt8.ofNat ((v >>> shift) &&& 0xFF)).toNat = v / 2 ^ shift % 256 := by
  have hmask : (v >>> shift) &&& 0xFF = v / 2 ^ shift % 256 := by
    rw [Nat.shiftRight_eq_div_pow]
    exact Nat.and_two_pow_sub_one_eq_mod _ 8
  rw [hmask, UInt8.toNat_ofNat']
  exact Nat.mod_mod _ _

theorem store_half_apply (v a : Nat) : store_half m ptr v a =
    if a = ptr + 1 then UInt8.ofNat ((v >>> 8) &&& 0xFF)
    else if a = ptr + 0 then UInt8.ofNat ((v >>> 0) &&& 0xFF)
    else m a :=
  rfl

theorem storeFields_four (v a b c d x : Nat) :
    storeFields m ptr v [(a, 0), (b, 8), (c, 16), (d, 24)] x =
      if x = ptr + d then UInt8.ofNat ((v >>> 24) &&& 0xFF)
      else if x = ptr + c then UInt8.ofNat ((v >>> 16) &&& 0xFF)
      else if x = ptr + b then UInt8.ofNat ((v >>> 8) &&& 0xFF)
      else if x = ptr + a then UInt8.ofNat ((v >>> 0) &&& 0xFF)
      else m x :=
  rfl

end Fields

/-! ## Where they agree -/

section Agreement

variable (m : ByteMem) (ptr : Nat)

/-- What touches some bytes only gives the same memory if it gives the same bytes there. -/
theorem eq_iff_offsets {m m' : ByteMem} {ptr : Nat} {offsets : List Nat}
    (frame : ∀ a, (∀ offset ∈ offsets, a ≠ ptr + offset) → m' a = m a) :
    m' = m ↔ ∀ offset ∈ offsets, (m' (ptr + offset)).toNat = (m (ptr + offset)).toNat := by
  constructor
  · intro h offset _
    rw [h]
  · intro h
    funext a
    by_cases hin : ∃ offset ∈ offsets, a = ptr + offset
    · obtain ⟨offset, hoffset, rfl⟩ := hin
      exact UInt8.toNat_inj.mp (h offset hoffset)
    · refine frame a fun offset hoffset ha => hin ⟨offset, hoffset, ha⟩

/-! ### Sixteen bits -/

theorem store_half_low (v : Nat) : (store_half m ptr v (ptr + 0)).toNat = v % 256 := by
  rw [store_half_apply, if_neg (by omega), if_pos rfl, byte_toNat, Nat.pow_zero, Nat.div_one]

theorem store_half_high (v : Nat) : (store_half m ptr v (ptr + 1)).toNat = v / 256 % 256 := by
  rw [store_half_apply, if_pos rfl, byte_toNat]
  rfl

theorem store_half_frame (v : Nat) {a : Nat} (h : ∀ offset ∈ [0, 1], a ≠ ptr + offset) :
    store_half m ptr v a = m a := by
  rw [store_half_apply, if_neg (h 1 (by decide)), if_neg (h 0 (by decide))]

theorem half_load_store {v : Nat} (hv : v < 65536) :
    load_half (store_half m ptr v) ptr = v ↔ v = 0 ∨ v = 0x0101 := by
  rw [load_half_eq, andFF_eq, andFF_eq, store_half_low, store_half_high]
  split_ifs <;> omega

/-- Both bytes are 0, or both are 1. -/
def HalfBytes : Prop := m (ptr + 0) = m (ptr + 1) ∧ (m (ptr + 0)).toNat ≤ 1

theorem half_store_load : store_half m ptr (load_half m ptr) = m ↔ HalfBytes m ptr := by
  have h₀ := (m (ptr + 0)).toNat_lt
  have h₁ := (m (ptr + 1)).toNat_lt
  rw [eq_iff_offsets fun a => store_half_frame m ptr _ (a := a), List.forall_mem_cons,
    List.forall_mem_singleton, store_half_low, store_half_high, HalfBytes, ← UInt8.toNat_inj,
    load_half_eq, andFF_eq, andFF_eq]
  split_ifs <;> omega

theorem half_load_format : load_half m ptr = littleEndian m ptr [0, 1] ↔ HalfBytes m ptr := by
  have h₀ := (m (ptr + 0)).toNat_lt
  have h₁ := (m (ptr + 1)).toNat_lt
  rw [HalfBytes, ← UInt8.toNat_inj, load_half_eq, andFF_eq, andFF_eq, littleEndian, littleEndian,
    littleEndian]
  split_ifs <;> omega

theorem half_codec_iff (v : UInt16) :
    HalfCodec m ptr v.toNat ↔ (v.toNat = 0 ∨ v.toNat = 0x0101) ∧ HalfBytes m ptr := by
  have hv : v.toNat < 65536 := v.toNat_lt
  constructor
  · intro h
    exact ⟨(half_load_store m ptr hv).mp h.load_store, (half_store_load m ptr).mp h.store_load⟩
  · rintro ⟨hvalue, hbytes⟩
    refine ⟨(half_load_store m ptr hv).mpr hvalue, (half_store_load m ptr).mpr hbytes,
      fun a ha => store_half_frame m ptr _ ha, (half_load_format m ptr).mpr hbytes, ?_⟩
    rw [littleEndian, littleEndian, littleEndian, store_half_low, store_half_high]
    omega

/-! ### Thirty-two bits -/

theorem sum_bytes {v : Nat} (hv : v < 4294967296) :
    v % 256 + 256 * (v / 256 % 256) + 65536 * (v / 65536 % 256) +
      16777216 * (v / 16777216 % 256) = v := by
  omega

section Four

variable {a b c d : Nat}

/-- The four bytes that are stored at four different offsets. -/
theorem storeFields_bytes (v : Nat) (h : [a, b, c, d].Nodup) :
    (storeFields m ptr v [(a, 0), (b, 8), (c, 16), (d, 24)] (ptr + a)).toNat = v % 256 ∧
      (storeFields m ptr v [(a, 0), (b, 8), (c, 16), (d, 24)] (ptr + b)).toNat = v / 256 % 256 ∧
      (storeFields m ptr v [(a, 0), (b, 8), (c, 16), (d, 24)] (ptr + c)).toNat =
        v / 65536 % 256 ∧
      (storeFields m ptr v [(a, 0), (b, 8), (c, 16), (d, 24)] (ptr + d)).toNat =
        v / 16777216 % 256 := by
  simp only [List.nodup_cons, List.mem_cons, List.not_mem_nil, or_false, not_or] at h
  obtain ⟨⟨hab, hac, had⟩, ⟨hbc, hbd⟩, hcd, -⟩ := h
  refine ⟨?_, ?_, ?_, ?_⟩
  · rw [storeFields_four, if_neg (by omega), if_neg (by omega), if_neg (by omega), if_pos rfl,
      byte_toNat, Nat.pow_zero, Nat.div_one]
  · rw [storeFields_four, if_neg (by omega), if_neg (by omega), if_pos rfl, byte_toNat]
    rfl
  · rw [storeFields_four, if_neg (by omega), if_pos rfl, byte_toNat]
    rfl
  · rw [storeFields_four, if_pos rfl, byte_toNat]
    rfl

theorem storeFields_frame (v : Nat) {x : Nat} (h : ∀ offset ∈ [a, b, c, d], x ≠ ptr + offset) :
    storeFields m ptr v [(a, 0), (b, 8), (c, 16), (d, 24)] x = m x := by
  rw [storeFields_four, if_neg (h d (by simp)), if_neg (h c (by simp)), if_neg (h b (by simp)),
    if_neg (h a (by simp))]

/-- What is stored gives the same memory if its four bytes do. -/
theorem storeFields_eq_iff (v : Nat) (h : [a, b, c, d].Nodup) :
    storeFields m ptr v [(a, 0), (b, 8), (c, 16), (d, 24)] = m ↔
      v % 256 = (m (ptr + a)).toNat ∧ v / 256 % 256 = (m (ptr + b)).toNat ∧
        v / 65536 % 256 = (m (ptr + c)).toNat ∧ v / 16777216 % 256 = (m (ptr + d)).toNat := by
  obtain ⟨ha, hb, hc, hd⟩ := storeFields_bytes m ptr v h
  rw [eq_iff_offsets fun x => storeFields_frame m ptr v (x := x)]
  simp only [List.forall_mem_cons, List.not_mem_nil, false_implies, implies_true, and_true]
  rw [ha, hb, hc, hd]

end Four

/-- Outer and inner bytes are 0 or 1 in pairs. -/
def FullValue (v : Nat) : Prop :=
  v = 0 ∨ v = 0x01000001 ∨ v = 0x00010100 ∨ v = 0x01010101

def FullBytes : Prop :=
  m (ptr + 0) = m (ptr + 3) ∧ m (ptr + 1) = m (ptr + 2) ∧ (m (ptr + 0)).toNat ≤ 1 ∧
    (m (ptr + 1)).toNat ≤ 1

theorem full_load_store {v : Nat} (hv : v < 4294967296) :
    load_full (store_full m ptr v) ptr = v ↔ FullValue v := by
  obtain ⟨h₀, h₁, h₂, h₃⟩ := storeFields_bytes m ptr v (show [0, 1, 2, 3].Nodup by decide)
  rw [FullValue, load_full, loadFields_four, store_full, andFF_eq, andFF_eq, andFF_eq, andFF_eq, h₀,
    h₁, h₂, h₃]
  split_ifs <;> omega

theorem full_store_load : store_full m ptr (load_full m ptr) = m ↔ FullBytes m ptr := by
  have h₀ := (m (ptr + 0)).toNat_lt
  have h₁ := (m (ptr + 1)).toNat_lt
  have h₂ := (m (ptr + 2)).toNat_lt
  have h₃ := (m (ptr + 3)).toNat_lt
  rw [store_full, storeFields_eq_iff m ptr _ (by decide), FullBytes, ← UInt8.toNat_inj,
    ← UInt8.toNat_inj, load_full, loadFields_four, andFF_eq, andFF_eq, andFF_eq, andFF_eq]
  split_ifs <;> omega

theorem full_load_format : load_full m ptr = littleEndian m ptr [0, 1, 2, 3] ↔ FullBytes m ptr := by
  have h₀ := (m (ptr + 0)).toNat_lt
  have h₁ := (m (ptr + 1)).toNat_lt
  have h₂ := (m (ptr + 2)).toNat_lt
  have h₃ := (m (ptr + 3)).toNat_lt
  rw [FullBytes, ← UInt8.toNat_inj, ← UInt8.toNat_inj, load_full, loadFields_four, andFF_eq, andFF_eq,
    andFF_eq, andFF_eq]
  simp only [littleEndian]
  split_ifs <;> omega

theorem full_codec_iff (w : UInt32) :
    FullCodec m ptr w.toNat ↔ FullValue w.toNat ∧ FullBytes m ptr := by
  have hw : w.toNat < 4294967296 := w.toNat_lt
  constructor
  · intro h
    exact ⟨(full_load_store m ptr hw).mp h.load_store, (full_store_load m ptr).mp h.store_load⟩
  · rintro ⟨hvalue, hbytes⟩
    refine ⟨(full_load_store m ptr hw).mpr hvalue, (full_store_load m ptr).mpr hbytes,
      fun a ha => storeFields_frame m ptr _ ha, (full_load_format m ptr).mpr hbytes, ?_⟩
    obtain ⟨h₀, h₁, h₂, h₃⟩ := storeFields_bytes m ptr w.toNat (show [0, 1, 2, 3].Nodup by decide)
    simp only [littleEndian, store_full, h₀, h₁, h₂, h₃]
    omega

/-! ### Cluster numbers -/

/-- Every byte is 0 or 1. -/
def ClusterValue (v : Nat) : Prop :=
  v % 256 ≤ 1 ∧ v / 256 % 256 ≤ 1 ∧ v / 65536 % 256 ≤ 1 ∧ v / 16777216 % 256 ≤ 1

theorem store_cluster_bytes (v : Nat) :
    (store_cluster m ptr v (ptr + 27)).toNat = v % 256 ∧
      (store_cluster m ptr v (ptr + 26)).toNat = v / 256 % 256 ∧
      (store_cluster m ptr v (ptr + 21)).toNat = v / 65536 % 256 ∧
      (store_cluster m ptr v (ptr + 20)).toNat = v / 16777216 % 256 :=
  storeFields_bytes m ptr v (a := 27) (b := 26) (c := 21) (d := 20) (by decide)

theorem load_cluster_eq : load_cluster m ptr =
    andFF (m (ptr + 27)) + 256 * andFF (m (ptr + 26)) + 65536 * andFF (m (ptr + 21)) +
      16777216 * andFF (m (ptr + 20)) :=
  loadFields_four m ptr 27 26 21 20

theorem cluster_load_store {v : Nat} (hv : v < 4294967296) :
    load_cluster (store_cluster m ptr v) ptr = v ↔ ClusterValue v := by
  obtain ⟨h₀, h₁, h₂, h₃⟩ := store_cluster_bytes m ptr v
  rw [ClusterValue, load_cluster_eq, andFF_eq, andFF_eq, andFF_eq, andFF_eq, h₀, h₁, h₂, h₃]
  split_ifs <;> omega

/-- The two bytes of each half are both 0 or both 1. -/
def ClusterBytes : Prop :=
  HalfBytes m (ptr + DIR_FstClusLo) ∧ HalfBytes m (ptr + DIR_FstClusHi)

theorem clusterBytes_iff : ClusterBytes m ptr ↔
    ((m (ptr + 26)).toNat = (m (ptr + 27)).toNat ∧ (m (ptr + 26)).toNat ≤ 1) ∧
      (m (ptr + 20)).toNat = (m (ptr + 21)).toNat ∧ (m (ptr + 20)).toNat ≤ 1 := by
  rw [ClusterBytes, HalfBytes, HalfBytes, ← UInt8.toNat_inj, ← UInt8.toNat_inj]

theorem littleEndian_cluster :
    littleEndian m ptr [DIR_FstClusLo, DIR_FstClusLo + 1, DIR_FstClusHi, DIR_FstClusHi + 1] =
      (m (ptr + 26)).toNat + 256 * ((m (ptr + 27)).toNat + 256 * ((m (ptr + 20)).toNat +
        256 * ((m (ptr + 21)).toNat + 256 * 0))) :=
  rfl

theorem cluster_load_format :
    load_cluster m ptr = littleEndian m ptr
        [DIR_FstClusLo, DIR_FstClusLo + 1, DIR_FstClusHi, DIR_FstClusHi + 1] ↔
      ClusterBytes m ptr := by
  have h₀ := (m (ptr + 26)).toNat_lt
  have h₁ := (m (ptr + 27)).toNat_lt
  have h₂ := (m (ptr + 20)).toNat_lt
  have h₃ := (m (ptr + 21)).toNat_lt
  rw [load_cluster_eq, littleEndian_cluster, clusterBytes_iff, andFF_eq, andFF_eq, andFF_eq, andFF_eq]
  split_ifs <;> omega

theorem cluster_store_load (h : ClusterBytes m ptr) :
    store_cluster m ptr (load_cluster m ptr) = m := by
  have h₀ := (m (ptr + 26)).toNat_lt
  have h₁ := (m (ptr + 27)).toNat_lt
  have h₂ := (m (ptr + 20)).toNat_lt
  have h₃ := (m (ptr + 21)).toNat_lt
  rw [clusterBytes_iff] at h
  refine (storeFields_eq_iff m ptr (a := 27) (b := 26) (c := 21) (d := 20) _ (by decide)).mpr ?_
  rw [load_cluster_eq, andFF_eq, andFF_eq, andFF_eq, andFF_eq]
  split_ifs <;> omega

theorem cluster_store_format {v : Nat} (hv : v < 4294967296) :
    littleEndian (store_cluster m ptr v) ptr
        [DIR_FstClusLo, DIR_FstClusLo + 1, DIR_FstClusHi, DIR_FstClusHi + 1] = v ↔
      v % 256 = v / 256 % 256 ∧ v / 65536 % 256 = v / 16777216 % 256 := by
  obtain ⟨h₀, h₁, h₂, h₃⟩ := store_cluster_bytes m ptr v
  rw [littleEndian_cluster, h₀, h₁, h₂, h₃]
  have hbytes := sum_bytes hv
  omega

theorem cluster_codec_iff (w : UInt32) :
    ClusterCodec m ptr w.toNat ↔
      (w.toNat = 0 ∨ w.toNat = 0x0101 ∨ w.toNat = 0x01010000 ∨ w.toNat = 0x01010101) ∧
        ClusterBytes m ptr := by
  have hw : w.toNat < 4294967296 := w.toNat_lt
  have hvalue : ClusterValue w.toNat ∧ w.toNat % 256 = w.toNat / 256 % 256 ∧
      w.toNat / 65536 % 256 = w.toNat / 16777216 % 256 ↔
      w.toNat = 0 ∨ w.toNat = 0x0101 ∨ w.toNat = 0x01010000 ∨ w.toNat = 0x01010101 := by
    have hbytes := sum_bytes hw
    have hlt : ∀ n, n % 256 < 256 := fun n => Nat.mod_lt n (by decide)
    have h₀ := hlt w.toNat
    have h₁ := hlt (w.toNat / 256)
    have h₂ := hlt (w.toNat / 65536)
    have h₃ := hlt (w.toNat / 16777216)
    unfold ClusterValue
    generalize w.toNat % 256 = b₀, w.toNat / 256 % 256 = b₁, w.toNat / 65536 % 256 = b₂,
      w.toNat / 16777216 % 256 = b₃ at hbytes h₀ h₁ h₂ h₃ ⊢
    omega
  rw [← hvalue]
  constructor
  · intro h
    exact ⟨⟨(cluster_load_store m ptr hw).mp h.load_store,
      (cluster_store_format m ptr hw).mp h.store_format⟩,
      (cluster_load_format m ptr).mp h.load_format⟩
  · rintro ⟨⟨hload, hformat⟩, hbytes⟩
    exact ⟨(cluster_load_store m ptr hw).mpr hload, cluster_store_load m ptr hbytes,
      fun a ha => storeFields_frame m ptr _ fun offset hoffset => ha offset (by revert offset; decide),
      (cluster_load_format m ptr).mpr hbytes, (cluster_store_format m ptr hw).mpr hformat⟩

end Agreement

/-! ## FAT entries -/

abbrev SECTOR_SIZE : Nat := 512

abbrev E_NOERR : Int := 0

abbrev E_FAILDEV : Int := 0x000E

abbrev E_BADC : Int := 0x0100

/-- A card is read into a buffer, and written from one. Both calls return a status. -/
structure SdCard (δ : Type) where
  sd_read : ByteMem → Nat → Nat → δ → Int × ByteMem × δ
  sd_write : ByteMem → Nat → Nat → δ → Int × δ

/-- What the FAT is accessed through, with the card behind it. -/
structure FS (δ : Type) where
  card : δ
  n_fats : Nat
  dflag : Nat
  n_entries : Nat
  fsize : Nat
  fbase : Nat
  current_sector : Nat
  current_access : ByteMem

section Entries

variable {δ : Type} (sd : SdCard δ)

def sync_access (fs : FS δ) : Int × FS δ :=
  if fs.dflag ≠ 0 then
    let (ret, card) := sd.sd_write fs.current_access fs.current_sector 1 fs.card
    let fs := { fs with card := card }
    if ret ≠ E_NOERR then (E_FAILDEV, fs)
    else
      let fs := { fs with dflag := 0 }
      if u32 ((fs.current_sector : Int) - fs.fbase) < fs.fsize ∧ fs.n_fats = 2 then
        let (_, card) :=
          sd.sd_write fs.current_access (u32 (fs.current_sector + fs.fsize)) 1 fs.card
        (ret, { fs with card := card })
      else (ret, fs)
  else (E_NOERR, fs)

def move_access (fs : FS δ) (sector : Nat) : Int × FS δ :=
  if sector ≠ fs.current_sector then
    let (ret, fs) := sync_access sd fs
    if ret = E_NOERR then
      let (ret, buffer, card) := sd.sd_read fs.current_access sector 1 fs.card
      let fs := { fs with current_access := buffer, card := card }
      if ret ≠ E_NOERR then (E_FAILDEV, { fs with current_sector := u32 (0 - 1) })
      else (ret, { fs with current_sector := sector })
    else (ret, fs)
  else (E_NOERR, fs)

def get_entry (fs : FS δ) (n : Nat) : Nat × FS δ :=
  if n < 2 ∨ n ≥ fs.n_entries then (0xFFFFFFFF, fs)
  else
    let (ret, fs) := move_access sd fs (u32 (fs.fbase + (n / (SECTOR_SIZE / 4) : Nat)))
    if ret ≠ E_NOERR then (0xFFFFFFFF, fs)
    else (load_full fs.current_access (u32 (n * 4) % SECTOR_SIZE), fs)

def set_entry (fs : FS δ) (n v : Nat) : Int × FS δ :=
  if n < 2 ∨ n ≥ fs.n_entries then (E_BADC, fs)
  else
    let (ret, fs) := move_access sd fs (u32 (fs.fbase + (n / (SECTOR_SIZE / 4) : Nat)))
    if ret ≠ E_NOERR then (ret, fs)
    else
      (ret, { fs with
        current_access := store_full fs.current_access (u32 (n * 4) % SECTOR_SIZE) v
        dflag := 1 })

variable {sd} {fs fs' : FS δ}

theorem sync_access_frame : (sync_access sd fs).2.n_entries = fs.n_entries ∧
    (sync_access sd fs).2.fbase = fs.fbase := by
  unfold sync_access
  split
  · simp only
    split
    · exact ⟨rfl, rfl⟩
    · split <;> exact ⟨rfl, rfl⟩
  · exact ⟨rfl, rfl⟩

/-- After a move the buffer is that of the sector; the table stays where it is. -/
theorem move_access_ok {sector : Nat} (h : move_access sd fs sector = (E_NOERR, fs')) :
    fs'.current_sector = sector ∧ fs'.n_entries = fs.n_entries ∧ fs'.fbase = fs.fbase := by
  obtain ⟨hentries, hbase⟩ := @sync_access_frame _ sd fs
  unfold move_access at h
  split at h
  · simp only at h
    split at h
    · split at h
      · cases h
      · rw [Prod.mk.injEq] at h
        rw [← h.2]
        exact ⟨rfl, hentries, hbase⟩
    · rename_i hfail
      rw [Prod.mk.injEq] at h
      exact absurd h.1 hfail
  · rename_i hsame
    rw [not_not] at hsame
    cases h
    exact ⟨hsame.symm, rfl, rfl⟩

theorem move_access_same {sector : Nat} (h : fs.current_sector = sector) :
    move_access sd fs sector = (E_NOERR, fs) :=
  if_neg (not_not_intro h.symm)

/-- An entry that has been set is read from the buffer that it was stored in. -/
theorem get_entry_set {n v : Nat} (h : set_entry sd fs n v = (E_NOERR, fs')) :
    ∃ buffer, get_entry sd fs' n =
      (load_full (store_full buffer (u32 (n * 4) % SECTOR_SIZE) v) (u32 (n * 4) % SECTOR_SIZE),
        fs') := by
  unfold set_entry at h
  split at h
  · cases h
  · rename_i hrange
    cases hmove : move_access sd fs (u32 (fs.fbase + (n / (SECTOR_SIZE / 4) : Nat))) with
    | mk ret fs₁ =>
        simp only [hmove] at h
        split at h
        · rename_i hfail
          rw [Prod.mk.injEq] at h
          exact absurd h.1 hfail
        · rename_i hok
          rw [not_not] at hok
          subst hok
          obtain ⟨hsector, hentries, hbase⟩ := move_access_ok hmove
          rw [Prod.mk.injEq] at h
          have hfs' := h.2
          refine ⟨fs₁.current_access, ?_⟩
          subst hfs'
          unfold get_entry
          rw [if_neg (by rw [hentries]; exact hrange), move_access_same (by rw [hsector, hbase])]
          simp only [ne_eq, not_true_eq_false, if_false]

end Entries

/-! ## The result -/

/-- **Field codecs.** At any place and for any value, each pair meets the format exactly where the
bytes are 0 or 1 and agree in pairs; a FAT entry is read back exactly if its value is of that kind. -/
theorem field_codecs_iff (m : ByteMem) (ptr : Nat) :
    (∀ v : UInt16, HalfCodec m ptr v.toNat ↔
      (v.toNat = 0 ∨ v.toNat = 0x0101) ∧ HalfBytes m ptr) ∧
    (∀ w : UInt32, FullCodec m ptr w.toNat ↔ FullValue w.toNat ∧ FullBytes m ptr) ∧
    (∀ w : UInt32, ClusterCodec m ptr w.toNat ↔
      (w.toNat = 0 ∨ w.toNat = 0x0101 ∨ w.toNat = 0x01010000 ∨ w.toNat = 0x01010101) ∧
        ClusterBytes m ptr) ∧
    ∀ (δ : Type) (sd : SdCard δ) (fs fs' : FS δ) (n : Nat) (w : UInt32),
      set_entry sd fs n w.toNat = (E_NOERR, fs') →
        ((get_entry sd fs' n).1 = w.toNat ↔ FullValue w.toNat) := by
  refine ⟨half_codec_iff m ptr, full_codec_iff m ptr, cluster_codec_iff m ptr, ?_⟩
  intro δ sd fs fs' n w hset
  obtain ⟨buffer, hget⟩ := get_entry_set hset
  rw [hget]
  exact full_load_store buffer _ w.toNat_lt

/-- The signature of a sector, and the mark at the end of a cluster chain. -/
theorem field_codecs_lose :
    load_half (store_half (fun _ => 0) 510 0xAA55) 510 = 0x0101 ∧
      ¬ HalfCodec (fun _ => 0) 510 0xAA55 ∧
      load_full (store_full (fun _ => 0) 8 0xFFFFFFFF) 8 = 0x01010101 ∧
      ¬ FullCodec (fun _ => 0) 8 0xFFFFFFFF := by
  have hhalf : load_half (store_half (fun _ => 0) 510 0xAA55) 510 = 0x0101 := by decide
  have hfull : load_full (store_full (fun _ => 0) 8 0xFFFFFFFF) 8 = 0x01010101 := by decide
  refine ⟨hhalf, fun h => ?_, hfull, fun h => ?_⟩
  · have hback := h.load_store
    rw [hhalf] at hback
    omega
  · have hback := h.load_store
    rw [hfull] at hback
    omega

end Fat32
end EmbeddedOS
