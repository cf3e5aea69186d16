import EmbeddedOS.Base.MachineInt

/-!
# The identity map and its framebuffer window

`identity_map` of `mmu.c`: 4096 blocks of two megabytes, each mapped to itself, the block in front
of the memory of the VideoCore for the mailbox, and in front of that a window on the framebuffer.
The pages of the window are counted from the size of the framebuffer alone, without its offset in
the first of them.
-/

namespace EmbeddedOS
namespace Memory

open Base

abbrev PT_SIZE : Nat := 2097152

abbrev MT_DEVICE_NGNRNE : Nat := 0
abbrev MT_NORMAL_NC : Nat := 3
abbrev MT_NORMAL : Nat := 4

abbrev STAGE2_SH_INNER_SHAREABLE : Nat := 3

/-! ## The tables -/

/-- The fields of a `VMSAv8_64_DESCRIPTOR` that are set; the others are zero. -/
structure Descriptor where
  Address : Nat
  AF : Nat
  SH : Nat := 0
  MemAttr : Nat
  EntryType : Nat
  deriving DecidableEq

/-- `PT_identity2` -/
abbrev BlockTable := Nat → Descriptor

/-- Block `base`, as the bit field of 36 bits takes it. -/
def blockAddress (base : Nat) : Nat := base * 2 ^ (21 - 12) % 2 ^ 36

def setEntry (t : BlockTable) (i : Nat) (d : Descriptor) : BlockTable :=
  fun j => if j = i then d else t j

/-- `n` passes of `for (; ...; base++) PT_identity2[base] = d(base);` -/
def fillFrom (d : Nat → Descriptor) : Nat → Nat → BlockTable → BlockTable
  | 0, _, t => t
  | n + 1, base, t => fillFrom d n (base + 1) (setEntry t base (d base))

/-- The fields of `fb` that are used here. -/
structure Framebuffer where
  buf : Nat
  buf_size : Nat
  deriving DecidableEq

/-- What `identity_map` leaves: the entries of `PT_identity1`, as indices into `PT_identity2`, the
blocks, the mailbox and the framebuffer. -/
structure Mapped where
  PT_identity1 : List Nat
  PT_identity2 : BlockTable
  mbox : Nat
  fb : Framebuffer

/-- The first loops, up to the mailbox block `last` and from there on. -/
def identityBlocks (last : Nat) : BlockTable :=
  let t : BlockTable := fun _ => ⟨0, 0, 0, 0, 0⟩
  let t := fillFrom (fun base => ⟨blockAddress base, 1, STAGE2_SH_INNER_SHAREABLE, MT_NORMAL_NC, 1⟩)
    last 0 t
  let t := setEntry t last ⟨blockAddress last, 1, 0, MT_DEVICE_NGNRNE, 1⟩
  let base := last
  let t := fillFrom (fun base => ⟨blockAddress base, 1, 0, MT_NORMAL_NC, 1⟩) (2048 - 16 - base) base t
  let base := max base (2048 - 16)
  let t := fillFrom (fun base => ⟨blockAddress base, 1, 0, MT_DEVICE_NGNRNE, 1⟩) (2048 - base) base t
  let base := max base 2048
  fillFrom (fun base => ⟨blockAddress base, 1, 0, MT_NORMAL, 1⟩) (4096 - base) base t

/-- `identity_map`, given what the firmware reports; an index past the table is undefined. -/
def identity_map (vc_base_address : Nat) (fb : Framebuffer) : Option Mapped :=
  let vc_val := vc_base_address / PT_SIZE
  let last := u32 (vc_val - 1)
  let n_fb_pages := u32 (fb.buf_size / PT_SIZE + 1 : Nat)
  let fb_start := u32 fb.buf / PT_SIZE
  let map_start := u32 ((last : Int) - n_fb_pages)
  let offset := u32 fb.buf % PT_SIZE
  if 4096 ≤ last ∨ 4096 < map_start + n_fb_pages then
    none
  else
    let t := identityBlocks last
    let t := fillFrom
      (fun j => ⟨blockAddress (fb_start + (j - map_start)), 1, 0, MT_DEVICE_NGNRNE, 1⟩)
      n_fb_pages map_start t
    some
      { PT_identity1 := [0, 512, 1024, 1536, 2048, 2560, 3072, 3584]
        PT_identity2 := t
        mbox := u32 (last * PT_SIZE : Nat)
        fb := { fb with buf := u32 (map_start * PT_SIZE + offset : Nat) } }

/-! ## Translation -/

/-- The table walk: one gigabyte for each entry of the first table, then a block. -/
def Mapped.translate (r : Mapped) (va : Nat) : Option Nat :=
  r.PT_identity1[va / 2 ^ 30]?.bind fun first =>
    let d := r.PT_identity2 (first + va / PT_SIZE % 512)
    if d.AF = 1 ∧ d.EntryType = 1 then some (d.Address * 2 ^ 12 + va % PT_SIZE) else none

/-- The blocks of the window, in front of the mailbox block. -/
def InWindow (vc_base_address : Nat) (fb : Framebuffer) (block : Nat) : Prop :=
  block < vc_base_address / PT_SIZE - 1 ∧
    vc_base_address / PT_SIZE - 1 ≤ block + (fb.buf_size / PT_SIZE + 1)

instance (vc_base_address : Nat) (fb : Framebuffer) (block : Nat) :
    Decidable (InWindow vc_base_address fb block) :=
  inferInstanceAs (Decidable (_ ∧ _))

theorem inWindow_iff {vc_base_address block : Nat} {fb : Framebuffer} :
    InWindow vc_base_address fb block ↔ block < vc_base_address / 2097152 - 1 ∧
      vc_base_address / 2097152 - 1 ≤ block + (fb.buf_size / 2097152 + 1) := Iff.rfl

/-- The new framebuffer address leads to the old one; the mailbox block and all blocks outside the
window are mapped to themselves. -/
def Remaps (vc_base_address : Nat) (fb : Framebuffer) (result : Option Mapped) : Prop :=
  ∃ r, result = some r ∧
    (∀ x, x < fb.buf_size → r.translate (r.fb.buf + x) = some (fb.buf + x)) ∧
    (∀ va, va / PT_SIZE = vc_base_address / PT_SIZE - 1 → r.translate va = some va) ∧
    ∀ va, va < 4096 * PT_SIZE → ¬ InWindow vc_base_address fb (va / PT_SIZE) →
      r.translate va = some va

/-! ## The entries -/

theorem fillFrom_apply (d : Nat → Descriptor) (n base : Nat) (t : BlockTable) (i : Nat) :
    fillFrom d n base t i = if base ≤ i ∧ i < base + n then d i else t i := by
  induction n generalizing base t with
  | zero => rw [fillFrom, if_neg (by omega)]
  | succ n ih =>
      rw [fillFrom, ih, setEntry]
      by_cases hfirst : i = base
      · rw [if_neg (by omega), if_pos hfirst, if_pos (by omega), hfirst]
      · rw [if_neg hfirst]
        by_cases hin : base + 1 ≤ i ∧ i < base + 1 + n
        · rw [if_pos hin, if_pos (by omega)]
        · rw [if_neg hin, if_neg (by omega)]

/-- A valid entry for a block. -/
structure Descriptor.To (d : Descriptor) (block : Nat) : Prop where
  Address : d.Address = block * 512
  AF : d.AF = 1
  EntryType : d.EntryType = 1

theorem blockAddress_eq {base : Nat} (h : base < 8192) : blockAddress base = base * 512 := by
  unfold blockAddress
  omega

/-- A block that a loop sets, or that was already valid before it. -/
theorem fillFrom_to {d : Nat → Descriptor} {n base : Nat} {t : BlockTable} {i block : Nat}
    (hset : base ≤ i → i < base + n → (d i).To block)
    (hkept : ¬ (base ≤ i ∧ i < base + n) → (t i).To block) :
    (fillFrom d n base t i).To block := by
  rw [fillFrom_apply]
  by_cases hin : base ≤ i ∧ i < base + n
  · rw [if_pos hin]
    exact hset hin.1 hin.2
  · rw [if_neg hin]
    exact hkept hin

/-- Every block is mapped to itself, whichever loop sets it. -/
theorem identityBlocks_to {last i : Nat} (hlast : last < 2048) (hi : i < 4096) :
    (identityBlocks last i).To i := by
  have haddr : blockAddress i = i * 512 := blockAddress_eq (by omega)
  -- From the last loop back to the first, with the mailbox entry between the first two.
  refine fillFrom_to (fun _ _ => ⟨haddr, rfl, rfl⟩) fun hupper => ?_
  refine fillFrom_to (fun _ _ => ⟨haddr, rfl, rfl⟩) fun hdevice => ?_
  refine fillFrom_to (fun _ _ => ⟨haddr, rfl, rfl⟩) fun hvideo => ?_
  unfold setEntry
  by_cases hmbox : i = last
  · rw [if_pos hmbox, ← hmbox]
    exact ⟨haddr, rfl, rfl⟩
  · rw [if_neg hmbox]
    refine fillFrom_to (fun _ _ => ⟨haddr, rfl, rfl⟩) fun hkernel => ?_
    omega

/-! ## The window -/

section Window

variable {vc_base_address : Nat} {fb : Framebuffer}

/-- The pages of the window and the block it starts at. -/
abbrev windowPages (fb : Framebuffer) : Nat := fb.buf_size / PT_SIZE + 1

abbrev windowStart (vc_base_address : Nat) (fb : Framebuffer) : Nat :=
  vc_base_address / PT_SIZE - 1 - windowPages fb

/-- With the window in front of the mailbox block, nothing wraps around. -/
theorem identity_map_eq (hvc : vc_base_address < 4294967296) (hbuf : fb.buf < 4294967296)
    (hfit : windowPages fb ≤ vc_base_address / 2097152 - 1) :
    ∃ r, identity_map vc_base_address fb = some r ∧
      r.PT_identity1 = [0, 512, 1024, 1536, 2048, 2560, 3072, 3584] ∧
      r.fb.buf = windowStart vc_base_address fb * 2097152 + fb.buf % 2097152 ∧
      ∀ i, i < 4096 → (r.PT_identity2 i).To
        (if InWindow vc_base_address fb i then fb.buf / 2097152 + (i - windowStart vc_base_address fb)
          else i) := by
  simp only [windowPages, windowStart, PT_SIZE] at *
  obtain ⟨v, hv⟩ : ∃ v, v = vc_base_address / 2097152 := ⟨_, rfl⟩
  obtain ⟨n, hn⟩ : ∃ n, n = fb.buf_size / 2097152 + 1 := ⟨_, rfl⟩
  rw [← hv, ← hn] at hfit
  -- None of the unsigned differences wraps around.
  have hlast : u32 ((v : Int) - 1) = v - 1 := u32_of_range (by omega) (by omega)
  have hpages : u32 (n : Int) = n := u32_natCast (by omega)
  have hstart : u32 (((v - 1 : Nat) : Int) - n) = v - 1 - n := u32_of_range (by omega) (by omega)
  have hfb : u32 (fb.buf : Int) = fb.buf := u32_natCast hbuf
  have hnew : u32 (((v - 1 - n) * 2097152 + fb.buf % 2097152 : Nat) : Int) =
      (v - 1 - n) * 2097152 + fb.buf % 2097152 := u32_natCast (by omega)
  simp only [identity_map, PT_SIZE, ← hv, ← hn, hlast, hpages, hstart, hfb, hnew]
  rw [if_neg (by omega)]
  refine ⟨_, rfl, rfl, rfl, ?_⟩
  intro i hi
  refine fillFrom_to (fun hlo hhi => ?_) fun hout => ?_
  · rw [if_pos (inWindow_iff.mpr (by omega))]
    exact ⟨blockAddress_eq (by omega), rfl, rfl⟩
  · rw [if_neg (mt inWindow_iff.mp (by omega))]
    exact identityBlocks_to (by omega) hi

/-- The walk goes to the entry of the block. -/
theorem translate_block {r : Mapped} {va block : Nat}
    (hfirst : r.PT_identity1 = [0, 512, 1024, 1536, 2048, 2560, 3072, 3584])
    (hva : va < 4096 * 2097152) (hto : (r.PT_identity2 (va / 2097152)).To block) :
    r.translate va = some (block * 2097152 + va % 2097152) := by
  have hentry : r.PT_identity1[va / 2 ^ 30]? = some (512 * (va / 2 ^ 30)) := by
    have hlt : va / 2 ^ 30 < 8 := by omega
    -- One entry for each of the eight gigabytes.
    rw [hfirst]
    generalize va / 2 ^ 30 = g at hlt
    match g, hlt with
    | 0, _ | 1, _ | 2, _ | 3, _ | 4, _ | 5, _ | 6, _ | 7, _ => rfl
  have hindex : 512 * (va / 2 ^ 30) + va / 2097152 % 512 = va / 2097152 := by omega
  rw [Mapped.translate, hentry, Option.bind_some]
  simp only [PT_SIZE, hindex]
  have hsize : block * 512 * 2 ^ 12 = block * 2097152 := by omega
  rw [if_pos ⟨hto.AF, hto.EntryType⟩, hto.Address, hsize]

/-- Where the bytes of the framebuffer are found. -/
theorem translate_framebuffer (hvc : vc_base_address < 4294967296) {r : Mapped}
    (hfit : windowPages fb ≤ vc_base_address / 2097152 - 1)
    (hfirst : r.PT_identity1 = [0, 512, 1024, 1536, 2048, 2560, 3072, 3584])
    (hnew : r.fb.buf = windowStart vc_base_address fb * 2097152 + fb.buf % 2097152)
    (hto : ∀ i, i < 4096 → (r.PT_identity2 i).To
      (if InWindow vc_base_address fb i then fb.buf / 2097152 + (i - windowStart vc_base_address fb)
        else i)) {x : Nat} (hx : x < fb.buf_size) :
    r.translate (r.fb.buf + x) =
      if fb.buf % 2097152 + x < windowPages fb * 2097152 then some (fb.buf + x)
      else some (windowStart vc_base_address fb * 2097152 + fb.buf % 2097152 + x) := by
  simp only [windowPages, windowStart, PT_SIZE] at *
  rw [translate_block hfirst (by omega) (hto _ (by omega))]
  by_cases hin : fb.buf % 2097152 + x < (fb.buf_size / 2097152 + 1) * 2097152
  · rw [if_pos hin, if_pos (inWindow_iff.mpr (by omega))]
    exact congrArg some (by omega)
  · rw [if_neg hin, if_neg (mt inWindow_iff.mp (by omega))]
    exact congrArg some (by omega)

/-- A window that ends before the framebuffer: its last byte is the mailbox's. -/
theorem not_remaps_of_short (hvc : vc_base_address < 4294967296) (hbuf : fb.buf < 4294967296)
    (hfit : windowPages fb ≤ vc_base_address / PT_SIZE - 1)
    (hshort : PT_SIZE < fb.buf % PT_SIZE + fb.buf_size % PT_SIZE)
    (hmoved : fb.buf / PT_SIZE ≠ windowStart vc_base_address fb) :
    ¬ Remaps vc_base_address fb (identity_map vc_base_address fb) := by
  rcases identity_map_eq hvc hbuf hfit with ⟨r, hrun, hfirst, hnew, hto⟩
  rintro ⟨r', hrun', hbytes, -, -⟩
  cases hrun.symm.trans hrun'
  simp only [windowPages, windowStart, PT_SIZE] at *
  -- The walk for the last byte ends in the mailbox block, at its own address.
  have hlast : fb.buf_size - 1 < fb.buf_size := by omega
  have hfound := translate_framebuffer hvc hfit hfirst hnew hto hlast
  simp only [windowPages, windowStart, PT_SIZE] at hfound
  rw [hbytes _ hlast, if_neg (by omega), Option.some.injEq] at hfound
  omega

/-- **The framebuffer is remapped** exactly if the window reaches its last byte, or is where the
framebuffer is. -/
theorem identity_map_remaps_iff (vc_base_address : Nat) (fb : Framebuffer)
    (hvc : vc_base_address < 4294967296) (hbuf : fb.buf < 4294967296)
    (hfit : windowPages fb ≤ vc_base_address / PT_SIZE - 1) :
    Remaps vc_base_address fb (identity_map vc_base_address fb) ↔
      fb.buf % PT_SIZE + fb.buf_size % PT_SIZE ≤ PT_SIZE ∨
        fb.buf / PT_SIZE = windowStart vc_base_address fb := by
  constructor
  · intro hremaps
    by_contra hshort
    rw [not_or, Nat.not_le] at hshort
    exact not_remaps_of_short hvc hbuf hfit hshort.1 hshort.2 hremaps
  · rcases identity_map_eq hvc hbuf hfit with ⟨r, hrun, hfirst, hnew, hto⟩
    simp only [Remaps, windowPages, windowStart, PT_SIZE] at *
    intro hreach
    refine ⟨r, hrun, ?_, ?_, ?_⟩
    · intro x hx
      have hfound := translate_framebuffer hvc hfit hfirst hnew hto hx
      simp only [windowPages, windowStart, PT_SIZE] at hfound
      rw [hfound]
      by_cases hin : fb.buf % 2097152 + x < (fb.buf_size / 2097152 + 1) * 2097152
      · rw [if_pos hin]
      · rw [if_neg hin]
        exact congrArg some (by omega)
    · intro va hva
      rw [translate_block hfirst (by omega) (hto _ (by omega)),
        if_neg (mt inWindow_iff.mp (by omega))]
      exact congrArg some (by omega)
    · intro va hva hout
      rw [translate_block hfirst hva (hto _ (by omega)), if_neg hout]
      exact congrArg some (by omega)

end Window

/-- A full screen of 32 bits at the start of a block. -/
theorem identity_map_remaps_aligned :
    Remaps 0x3C000000 ⟨0x3E200000, 8294400⟩ (identity_map 0x3C000000 ⟨0x3E200000, 8294400⟩) :=
  (identity_map_remaps_iff 0x3C000000 ⟨0x3E200000, 8294400⟩ (by decide) (by decide)
    (by decide)).mpr (.inl (by decide))

/-- The same screen half a block further. -/
theorem identity_map_short :
    ¬ Remaps 0x3C000000 ⟨0x3E300000, 8294400⟩ (identity_map 0x3C000000 ⟨0x3E300000, 8294400⟩) :=
  not_remaps_of_short (by decide) (by decide) (by decide) (by decide) (by decide)

end Memory
end EmbeddedOS
