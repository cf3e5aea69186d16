import Mathlib.Data.List.Basic
import EmbeddedOS.Base.Runs
import EmbeddedOS.Base.MachineInt
import EmbeddedOS.Fs.Tree

/-!
# Open files

The file layer of `fs/ext2/file.c` with `ext2_open`, `ext2_close`, `ext2_read` and `ext2_write`
behind it. A file is read through a copy of its bytes in a heap block and written on the disk. The
heap is what `new` and `del` make of it, a list of live blocks; what the disk holds is the
business of the inode layer and a parameter here.
-/

namespace EmbeddedOS
namespace Fs

open Base

/-! ## The heap -/

/-- What a block was taken for. -/
inductive Use where
  | fileBuffer
  | inodeRecord
deriving DecidableEq, Repr

/-- A live block; a byte is `none` as long as nobody has written it. -/
structure Block where
  addr : Nat
  use : Use
  bytes : List (Option UInt8)
deriving DecidableEq, Repr

/-- One use of the heap. -/
inductive HeapEvent where
  | taken (addr size : Nat)
  | culled (addr : Nat)
deriving DecidableEq, Repr

/-- Where `alloc` puts a block, after any history: never at `NULL` and never on a live one. -/
structure Allocator where
  place : List HeapEvent → List Block → Nat → Option Nat
  fresh : ∀ log live n a, place log live n = some a → a ≠ 0 ∧ ∀ b ∈ live, b.addr ≠ a

abbrev NULL : Nat := 0

/-- `E_NOMEM` -/
abbrev E_NOMEM : Int := 20

/-- `sizeof(inode_base_t)` -/
abbrev INODE_BASE_SIZE : Nat := 128

/-! ## Files and the state of the kernel -/

/-- `FILE`, without the fields that these functions do not touch. -/
structure FILE where
  inode : UInt32
  size : UInt32
  file_buffer : Nat
  cur_offset : UInt32
  refcount : Int
deriving DecidableEq, Repr

/-- The inode layer: byte `i` of an inode's data, and what writing does to the disk. -/
structure InodeLayer (Disk : Type) where
  filedata : Disk → UInt32 → Nat → UInt8
  write_inode_filedata : Disk → UInt32 → Nat → List UInt8 → Disk

/-- One file, the heap, the disk, and `ret`, the error code shared by the whole kernel. -/
structure State (Disk : Type) where
  file : FILE
  live : List Block
  log : List HeapEvent
  ret : Int
  disk : Disk

/-- The `n` bytes of an inode from position `i`. -/
def InodeLayer.bytes {Disk : Type} (X : InodeLayer Disk) (d : Disk) (inode : UInt32) (i n : Nat) :
    List UInt8 :=
  (List.range n).map fun k => X.filedata d inode (i + k)

section Heap

variable {Disk : Type} (A : Allocator)

/-- The live block at an address. -/
def blockAt (live : List Block) (p : Nat) : Option Block :=
  live.find? fun b => b.addr == p

/-- `new`: a block, or `NULL` and `ret = E_NOMEM`. -/
def new (s : State Disk) (u : Use) (n : Nat) : Nat × State Disk :=
  match A.place s.log s.live n with
  | some a =>
      (a, { s with
        live := ⟨a, u, List.replicate n none⟩ :: s.live
        log := s.log ++ [.taken a n] })
  | none => (NULL, { s with ret := E_NOMEM })

/-- `del`: undefined on a pointer that is not live. -/
def del (s : State Disk) (p : Nat) : Option (State Disk) :=
  if (blockAt s.live p).isSome then
    some { s with
      live := s.live.filter fun b => b.addr != p
      log := s.log ++ [.culled p] }
  else
    none

/-- Copy `n` bytes out of a block from position `i`: undefined outside the block. -/
def fetch (live : List Block) (p i n : Nat) : Option (List (Option UInt8)) :=
  match blockAt live p with
  | some b => if i + n ≤ b.bytes.length then some ((b.bytes.drop i).take n) else none
  | none => if n = 0 then some [] else none

/-- Write bytes into a block from its start: undefined outside the block. -/
def put (live : List Block) (p : Nat) (bytes : List UInt8) : Option (List Block) :=
  match blockAt live p with
  | some b =>
      if bytes.length ≤ b.bytes.length then
        some (live.map fun c =>
          if c.addr = p then { c with bytes := bytes.map some ++ c.bytes.drop bytes.length } else c)
      else
        none
  | none => if bytes = [] then some live else none

end Heap

/-! ## The functions of `ext2.c` -/

section Functions

variable {Disk : Type} (A : Allocator) (X : InodeLayer Disk)

/-- Reads into the block at `buf`. The inode record stays on the heap; without one nothing is
read, and the size is returned all the same. -/
def ext2_read (s : State Disk) (offset size : UInt32) (buf : Nat) :
    Option (UInt32 × State Disk) :=
  let (inode, s) := new A s .inodeRecord INODE_BASE_SIZE
  if inode = NULL then
    some (size, s)
  else do
    let live ← put s.live buf (X.bytes s.disk s.file.inode offset.toNat size.toNat)
    some (size, { s with live := live })

/-- Writes `size` bytes of `buf` to the disk; the bytes in `file_buffer` stay as they are. Beside
the return value stands how many bytes get as far as the inode layer. -/
def ext2_write (s : State Disk) (offset size : UInt32) (buf : Nat → UInt8) :
    (UInt32 × Nat) × State Disk :=
  let (inode, s) := new A s .inodeRecord INODE_BASE_SIZE
  if inode = NULL then
    ((size, 0), s)
  else
    ((size, size.toNat), { s with
      disk := X.write_inode_filedata s.disk s.file.inode offset.toNat
        ((List.range size.toNat).map buf) })

def ext2_open (s : State Disk) : Option (State Disk) :=
  if s.file.file_buffer = NULL then
    let (p, s) := new A s .fileBuffer s.file.size.toNat
    let s := { s with file := { s.file with file_buffer := p } }
    if p = NULL then
      some s
    else do
      let (_, s) ← ext2_read A X s 0 s.file.size p
      some s
  else
    some s

/-- `file_buffer` keeps the address it had. -/
def ext2_close (s : State Disk) : Option (State Disk) :=
  if s.file.file_buffer ≠ NULL then
    del s s.file.file_buffer
  else
    some s

/-! ## The functions of `file.c` -/

def fs_open (s : State Disk) : Option (State Disk) :=
  let refcount := if 0 ≤ s.file.refcount then i32 (s.file.refcount + 1) else s.file.refcount
  ext2_open A X { s with file := { s.file with refcount := refcount, cur_offset := 0 } }

/-- The return value, and what is copied to the caller's buffer. Both the value and the advance
of the cursor are the kernel's error code. -/
def f_read (s : State Disk) (size : UInt32) :
    Option ((UInt32 × List (Option UInt8)) × State Disk) :=
  let offset := s.file.cur_offset
  if size + offset > s.file.size then
    some ((-1, []), s)
  else do
    let s ← (if s.file.file_buffer = NULL then fs_open A X s else some s)
    let copied ← fetch s.live s.file.file_buffer offset.toNat size.toNat
    let ret := UInt32.ofNat (u32 s.ret)
    some ((ret, copied),
      { s with file := { s.file with cur_offset := s.file.cur_offset + ret } })

def f_write (s : State Disk) (size : UInt32) (buf : Nat → UInt8) :
    (UInt32 × Nat) × State Disk :=
  let offset := s.file.cur_offset
  let ((ret, written), s) := ext2_write A X s offset size buf
  ((ret, written), { s with file := { s.file with cur_offset := s.file.cur_offset + ret } })

/-- `type` is the type of the entry that `traverse_fs` finds. Nothing is opened unless it is a
file; the file found is the one modelled. -/
def f_open (s : State Disk) (type : UInt8) : Option (State Disk) :=
  if type ≠ FS_FILE then
    some s
  else
    fs_open A X s

def f_close (s : State Disk) : Option (State Disk) :=
  if s.file.refcount = -1 then
    some s
  else
    let s := { s with file := { s.file with refcount := i32 (s.file.refcount - 1) } }
    if s.file.refcount = 0 then
      ext2_close s
    else
      some s

end Functions

/-! ## Calls -/

/-- A call on the file. -/
inductive Call where
  | fs_open
  | f_open (type : UInt8)
  | f_read (size : UInt32)
  | f_write (size : UInt32) (buf : Nat → UInt8)
  | f_close

/-- What a call returns, what it copies to its caller, and how many bytes it writes. -/
structure Outcome where
  ret : UInt32
  copied : List (Option UInt8)
  written : Nat

/-- One call; `none` where it is undefined. -/
def step {Disk : Type} (A : Allocator) (X : InodeLayer Disk) (s : State Disk) :
    Call → Option (Outcome × State Disk)
  | .fs_open => (fs_open A X s).map fun t => (⟨0, [], 0⟩, t)
  | .f_open type => (f_open A X s type).map fun t => (⟨0, [], 0⟩, t)
  | .f_read size => (f_read A X s size).map fun r => (⟨r.1.1, r.1.2, 0⟩, r.2)
  | .f_write size buf =>
      some (⟨(f_write A X s size buf).1.1, [], (f_write A X s size buf).1.2⟩,
        (f_write A X s size buf).2)
  | .f_close => (f_close s).map fun t => (⟨0, [], 0⟩, t)

/-! ## The heap under these functions -/

section Blocks

variable {live : List Block} {b : Block} {p q : Nat}

theorem blockAt_cons_same (h : b.addr = p) : blockAt (b :: live) p = some b := by
  simp [blockAt, h]

theorem blockAt_cons_of_ne (h : b.addr ≠ p) : blockAt (b :: live) p = blockAt live p := by
  simp [blockAt, h]

theorem blockAt_addr (h : blockAt live p = some b) : b.addr = p := by
  have := List.find?_some h
  simpa using this

theorem blockAt_mem (h : blockAt live p = some b) : b ∈ live :=
  List.mem_of_find?_eq_some h

/-- A culled address is not the address of a live block. -/
theorem blockAt_culled (live : List Block) (p : Nat) :
    blockAt (live.filter fun b => b.addr != p) p = none := by
  rw [blockAt, List.find?_eq_none]
  intro b hb
  have hne := (List.mem_filter.mp hb).2
  simpa using hne

theorem fetch_of_block (h : blockAt live p = some b) {i n : Nat} (hin : i + n ≤ b.bytes.length) :
    fetch live p i n = some ((b.bytes.drop i).take n) := by
  rw [fetch, h]
  exact if_pos hin

theorem fetch_outside (h : blockAt live p = some b) {i n : Nat} (hout : b.bytes.length < i + n) :
    fetch live p i n = none := by
  rw [fetch, h]
  exact if_neg (Nat.not_le.mpr hout)

theorem fetch_dead (h : blockAt live p = none) {i n : Nat} :
    fetch live p i n = if n = 0 then some [] else none := by
  rw [fetch, h]

/-- Filling the block taken last. -/
theorem put_cons_same {u : Use} {bytes : List UInt8} (hfresh : ∀ b ∈ live, b.addr ≠ p) :
    put (⟨p, u, List.replicate bytes.length none⟩ :: live) p bytes =
      some (⟨p, u, bytes.map some⟩ :: live) := by
  have hsame : live.map (fun c => if c.addr = p then
      { c with bytes := bytes.map some ++ c.bytes.drop bytes.length } else c) = live := by
    conv_rhs => rw [← List.map_id live]
    apply List.map_congr_left
    intro c hc
    exact if_neg (hfresh c hc)
  rw [put, blockAt_cons_same rfl]
  simp [hsame]

theorem put_cons_of_ne {bytes : List UInt8} (h : b.addr ≠ p) :
    put (b :: live) p bytes = (put live p bytes).map (b :: ·) := by
  rw [put, put, blockAt_cons_of_ne h]
  cases blockAt live p with
  | none => by_cases hnil : bytes = [] <;> simp [hnil]
  | some c => by_cases hle : bytes.length ≤ c.bytes.length <;> simp [hle, h]

end Blocks

@[simp] theorem InodeLayer.length_bytes {Disk : Type} (X : InodeLayer Disk) (d : Disk)
    (inode : UInt32) (i n : Nat) : (X.bytes d inode i n).length = n := by
  simp [InodeLayer.bytes]

/-- A part of an inode's bytes. -/
theorem InodeLayer.bytes_part {Disk : Type} (X : InodeLayer Disk) (d : Disk) (inode : UInt32)
    {i n total : Nat} (h : i + n ≤ total) :
    ((X.bytes d inode 0 total).drop i).take n = X.bytes d inode i n := by
  apply List.ext_getElem
  · simp
    omega
  · intro k hk hk'
    simp [InodeLayer.bytes]

/-! ## What an open does -/

section Open

variable {Disk : Type} {A : Allocator} {X : InodeLayer Disk} {s t : State Disk}

/-- The heap has room for the file's bytes and for the inode record that reading them takes. -/
def OpenFits (A : Allocator) (s : State Disk) : Prop :=
  ∃ p, A.place s.log s.live s.file.size.toNat = some p ∧
    (A.place (s.log ++ [.taken p s.file.size.toNat])
      (⟨p, .fileBuffer, List.replicate s.file.size.toNat none⟩ :: s.live)
      INODE_BASE_SIZE).isSome

/-- The ways `ext2_open` ends: the buffer is there; there is no room for it; there is none for
the inode record and it stays unwritten; or it is taken and holds the file's bytes. -/
inductive Opened (A : Allocator) (X : InodeLayer Disk) (s t : State Disk) : Prop
  | kept (hbuf : s.file.file_buffer ≠ NULL) (heq : t = s)
  | noBuffer (hbuf : s.file.file_buffer = NULL)
      (hplace : A.place s.log s.live s.file.size.toNat = none) (heq : t = { s with ret := E_NOMEM })
  | noInode (p : Nat) (hbuf : s.file.file_buffer = NULL)
      (hplace : A.place s.log s.live s.file.size.toNat = some p) (hfits : ¬ OpenFits A s)
      (heq : t = { s with
        file := { s.file with file_buffer := p }
        live := ⟨p, .fileBuffer, List.replicate s.file.size.toNat none⟩ :: s.live
        log := s.log ++ [.taken p s.file.size.toNat]
        ret := E_NOMEM })
  | filled (p q : Nat) (hbuf : s.file.file_buffer = NULL)
      (hplace : A.place s.log s.live s.file.size.toNat = some p) (hfits : OpenFits A s)
      (hq : q ≠ NULL) (hfresh : ∀ b ∈ ⟨p, .fileBuffer,
        (X.bytes s.disk s.file.inode 0 s.file.size.toNat).map some⟩ :: s.live, b.addr ≠ q)
      (heq : t = { s with
        file := { s.file with file_buffer := p }
        live := ⟨q, .inodeRecord, List.replicate INODE_BASE_SIZE none⟩ ::
          ⟨p, .fileBuffer, (X.bytes s.disk s.file.inode 0 s.file.size.toNat).map some⟩ :: s.live
        log := s.log ++ [.taken p s.file.size.toNat] ++ [.taken q INODE_BASE_SIZE] })

theorem ext2_open_spec (A : Allocator) (X : InodeLayer Disk) (s : State Disk) :
    ∃ t, ext2_open A X s = some t ∧ Opened A X s t := by
  by_cases hbuf : s.file.file_buffer = NULL
  swap
  · exact ⟨s, if_neg hbuf, .kept hbuf rfl⟩
  rw [ext2_open, if_pos hbuf]
  cases hplace : A.place s.log s.live s.file.size.toNat with
  | none =>
      refine ⟨{ s with ret := E_NOMEM }, ?_, .noBuffer hbuf hplace rfl⟩
      simp [new, hplace, ← hbuf]
  | some p =>
      obtain ⟨hp, hfresh⟩ := A.fresh _ _ _ _ hplace
      cases hinode : A.place (s.log ++ [.taken p s.file.size.toNat])
          (⟨p, .fileBuffer, List.replicate s.file.size.toNat none⟩ :: s.live)
          INODE_BASE_SIZE with
      | none =>
          refine ⟨_, by simp [new, hplace, hp, ext2_read, hinode], .noInode p hbuf hplace ?_ rfl⟩
          rintro ⟨p', hp', hsome⟩
          cases hplace.symm.trans hp'
          rw [hinode] at hsome
          cases hsome
      | some q =>
          obtain ⟨hq, hqfresh⟩ := A.fresh _ _ _ _ hinode
          have hpq : p ≠ q := hqfresh _ List.mem_cons_self
          have hput : put (⟨p, .fileBuffer, List.replicate
                (X.bytes s.disk s.file.inode 0 s.file.size.toNat).length none⟩ :: s.live) p
              (X.bytes s.disk s.file.inode 0 s.file.size.toNat) = some (⟨p, .fileBuffer,
                (X.bytes s.disk s.file.inode 0 s.file.size.toNat).map some⟩ :: s.live) :=
            put_cons_same hfresh
          rw [X.length_bytes] at hput
          have hfreshq : ∀ b ∈ (⟨p, .fileBuffer,
              (X.bytes s.disk s.file.inode 0 s.file.size.toNat).map some⟩ : Block) :: s.live,
              b.addr ≠ q := by
            intro b hb
            rcases List.mem_cons.mp hb with rfl | hb
            · exact hpq
            · exact hqfresh b (List.mem_cons_of_mem _ hb)
          refine ⟨_, ?_, .filled p q hbuf hplace ⟨p, hplace, by rw [hinode]; rfl⟩ hq hfreshq rfl⟩
          simp only [new, hplace, hp, ext2_read, hinode, hq, if_false, UInt32.toNat_zero]
          rw [put_cons_of_ne (Ne.symm hpq), hput]
          rfl

/-- `fs_open` before it opens the inode: one more user, the cursor at the start. -/
def counted (s : State Disk) : State Disk :=
  let refcount := if 0 ≤ s.file.refcount then i32 (s.file.refcount + 1) else s.file.refcount
  { s with file := { s.file with refcount := refcount, cur_offset := 0 } }

theorem fs_open_spec (A : Allocator) (X : InodeLayer Disk) (s : State Disk) :
    ∃ t, fs_open A X s = some t ∧ Opened A X (counted s) t :=
  ext2_open_spec A X (counted s)

end Open

/-! ## What a read does -/

section Read

variable {Disk : Type} {A : Allocator} {X : InodeLayer Disk} {s t : State Disk} {size : UInt32}

/-- Moving the cursor by the kernel's error code. -/
def advanced (s : State Disk) : State Disk :=
  { s with file := { s.file with
    cur_offset := s.file.cur_offset + UInt32.ofNat (u32 s.ret) } }

theorem f_read_refused (h : s.file.size < size + s.file.cur_offset) :
    f_read A X s size = some ((-1, []), s) :=
  if_pos h

/-- A read that is let through opens the file if it has no buffer. -/
theorem f_read_eq (h : ¬ s.file.size < size + s.file.cur_offset)
    (hopen : if s.file.file_buffer = NULL then fs_open A X s = some t else t = s) :
    f_read A X s size =
      (fetch t.live t.file.file_buffer s.file.cur_offset.toNat size.toNat).map
        fun copied => ((UInt32.ofNat (u32 t.ret), copied), advanced t) := by
  have ht : (if s.file.file_buffer = NULL then fs_open A X s else some s) = some t := by
    split at hopen
    · next hnull => rw [if_pos hnull, hopen]
    · next hbuf => rw [if_neg hbuf, hopen]
  rw [f_read, if_neg h, ht, Option.bind_eq_bind, Option.bind_some]
  cases fetch t.live t.file.file_buffer s.file.cur_offset.toNat size.toNat <;> rfl

end Read

/-! ## A heap and a disk -/

/-- Blocks one above the other, each behind a header. -/
def stacked : Allocator where
  place _ live _ := some ((live.map fun b => b.addr + b.bytes.length).foldr max 0 + 24)
  fresh := by
    intro _ live _ a ha
    have hbelow : ∀ b ∈ live,
        b.addr ≤ (live.map fun b => b.addr + b.bytes.length).foldr max 0 := by
      intro b hb
      clear ha
      induction live with
      | nil => cases hb
      | cons c live ih =>
          rcases List.mem_cons.mp hb with rfl | hb
          · exact Nat.le_trans (Nat.le_add_right _ _) (Nat.le_max_left _ _)
          · exact Nat.le_trans (ih hb) (Nat.le_max_right _ _)
    cases ha
    refine ⟨Nat.succ_ne_zero _, ?_⟩
    intro b hb heq
    have := hbelow b hb
    omega

/-- A disk with the data of one inode. -/
def flatDisk : InodeLayer (Nat → UInt8) where
  filedata d _ i := d i
  write_inode_filedata d _ offset bytes := fun i =>
    if offset ≤ i then bytes.getD (i - offset) (d i) else d i

/-- A closed file of the given size, on an empty heap. -/
def closedFile (size : UInt32) : State (Nat → UInt8) where
  file := { inode := 12, size := size, file_buffer := NULL, cur_offset := 0, refcount := 0 }
  live := []
  log := []
  ret := 0
  disk := fun i => UInt8.ofNat i

end Fs
end EmbeddedOS
