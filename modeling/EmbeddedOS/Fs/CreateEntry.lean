import EmbeddedOS.Fs.DirEntry

/-!
# Adding a directory entry

`ext2_create_entry` of `fs/ext2/ext2.c` on the blocks of a directory. In `dirent_t` the name is a
pointer, so that the functions that copy a name take the first eight characters on the disk for an
address; and the record that is appended claims a whole block.
-/

namespace EmbeddedOS
namespace Fs

open Base Base.ByteMem

/-- The blocks of the disk. -/
abbrev Disk := Nat → ByteMem

/-- `sizeof(dirent_t)` -/
abbrev DIRENT_SIZE : Nat := 16

/-- What the function uses of the directory's inode: its size, and the disk block of each of its
blocks, as `read_inode_metadata` and `get_disk_block_number` give them. -/
structure DirInode where
  size_lower : Nat
  block : Nat → Nat

/-- `fs->block_size` -/
def blockSize (block_shift : Nat) : Nat := 1024 * 2 ^ block_shift

/-! ## Blocks -/

/-- `read_inode_block`: eight sectors into a buffer of the size of a block. -/
def read_inode_block (block_shift : Nat) (disk : Disk) (d : DirInode) (iblock : Nat) :
    Option ByteMem :=
  if 8 * 512 ≤ blockSize block_shift then some (disk (d.block iblock)) else none

def write_inode_block (disk : Disk) (d : DirInode) (iblock : Nat) (buf : ByteMem) : Disk :=
  fun n => if n = d.block iblock then buf else disk n

/-! ## `ext2_create_entry` -/

section Create

variable (block_shift : Nat) (d : DirInode) (name : List UInt8) (inode : Nat) (stale : UInt8)

/-- `cur_dir->name_len == entry_name_len`, and then whether the record is live and its name, as
copied to `check`, the one to add. The copy is made from an address that the disk names; only a
copy of nothing leaves `check` as it came. -/
def sameName (buf : ByteMem) (o : Nat) : Option Bool :=
  if nameLen buf o = name.length then
    if name = [] then some (inodeNumber buf o ≠ 0 ∧ stale = 0) else none
  else
    some false

/-- The next block once the offset in this one has reached its end. -/
def advance (disk : Disk) (block_offset o : Nat) (buf : ByteMem) : Option (Nat × Nat × ByteMem) :=
  if blockSize block_shift ≤ o then
    (read_inode_block block_shift disk d (block_offset + 1)).map fun buf =>
      (block_offset + 1, 0, buf)
  else
    some (block_offset, o, buf)

/-- The head of the new record. -/
def newHead (buf : ByteMem) (o : Nat) : ByteMem :=
  store (store (store (store buf o 4 inode) (o + 4) 2 (blockSize block_shift)) (o + 6) 1
    name.length) (o + 7) 1 0

/-- From `if (found)` on: the record is written at `o`, then the one that ends the directory. -/
def append (disk : Disk) (block_offset o : Nat) (buf : ByteMem) : Option Disk :=
  if blockSize block_shift < o + DIRENT_SIZE then
    none
  else
    let buf := newHead block_shift name inode buf o
    -- `memcpy` to `NULL` does nothing; any other address comes from the disk.
    if load buf (o + 8) 8 ≠ 0 ∧ name ≠ [] then
      none
    else do
      let disk := write_inode_block disk d block_offset buf
      let (block_offset, o, buf) ← advance block_shift d disk block_offset (o + recSize buf o) buf
      if blockSize block_shift < o + DIRENT_SIZE then
        none
      else
        some (write_inode_block disk d block_offset (fill buf o DIRENT_SIZE 0))

/-- `((sizeof(dirent_t) + cur_dir->name_len) & 0xfffffffc) + 0x4` -/
def expectedSize (name_len : Nat) : Nat := (DIRENT_SIZE + name_len) / 4 * 4 + 4

/-- The `while` loop. -/
def createLoop (disk : Disk) (cur_offset block_offset o : Nat) (found : Bool) (buf : ByteMem) :
    Option Disk :=
  if cur_offset < d.size_lower then do
    let (block_offset, o, buf) ← advance block_shift d disk block_offset o buf
    if blockSize block_shift < o + 8 then
      none
    else do
      let same ← sameName name stale buf o
      if same then
        some disk
      else if found then
        append block_shift d name inode disk block_offset o buf
      else
        let expected_size := expectedSize (nameLen buf o)
        let buf' := if recSize buf o ≠ expected_size then store buf (o + 4) 2 expected_size else buf
        createLoop disk (cur_offset + expected_size) block_offset (o + expected_size)
          (recSize buf o ≠ expected_size) buf'
  else
    some disk
termination_by d.size_lower - cur_offset
decreasing_by
  unfold expectedSize
  omega

def ext2_create_entry (disk : Disk) : Option Disk := do
  let buf ← read_inode_block block_shift disk d 0
  createLoop block_shift d name inode stale disk 0 0 0 false buf

end Create

/-! ## What it should do -/

/-- A live record of the directory: its name and inode number. -/
def Live (hi : Nat) (dir : List Nat) (disk : Disk) (x : List UInt8 × Nat) : Prop :=
  ∃ n ∈ dir, ∃ rs, Tiled (disk n) hi 0 rs ∧
    ∃ r ∈ rs, r.inode_number ≠ 0 ∧ (r.name, r.inode_number) = x

/-- The entry is in the directory, beside the old ones and in records that tile the blocks, and one
block of the directory has changed. -/
structure EntryAdded (hi : Nat) (dir : List Nat) (disk disk' : Disk) (name : List UInt8)
    (inode : Nat) : Prop where
  tiled : ∀ n ∈ dir, ∃ rs, Tiled (disk' n) hi 0 rs
  live : ∀ x, Live hi dir disk' x ↔ Live hi dir disk x ∨ x = (name, inode)
  frame : ∃ n ∈ dir, ∀ m, m ≠ n → AgreeOn (disk' m) (disk m) 0 hi

/-! ## What it does -/

section Spec

variable {block_shift : Nat} {d : DirInode} {name : List UInt8} {inode : Nat} {stale : UInt8}
  {disk disk' : Disk} {buf : ByteMem} {cur_offset block_offset o : Nat} {found : Bool}

theorem blockSize_cases (h : block_shift ≤ 2) :
    blockSize block_shift = 1024 ∨ blockSize block_shift = 2048 ∨ blockSize block_shift = 4096 := by
  have hcases : block_shift = 0 ∨ block_shift = 1 ∨ block_shift = 2 := by omega
  rcases hcases with rfl | rfl | rfl
  · exact .inl rfl
  · exact .inr (.inl rfl)
  · exact .inr (.inr rfl)

theorem advance_chain {block_offset' o' : Nat} {buf' : ByteMem} (hchain : Chain buf o)
    (h : advance block_shift d disk block_offset o buf = some (block_offset', o', buf')) :
    Chain buf' o' := by
  unfold advance at h
  split at h
  · rw [Option.map_eq_some_iff] at h
    rcases h with ⟨buf'', _, heq⟩
    cases heq
    exact .zero
  · cases h
    exact hchain

/-- A record that is skipped, or cut to the size expected of it. -/
theorem chain_expected (hchain : Chain buf o) :
    Chain (if recSize buf o ≠ expectedSize (nameLen buf o)
      then store buf (o + 4) 2 (expectedSize (nameLen buf o)) else buf)
      (o + expectedSize (nameLen buf o)) := by
  have hlen : nameLen buf o < 256 := (buf (o + 6)).toNat_lt
  have hmin : 8 ≤ expectedSize (nameLen buf o) := by
    unfold expectedSize DIRENT_SIZE
    omega
  have hmax : expectedSize (nameLen buf o) < 65536 := by
    unfold expectedSize DIRENT_SIZE
    omega
  by_cases hsize : recSize buf o = expectedSize (nameLen buf o)
  · rw [if_neg (not_not_intro hsize), ← hsize]
    exact .next hchain (hsize ▸ hmin)
  · rw [if_pos hsize]
    generalize expectedSize (nameLen buf o) = n at hmin hmax
    have hnew : recSize (store buf (o + 4) 2 n) o = n := by
      rw [recSize, load_store_same]
      exact Nat.mod_eq_of_lt hmax
    have hbefore : Chain (store buf (o + 4) 2 n) o := by
      refine hchain.congr ?_
      intro x _ hx
      exact (store_outside (.inl (by omega))).symm
    have hstep := Chain.next hbefore (by rw [hnew]; exact hmin)
    rwa [hnew] at hstep

/-- The loop leaves the disk as it is, or appends at the end of a chain. -/
theorem createLoop_cases (hchain : Chain buf o)
    (h : createLoop block_shift d name inode stale disk cur_offset block_offset o found buf =
      some disk') :
    disk' = disk ∨ ∃ block_offset' o' buf', Chain buf' o' ∧
      append block_shift d name inode disk block_offset' o' buf' = some disk' := by
  induction hn : d.size_lower - cur_offset using Nat.strong_induction_on
    generalizing cur_offset block_offset o found buf with
  | _ n ih =>
      rw [createLoop] at h
      split at h
      swap
      · exact .inl (Option.some.inj h).symm
      next hcur =>
      rw [Option.bind_eq_bind, Option.bind_eq_some_iff] at h
      rcases h with ⟨⟨block_offset', o', buf'⟩, hadv, h⟩
      have hchain' := advance_chain hchain hadv
      dsimp only at h
      split at h
      · cases h
      rw [Option.bind_eq_bind, Option.bind_eq_some_iff] at h
      rcases h with ⟨same, _, h⟩
      split at h
      · exact .inl (Option.some.inj h).symm
      split at h
      · exact .inr ⟨block_offset', o', buf', hchain', h⟩
      · refine ih _ ?_ (chain_expected hchain') h rfl
        unfold expectedSize
        omega

/-! ### The new record -/

theorem newHead_size (hshift : block_shift ≤ 2) (buf : ByteMem) (o : Nat) :
    recSize (newHead block_shift name inode buf o) o = blockSize block_shift := by
  have hmod : blockSize block_shift % 256 ^ 2 = blockSize block_shift := by
    rcases blockSize_cases hshift with h | h | h <;> rw [h] <;> rfl
  rw [recSize, newHead, load_store_disjoint (.inl (by omega)), load_store_disjoint (.inl (by omega)),
    load_store_same, hmod]

/-- Only the head is written. -/
theorem newHead_outside {x : Nat} (h : x < o ∨ o + 8 ≤ x) :
    newHead block_shift name inode buf o x = buf x := by
  rw [newHead, store_outside (by omega), store_outside (by omega), store_outside (by omega),
    store_outside (by omega)]

/-- A block whose records are tiled and lead to the new one is filled by it. -/
theorem newHead_tiled (hshift : block_shift ≤ 2) (hchain : Chain buf o)
    (ho : o < blockSize block_shift) {rs : List Record}
    (htiled : Tiled (newHead block_shift name inode buf o) (blockSize block_shift) 0 rs) :
    o = 0 ∧ rs = [recordAt (newHead block_shift name inode buf o) 0] := by
  have hchain' : Chain (newHead block_shift name inode buf o) o := by
    refine hchain.congr ?_
    intro x _ hx
    exact (newHead_outside (.inl hx)).symm
  have hsize : recSize (newHead block_shift name inode buf o) o = blockSize block_shift :=
    newHead_size hshift buf o
  rcases htiled.through hchain' ho with ⟨rest, hrest⟩
  have hfits := (hrest.head ho).2.1
  have hzero : o = 0 := by omega
  subst hzero
  refine ⟨rfl, ?_⟩
  rcases (htiled.head ho).2.2 with ⟨rest', hrs, htail⟩
  rw [hsize, Nat.zero_add] at htail
  cases htail with
  | nil => exact hrs
  | cons _ hname hfits' _ => omega

theorem append_blocks (hshift : block_shift ≤ 2) (hname : name ≠ [])
    (h : append block_shift d name inode disk block_offset o buf = some disk') :
    o < blockSize block_shift ∧ load (newHead block_shift name inode buf o) (o + 8) 8 = 0 ∧
      ∃ last, ∀ n, disk' n =
        if n = last then fill (disk' n) 0 DIRENT_SIZE 0
        else if n = d.block block_offset then newHead block_shift name inode buf o
        else disk n := by
  unfold append at h
  split at h
  · cases h
  next hfits =>
  dsimp only at h
  split at h
  · cases h
  next hptr =>
  rw [Option.bind_eq_bind, Option.bind_eq_some_iff] at h
  rcases h with ⟨⟨block_offset', o', buf'⟩, hadv, h⟩
  have hout : blockSize block_shift ≤ o + recSize (newHead block_shift name inode buf o) o := by
    rw [newHead_size hshift]
    exact Nat.le_add_left _ _
  rw [advance, if_pos hout, Option.map_eq_some_iff] at hadv
  rcases hadv with ⟨buf'', _, heq⟩
  cases heq
  dsimp only at h
  split at h
  · cases h
  cases h
  refine ⟨by unfold DIRENT_SIZE at hfits; omega, ?_, d.block (block_offset + 1), ?_⟩
  · by_contra hne
    exact hptr ⟨hne, hname⟩
  · intro n
    unfold write_inode_block
    by_cases hlast : n = d.block (block_offset + 1)
    · rw [if_pos hlast, if_pos hlast]
      funext x
      unfold fill
      split <;> rfl
    · rw [if_neg hlast, if_neg hlast]

/-- No block of the new disk that is tiled has a live record of a new name. -/
theorem append_lost (hshift : block_shift ≤ 2) (hname : name ≠ []) (hzero : 0 ∉ name)
    (hchain : Chain buf o)
    (h : append block_shift d name inode disk block_offset o buf = some disk') {n : Nat}
    {rs : List Record} (htiled : Tiled (disk' n) (blockSize block_shift) 0 rs) {r : Record}
    (hr : r ∈ rs) (hrname : r.name = name) : disk' n = disk n := by
  rcases append_blocks hshift hname h with ⟨ho, hptr, last, hblocks⟩
  have hn := hblocks n
  by_cases hlast : n = last
  · -- The block that should end the directory starts with a record of no length.
    rw [if_pos hlast] at hn
    have hsize : recSize (disk' n) 0 = 0 := by
      rw [hn]
      rfl
    rcases htiled.head (by omega) with ⟨hhead, _, _⟩
    omega
  rw [if_neg hlast] at hn
  by_cases hblock : n = d.block block_offset
  · -- The appended record fills its block, under a name that starts with a zero.
    rw [if_pos hblock] at hn
    rw [hn] at htiled
    rcases newHead_tiled hshift hchain ho htiled with ⟨rfl, hrs⟩
    rw [hrs, List.mem_singleton] at hr
    have hbyte : newHead block_shift name inode buf 0 8 = 0 := by
      rw [Nat.zero_add, load] at hptr
      exact UInt8.toNat_inj.mp (Nat.eq_zero_of_add_eq_zero_right hptr)
    have hbytes : bytesAt (newHead block_shift name inode buf 0) 8
        (nameLen (newHead block_shift name inode buf 0) 0) = name := by
      calc bytesAt (newHead block_shift name inode buf 0) 8
            (nameLen (newHead block_shift name inode buf 0) 0)
          = (recordAt (newHead block_shift name inode buf 0) 0).name := rfl
        _ = r.name := by rw [hr]
        _ = name := hrname
    have hpos : 0 < nameLen (newHead block_shift name inode buf 0) 0 := by
      have hlen := congrArg List.length hbytes
      rw [length_bytesAt] at hlen
      rw [hlen]
      exact List.length_pos_iff.mpr hname
    refine absurd ?_ hzero
    rw [← hbytes, bytesAt, List.mem_map]
    exact ⟨0, List.mem_range.mpr hpos, hbyte⟩
  · rw [if_neg hblock] at hn
    exact hn

/-- A live record of the name that is added was there before. -/
theorem live_of_create (hshift : block_shift ≤ 2) (hname : name ≠ []) (hzero : 0 ∉ name)
    (h : ext2_create_entry block_shift d name inode stale disk = some disk') {dir : List Nat} {i : Nat}
    (hlive : Live (blockSize block_shift) dir disk' (name, i)) :
    Live (blockSize block_shift) dir disk (name, i) := by
  rw [ext2_create_entry, Option.bind_eq_bind, Option.bind_eq_some_iff] at h
  rcases h with ⟨buf, _, hloop⟩
  rcases hlive with ⟨n, hn, rs, htiled, r, hr, hused, hpair⟩
  have hsame : disk' n = disk n := by
    rcases createLoop_cases .zero hloop with rfl | ⟨block_offset', o', buf', hchain, happend⟩
    · rfl
    · exact append_lost hshift hname hzero hchain happend htiled hr (congrArg Prod.fst hpair)
  exact ⟨n, hn, rs, hsame ▸ htiled, r, hr, hused, hpair⟩

/-- For every directory, whatever its size and its blocks, every name that is not in it and every
inode number, the call does not add the entry. -/
theorem create_entry_never (hshift : block_shift ≤ 2) (hname : name ≠ []) (hzero : 0 ∉ name)
    {dir : List Nat} (habsent : ∀ i, ¬ Live (blockSize block_shift) dir disk (name, i)) :
    ¬ ∃ disk', ext2_create_entry block_shift d name inode stale disk = some disk' ∧
      EntryAdded (blockSize block_shift) dir disk disk' name inode := by
  rintro ⟨disk', hrun, hadded⟩
  have hnew : Live (blockSize block_shift) dir disk' (name, inode) :=
    (hadded.live (name, inode)).mpr (.inr rfl)
  exact habsent inode (live_of_create hshift hname hzero hrun hnew)

end Spec

/-! ## A directory of one block -/

/-- The records `.` and `..`; the second one reaches the end of the block. -/
def emptyDirectory : ByteMem :=
  let dot := store (store (store (store (fun _ => 0) 0 4 2) 4 2 12) 6 2 0x0201) 8 1 46
  store (store (store (store dot 12 4 2) 16 2 4084) 18 2 0x0202) 20 2 0x2e2e

/-- The directory is in block 9 of the disk, and nothing else is on it. -/
def oneDirectory : Disk := fun n => if n = 9 then emptyDirectory else fun _ => 0

def oneBlock : DirInode where
  size_lower := 4096
  block iblock := if iblock = 0 then 9 else 0

theorem tiled_emptyDirectory : Tiled emptyDirectory 4096 0
    [⟨2, 12, 2, [46]⟩, ⟨2, 4084, 2, [46, 46]⟩] := by
  have hdot : recordAt emptyDirectory 0 = ⟨2, 12, 2, [46]⟩ := by decide
  have hdotdot : recordAt emptyDirectory 12 = ⟨2, 4084, 2, [46, 46]⟩ := by decide
  rw [← hdot, ← hdotdot]
  exact .cons (by decide) (by decide) (by decide)
    (.cons (by decide) (by decide) (by decide) .nil)

/-- Two tilings of the same bytes have the same records. -/
theorem Tiled.unique {b : ByteMem} {hi o : Nat} {rs rs' : List Record} (h : Tiled b hi o rs)
    (h' : Tiled b hi o rs') : rs = rs' := by
  induction h generalizing rs' with
  | nil =>
      cases h' with
      | nil => rfl
      | cons _ _ _ _ => omega
  | cons _ hname hfits hrest ih =>
      have hlt := hrest.le
      rcases h'.head (by omega) with ⟨_, _, rest, hrs, hrest'⟩
      rw [hrs, ih hrest']

theorem absent_oneDirectory (i : Nat) : ¬ Live 4096 [9] oneDirectory ([97, 98, 99], i) := by
  rintro ⟨n, hn, rs, htiled, r, hr, _, hpair⟩
  rw [List.mem_singleton] at hn
  subst hn
  rw [htiled.unique tiled_emptyDirectory] at hr
  have hname : r.name = [97, 98, 99] := congrArg Prod.fst hpair
  rcases List.mem_cons.mp hr with rfl | hr
  · cases hname
  · rw [List.mem_singleton] at hr
    subst hr
    cases hname

/-- The entry `abc` in the empty directory. -/
theorem create_entry_never_abc :
    ¬ ∃ disk', ext2_create_entry 2 oneBlock [97, 98, 99] 12 0 oneDirectory = some disk' ∧
      EntryAdded (blockSize 2) [9] oneDirectory disk' [97, 98, 99] 12 :=
  create_entry_never (by decide) (by decide) (by decide) absent_oneDirectory

/-- The directory is well-formed and has room for `abc`, and the call does not put it there. -/
theorem create_entry_not_added :
    Tiled (oneDirectory 9) (blockSize 2) 0 [⟨2, 12, 2, [46]⟩, ⟨2, 4084, 2, [46, 46]⟩] ∧
      ¬ ∃ disk', ext2_create_entry 2 oneBlock [97, 98, 99] 12 0 oneDirectory = some disk' ∧
        EntryAdded (blockSize 2) [9] oneDirectory disk' [97, 98, 99] 12 := by
  refine ⟨tiled_emptyDirectory, ?_⟩
  rintro ⟨disk', hrun, hadded⟩
  have hnew : Live (blockSize 2) [9] disk' ([97, 98, 99], 12) :=
    (hadded.live ([97, 98, 99], 12)).mpr (.inr rfl)
  exact absent_oneDirectory 12 (live_of_create (by decide) (by decide) (by decide) hrun hnew)

end Fs
end EmbeddedOS
