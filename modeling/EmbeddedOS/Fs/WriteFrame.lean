import EmbeddedOS.Fs.FileData
import EmbeddedOS.Fs.GroupDescriptors

/-!
# What a write to a file changes

`write_inode_filedata` writes to the disk block that the block map gives for each block it visits.
For a block that is not mapped that is disk block 0.
-/

namespace EmbeddedOS
namespace Fs

open Base Base.ByteMem

variable (fs : EXT2)

/-! ## The contract -/

/-- A byte of the disk block `b`. -/
def InBlock (b x : Nat) : Prop :=
  512 * fs.sectorOf b ≤ x ∧ x < 512 * fs.sectorOf b + fs.block_size

/-- A byte of a block that the range `[offset, offset + size)` of the file is mapped to; `map` gives
what the buffer of the block map holds before each search. -/
def InRange (map : Nat → ByteMem) (disk inode : ByteMem) (offset size x : Nat) : Prop :=
  ∃ y b, offset ≤ y ∧ y < offset + size ∧
    get_disk_block_number fs disk inode (map (y / fs.block_size)) (y / fs.block_size) = some b ∧
    InBlock fs b x

/-- A byte of the block with the inode's record. -/
def InInodeBlock (index x : Nat) : Prop :=
  fs.recordBlock index ≤ x ∧ x < fs.recordBlock index + fs.block_size

/-- Whatever is written, and whatever the heap left in the buffers, the disk only changes in the
blocks of the range and in the block of the inode, and never in disk block 0. -/
def FramedWrite (disk inode : ByteMem) (index offset size : Nat) : Prop :=
  ∀ h meta_ buf, ∃ inode' disk', write_inode_filedata fs h meta_ disk inode index offset size buf =
      some (inode', disk') ∧
    ∀ x, disk' x ≠ disk x →
      (InRange fs h.map disk inode offset size x ∨ InInodeBlock fs index x) ∧ ¬ InBlock fs 0 x

/-! ## Where it is kept -/

/-- What a visit to the block `b` puts new bytes to: the range and, where a block has more than the
eight sectors that are read, the rest of the block. -/
def Overwritten (b offset size x : Nat) : Prop :=
  InBlock fs b x ∧
    (512 * fs.sectorOf b + offset % fs.block_size ≤ x ∧
        x < 512 * fs.sectorOf b + offset % fs.block_size + size ∨
      512 * fs.sectorOf b + 4096 ≤ x)

/-- The file does not grow; and the range wraps around to an earlier block, so that nothing is
written, or it ends in the block it starts in, and what that block's disk block gets lies in no
place where it must not be. -/
def FrameSafe (disk inode : ByteMem) (index offset size : Nat) : Prop :=
  let stop := u32 ((offset : Int) + size)
  stop ≤ sizeLower inode ∧
    (stop / fs.block_size < offset / fs.block_size ∨
      4096 ≤ fs.block_size ∧ offset / fs.block_size = stop / fs.block_size ∧ offset ≤ stop ∧
        ∀ tmp, ∃ b,
          get_disk_block_number fs disk inode tmp (offset / fs.block_size) = some b ∧
          ∀ x, Overwritten fs b offset size x →
            (1 ≤ size ∨ InInodeBlock fs index x) ∧ ¬ InBlock fs 0 x)

variable {fs} {h : Buffers} {meta_ disk inode buf : ByteMem} {index offset size stop : Nat}

/-- A range that does not wrap around is one of natural numbers. -/
theorem stop_eq (hsize : size < 4294967296) (hstop : u32 ((offset : Int) + size) = stop)
    (hoffset : offset < 4294967296) (hle : offset ≤ stop) : stop = offset + size := by
  unfold u32 at hstop
  omega

/-! ## Where the write is undefined -/

/-- A file that grows has its inode written first. -/
theorem write_inode_filedata_grows (hinode : 0 < fs.inode_size)
    (hgrows : sizeLower inode < u32 ((offset : Int) + size)) :
    write_inode_filedata fs h meta_ disk inode index offset size buf = none := by
  simp only [write_inode_filedata, if_pos hgrows]
  rw [EXT2.write_inode_metadata_empty hinode, Option.bind_none]

/-- A block without a place in the map, or too small for what is read. -/
theorem write_inode_filedata_unread
    (hstop : u32 ((offset : Int) + size) = stop) (hfits : stop ≤ sizeLower inode)
    (hruns : offset / fs.block_size ≤ stop / fs.block_size)
    (hread : fs.read_inode_block h disk inode (offset / fs.block_size) = none) :
    write_inode_filedata fs h meta_ disk inode index offset size buf = none := by
  obtain ⟨n, hn⟩ : ∃ n, stop / fs.block_size + 1 - offset / fs.block_size = n + 1 :=
    ⟨stop / fs.block_size - offset / fs.block_size, by omega⟩
  rw [write_inode_filedata_loop hstop hfits, hn, writeLoop, hread, Option.bind_none,
    Option.map_none]

/-- A range that wraps around to a byte before it in the same block. -/
theorem write_inode_filedata_wrapped (hpos : 0 < fs.block_size)
    (hstop : u32 ((offset : Int) + size) = stop) (hfits : stop ≤ sizeLower inode)
    (hmax : fs.block_size < 4294967296) (hsame : offset / fs.block_size = stop / fs.block_size)
    (hwraps : stop < offset) :
    write_inode_filedata fs h meta_ disk inode index offset size buf = none := by
  have hcount : stop / fs.block_size + 1 - offset / fs.block_size = 0 + 1 := by omega
  obtain ⟨hleft, hlen⟩ := window_last hsame fs.block_size
  have hback : offset - stop ≤ offset % fs.block_size := by
    have hoffset := Nat.div_add_mod offset fs.block_size
    have hend := Nat.div_add_mod stop fs.block_size
    rw [hsame] at hoffset
    omega
  have hmod : offset % fs.block_size < fs.block_size := Nat.mod_lt offset hpos
  have hlong : fs.block_size < offset % fs.block_size + u32 ((stop : Int) - offset) := by
    unfold u32
    omega
  rw [write_inode_filedata_loop hstop hfits, hcount, writeLoop]
  apply Option.map_eq_none_iff.mpr
  apply Option.bind_eq_none_iff.mpr
  intro block_buf _
  simp only [hleft, hlen]
  exact if_pos hlong

/-! ## What is written -/

section Visit

variable {b : Nat} {blk : ByteMem}

/-- The disk after the visit of the block `b`. -/
def visited (fs : EXT2) (disk buf blk : ByteMem) (b offset size : Nat) : ByteMem :=
  write_disk_block fs disk b
    (copyBytes (read_disk_block fs disk b blk) (offset % fs.block_size) buf 0 size) 0

theorem visited_kept (hsec : 512 * (fs.block_size / 512) = fs.block_size) {x : Nat}
    (hx : ¬ Overwritten fs b offset size x) : visited fs disk buf blk b offset size x = disk x := by
  unfold Overwritten InBlock at hx
  rw [visited, write_disk_block]
  by_cases hin : 512 * fs.sectorOf b ≤ x ∧ x < 512 * fs.sectorOf b + fs.block_size
  · rw [devWrite_inside hin.1 (by omega), copyBytes, if_neg (by omega), read_disk_block,
      devRead_inside (by omega) (by omega)]
    congr 1
    omega
  · exact devWrite_outside (by omega)

/-- Bytes other than those of the disk from `start` on. -/
def otherBytes (disk : ByteMem) (start : Nat) : ByteMem := fun j => disk (start + j) + 1

theorem otherBytes_ne {start x : Nat} (hx : start ≤ x) :
    otherBytes disk start (x - start) ≠ disk x := by
  have hne : ∀ v : UInt8, v + 1 ≠ v := by simp
  rw [otherBytes, Nat.add_sub_cancel' hx]
  exact hne (disk x)

/-- With other bytes in the buffers, all of it changes. -/
theorem visited_changed (hsec : 512 * (fs.block_size / 512) = fs.block_size) {x : Nat}
    (hx : Overwritten fs b offset size x) :
    visited fs disk (otherBytes disk (512 * fs.sectorOf b + offset % fs.block_size))
      (otherBytes disk (512 * fs.sectorOf b)) b offset size x ≠ disk x := by
  obtain ⟨hin, hnew⟩ := hx
  unfold InBlock at hin
  rw [visited, write_disk_block, devWrite_inside hin.1 (by omega), copyBytes]
  by_cases hwin : 512 * fs.sectorOf b + offset % fs.block_size ≤ x ∧
      x < 512 * fs.sectorOf b + offset % fs.block_size + size
  · have hpos : 0 + (0 + (x - 512 * fs.sectorOf b) - offset % fs.block_size) =
        x - (512 * fs.sectorOf b + offset % fs.block_size) := by omega
    rw [if_pos (by omega), hpos]
    exact otherBytes_ne hwin.1
  · rw [if_neg (by omega), read_disk_block, devRead_outside (by omega), Nat.zero_add]
    exact otherBytes_ne hin.1

end Visit

/-! ## Exactly there -/

/-- The visit of one block is framed. -/
theorem visited_framed (hsec : 512 * (fs.block_size / 512) = fs.block_size) {b : Nat}
    {map : Nat → ByteMem} {blk : ByteMem}
    (hget : get_disk_block_number fs disk inode (map (offset / fs.block_size))
      (offset / fs.block_size) = some b)
    (hsafe : ∀ x, Overwritten fs b offset size x →
      (1 ≤ size ∨ InInodeBlock fs index x) ∧ ¬ InBlock fs 0 x) {x : Nat}
    (hx : visited fs disk buf blk b offset size x ≠ disk x) :
    (InRange fs map disk inode offset size x ∨ InInodeBlock fs index x) ∧ ¬ InBlock fs 0 x := by
  have hover : Overwritten fs b offset size x := by
    by_contra hkept
    exact hx (visited_kept hsec hkept)
  obtain ⟨hplace, hzero⟩ := hsafe x hover
  refine ⟨?_, hzero⟩
  rcases hplace with hsize | hrecord
  · exact Or.inl ⟨offset, b, Nat.le_refl offset, Nat.lt_add_of_pos_right hsize, hget, hover.1⟩
  · exact Or.inr hrecord

theorem framed_of_safe (hsec : 512 * (fs.block_size / 512) = fs.block_size)
    (hsize : size < 4294967296) (hoffset : offset < 4294967296)
    (hsafe : FrameSafe fs disk inode index offset size) :
    FramedWrite fs disk inode index offset size := by
  intro h meta_ buf
  obtain ⟨hfits, hearlier | ⟨hmin, hsame, hle, hvisit⟩⟩ := hsafe
  · have hcount : u32 ((offset : Int) + size) / fs.block_size + 1 - offset / fs.block_size = 0 := by
      omega
    refine ⟨inode, disk, ?_, fun x hx => absurd rfl hx⟩
    rw [write_inode_filedata_loop rfl hfits, hcount]
    rfl
  · obtain ⟨b, hget, hplaces⟩ := hvisit (h.map (offset / fs.block_size))
    have hlen : u32 ((offset : Int) + size) - offset = size := by
      rw [stop_eq hsize rfl hoffset hle, Nat.add_sub_cancel_left]
    have hwrite := write_inode_filedata_one hmin rfl hfits hsame hle hget meta_ buf index
    rw [hlen] at hwrite
    exact ⟨_, _, hwrite, fun x hx => visited_framed hsec hget hplaces hx⟩

/-- Where the write is defined at all. -/
theorem range_of_defined (hpos : 0 < fs.block_size) (hmax : fs.block_size + 1 < 4294967296)
    (hinode : 0 < fs.inode_size)
    (hdefined : ∀ h meta_ buf,
      write_inode_filedata fs h meta_ disk inode index offset size buf ≠ none) :
    let stop := u32 ((offset : Int) + size)
    stop ≤ sizeLower inode ∧ (stop / fs.block_size < offset / fs.block_size ∨
      4096 ≤ fs.block_size ∧ offset / fs.block_size = stop / fs.block_size ∧ offset ≤ stop) := by
  intro stop
  have hfits : stop ≤ sizeLower inode := by
    by_contra hgrows
    exact hdefined zeroBuffers (fun _ => 0) (fun _ => 0)
      (write_inode_filedata_grows hinode (Nat.lt_of_not_le hgrows))
  refine ⟨hfits, ?_⟩
  rcases Nat.lt_or_ge (stop / fs.block_size) (offset / fs.block_size) with hearlier | hruns
  · exact Or.inl hearlier
  · right
    have hmin : 4096 ≤ fs.block_size := by
      by_contra hsmall
      exact hdefined zeroBuffers (fun _ => 0) (fun _ => 0)
        (write_inode_filedata_unread rfl hfits hruns (if_pos (Nat.lt_of_not_le hsmall)))
    have hsame : offset / fs.block_size = stop / fs.block_size := by
      by_contra hother
      exact hdefined zeroBuffers (fun _ => 0) (fun _ => 0)
        (write_inode_filedata_overrun hpos hmax rfl hfits (Nat.lt_of_le_of_ne hruns hother)
          (fun _ => 0) index)
    refine ⟨hmin, hsame, ?_⟩
    by_contra hwraps
    exact hdefined zeroBuffers (fun _ => 0) (fun _ => 0)
      (write_inode_filedata_wrapped hpos rfl hfits (Nat.lt_of_succ_lt hmax) hsame
        (Nat.lt_of_not_le hwraps))

theorem safe_of_framed (hsec : 512 * (fs.block_size / 512) = fs.block_size)
    (hpos : 0 < fs.block_size) (hmax : fs.block_size + 1 < 4294967296)
    (hinode : 0 < fs.inode_size) (hsize : size < 4294967296) (hoffset : offset < 4294967296)
    (hframed : FramedWrite fs disk inode index offset size) :
    FrameSafe fs disk inode index offset size := by
  have hdefined : ∀ h meta_ buf,
      write_inode_filedata fs h meta_ disk inode index offset size buf ≠ none := by
    intro h meta_ buf hnone
    obtain ⟨inode', disk', hwrite, -⟩ := hframed h meta_ buf
    rw [hnone] at hwrite
    cases hwrite
  obtain ⟨hfits, hearlier | ⟨hmin, hsame, hle⟩⟩ := range_of_defined hpos hmax hinode hdefined
  · exact ⟨hfits, Or.inl hearlier⟩
  · refine ⟨hfits, Or.inr ⟨hmin, hsame, hle, ?_⟩⟩
    intro tmp
    have hlen : u32 ((offset : Int) + size) - offset = size := by
      rw [stop_eq hsize rfl hoffset hle, Nat.add_sub_cancel_left]
    cases hget : get_disk_block_number fs disk inode tmp (offset / fs.block_size) with
    | none =>
        have hunread : fs.read_inode_block ⟨fun _ _ => 0, fun _ => tmp⟩ disk inode
            (offset / fs.block_size) = none := by
          rw [EXT2.read_inode_block, if_neg (by omega), hget, Option.map_none]
        exact absurd (write_inode_filedata_unread rfl hfits (Nat.le_of_eq hsame) hunread)
          (hdefined ⟨fun _ _ => 0, fun _ => tmp⟩ (fun _ => 0) (fun _ => 0))
    | some b =>
        refine ⟨b, rfl, ?_⟩
        intro x hover
        -- the buffers that show every byte of the visit
        have hwrite := write_inode_filedata_one
          (h := ⟨fun _ => otherBytes disk (512 * fs.sectorOf b), fun _ => tmp⟩) hmin rfl hfits hsame
          hle hget (fun _ => 0) (otherBytes disk (512 * fs.sectorOf b + offset % fs.block_size))
          index
        obtain ⟨inode', disk', hwrite', hplaces⟩ := hframed
          ⟨fun _ => otherBytes disk (512 * fs.sectorOf b), fun _ => tmp⟩ (fun _ => 0)
          (otherBytes disk (512 * fs.sectorOf b + offset % fs.block_size))
        rw [hwrite, hlen] at hwrite'
        cases hwrite'
        obtain ⟨hplace, hzero⟩ := hplaces x (visited_changed hsec hover)
        refine ⟨?_, hzero⟩
        rcases hplace with ⟨y, -, hlo, hhi, -⟩ | hrecord
        · exact Or.inl (by omega)
        · exact Or.inr hrecord

/-- With blocks of four kilobytes the visit keeps the frame in a mapped block. -/
theorem visit_safe_iff (hbs : fs.block_size = 4096) {b : Nat} :
    (∀ x, Overwritten fs b offset size x →
      (1 ≤ size ∨ InInodeBlock fs index x) ∧ ¬ InBlock fs 0 x) ↔
        size = 0 ∨ fs.sectorOf b ≠ fs.sectorOf 0 := by
  unfold Overwritten InBlock
  rw [hbs]
  constructor
  · intro hsafe
    by_contra hhit
    obtain ⟨hsome, hsector⟩ := not_or.mp hhit
    have hmod : offset % 4096 < 4096 := Nat.mod_lt offset (by norm_num)
    have hfirst := (hsafe (512 * fs.sectorOf b + offset % 4096) (by omega)).2
    apply hfirst
    rw [not_not.mp hsector]
    omega
  · intro hmapped x hx
    have hsome : 1 ≤ size := by omega
    have hapart := sectorOf_apart (hmapped.resolve_left (Nat.ne_of_gt hsome))
    exact ⟨Or.inl hsome, by omega⟩

/-- Then the range is to be empty, or its one block mapped. -/
theorem frameSafe_iff (hbs : fs.block_size = 4096) (hoffset : offset < 4294967296) :
    FrameSafe fs disk inode index offset size ↔
      let stop := u32 ((offset : Int) + size)
      stop ≤ sizeLower inode ∧ (stop / 4096 < offset / 4096 ∨
        offset / 4096 = stop / 4096 ∧ offset ≤ stop ∧
          (size = 0 ∨ fs.sectorOf (blockMap fs disk inode (offset / 4096)) ≠ fs.sectorOf 0)) := by
  have hp : fs.block_size / 4 = 1024 := by rw [hbs]
  have hlt : offset / 4096 < mapEnd fs := by
    rw [mapEnd, hp]
    norm_num
    omega
  have hget : ∀ tmp, get_disk_block_number fs disk inode tmp (offset / 4096) =
      some (blockMap fs disk inode (offset / 4096)) := fun tmp =>
    get_disk_block_number_eq hp (Nat.le_refl 1024) hlt
  simp only [FrameSafe, hbs, hget, Option.some.injEq, exists_eq_left', Nat.le_refl, true_and,
    forall_const]
  apply and_congr_right
  intro _
  apply or_congr_right
  apply and_congr_right
  intro _
  apply and_congr_right
  intro _
  exact visit_safe_iff hbs

/-- **The frame of a file write.** -/
theorem write_inode_filedata_framed_iff {shift : Nat}
    (hbs : fs.block_size = u32 (1024 * 2 ^ shift : Nat)) (hpos : 0 < fs.block_size)
    (hinode : 0 < fs.inode_size) (hsize : size < 4294967296) (hoffset : offset < 4294967296) :
    FramedWrite fs disk inode index offset size ↔ FrameSafe fs disk inode index offset size := by
  have hsec := block_size_sectors hbs
  have hmax : fs.block_size + 1 < 4294967296 := by
    rcases block_size_cases hbs with h | h | h | h <;> omega
  exact ⟨safe_of_framed hsec hpos hmax hinode hsize hoffset, framed_of_safe hsec hsize hoffset⟩

/-- One byte of a file of two blocks is written to its first block. -/
theorem write_inode_filedata_framed_byte :
    FramedWrite oneGroup.fs oneGroup.disk twoBlocks 12 0 1 := by
  have hbs : oneGroup.fs.block_size = u32 (1024 * 2 ^ 2 : Nat) := by decide
  apply (write_inode_filedata_framed_iff hbs (by decide) (by decide) (by decide) (by decide)).mpr
  exact (frameSafe_iff rfl (by decide)).mpr
    ⟨by decide, Or.inr ⟨rfl, by decide, Or.inr (by decide)⟩⟩

/-- 8192 bytes, none of them in a disk block. -/
def allHoles : ByteMem := fun x => if x = 5 then 32 else 0

/-- A byte written to a hole lands in disk block 0. -/
theorem write_inode_filedata_hole :
    (∃ disk', write_inode_filedata oneGroup.fs zeroBuffers (fun _ => 0) oneGroup.disk allHoles 12 0
        1 (fun _ => 7) = some (allHoles, disk') ∧
      ∃ x, InBlock oneGroup.fs 0 x ∧ disk' x ≠ oneGroup.disk x) ∧
      ¬ FramedWrite oneGroup.fs oneGroup.disk allHoles 12 0 1 := by
  have hfits : 0 + 1 ≤ sizeLower allHoles := by decide
  have hwrite : write_inode_filedata oneGroup.fs zeroBuffers (fun _ => 0) oneGroup.disk allHoles 12
      0 1 (fun _ => 7) = some (allHoles, copyBytes oneGroup.disk
        (writtenAt oneGroup.fs oneGroup.disk allHoles 0) (fun _ => 7) 0 1) :=
    write_inode_filedata_eq rfl hfits rfl (fun _ => 0) 12
  refine ⟨⟨_, hwrite, 512 * oneGroup.fs.sectorOf 0, ⟨by decide, by decide⟩, by decide⟩, ?_⟩
  intro hframed
  have hsafe := safe_of_framed (by decide) (by decide) (by decide) (by decide) (by decide)
    (by decide) hframed
  rw [frameSafe_iff rfl (by decide)] at hsafe
  revert hsafe
  decide

end Fs
end EmbeddedOS
