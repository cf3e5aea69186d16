import EmbeddedOS.Fs.FileData

/-!
# Reads to the end of a file and past it

`read_inode_filedata` cuts a range off at the end of the file. A range that starts there is empty;
for one that starts behind it, the length that is returned is negative.
-/

namespace EmbeddedOS
namespace Fs

open Base Base.ByteMem

section FileRead

variable {fs : EXT2} {h : Buffers} {disk inode buf : ByteMem} {offset size : Nat}

/-- The end of a range that starts in the file. -/
theorem endOffset_inside (hoffset : offset ≤ sizeLower inode) (hsum : offset + size < 4294967296) :
    endOffset inode offset size = offset + min size (sizeLower inode - offset) := by
  have hstop : u32 ((offset : Int) + size) = offset + size := u32_of_range (by omega) hsum
  rw [endOffset, hstop]
  split <;> omega

/-- **Reading in the file.** -/
theorem read_inode_filedata_exact (hbs : fs.block_size = 4096) (hoffset : offset ≤ sizeLower inode)
    (hsum : offset + size < 4294967296) :
    ∃ buf', read_inode_filedata fs h disk inode offset size buf =
        some (min size (sizeLower inode - offset), buf') ∧
      (∀ x, x < min size (sizeLower inode - offset) →
        buf' x = fileByte fs disk inode (offset + x)) ∧
      ∀ x, min size (sizeLower inode - offset) ≤ x → buf' x = buf x := by
  have hread := read_inode_filedata_to h disk buf hbs (endOffset_inside hoffset hsum)
    (Nat.le_add_right offset _) (by omega)
  rw [Nat.add_sub_cancel_left] at hread
  refine ⟨_, hread, ?_, ?_⟩
  · intro x hx
    exact if_pos hx
  · intro x hx
    exact if_neg (Nat.not_lt.mpr hx)

/-- The end of a range never lies behind the end of the file. -/
theorem endOffset_le : endOffset inode offset size ≤ sizeLower inode := by
  unfold endOffset
  split
  · assumption
  · exact Nat.le_refl _

/-- **Reading past the end** never returns 0. -/
theorem read_past_end_never (hoffset : sizeLower inode < offset) (hmax : offset < 4294967296) :
    read_inode_filedata fs h disk inode offset size buf ≠ some (0, buf) := by
  intro hread
  have hend : endOffset inode offset size ≤ sizeLower inode := endOffset_le
  obtain ⟨buf', _, hresult⟩ := Option.map_eq_some_iff.mp hread
  have hzero : u32 ((endOffset inode offset size : Int) - offset) = 0 := congrArg Prod.fst hresult
  unfold u32 at hzero
  omega

/-- What it copies: nothing where the range ends in an earlier block than it starts in. In the same
block its length is negative too, and the copy runs past the buffer of the block. -/
theorem read_past_end (hbs : fs.block_size = 4096) (hoffset : sizeLower inode < offset)
    (hmax : offset < 4294967296) :
    read_inode_filedata fs h disk inode offset size buf =
      if endOffset inode offset size / 4096 < offset / 4096 then
        some (u32 ((endOffset inode offset size : Int) - offset), buf)
      else
        none := by
  have hend : endOffset inode offset size ≤ sizeLower inode := endOffset_le
  simp only [read_inode_filedata]
  generalize endOffset inode offset size = stop at hend
  have hfirst : (window fs offset stop).start_block = offset / 4096 := by
    simp only [window, hbs]
  have hlast : (window fs offset stop).end_block = stop / 4096 := by
    simp only [window, hbs]
  rw [hfirst, hlast]
  by_cases hearlier : stop / 4096 < offset / 4096
  · have hcount : stop / 4096 + 1 - offset / 4096 = 0 := by omega
    rw [if_pos hearlier, hcount]
    rfl
  · have hcount : stop / 4096 + 1 - offset / 4096 = 0 + 1 := by omega
    have hsame : offset / fs.block_size = stop / fs.block_size := by
      rw [hbs]
      omega
    obtain ⟨hleft, hlen⟩ := window_last hsame (u32 (fs.block_size - 1))
    rw [hbs] at hleft hlen
    rw [if_neg hearlier, hcount, readLoop, hbs, read_inode_block_eq hbs (by omega),
      Option.bind_some]
    simp only [hleft, hlen]
    apply Option.map_eq_none_iff.mpr
    apply if_pos
    unfold u32
    omega

end FileRead

/-- The second block of a file of two, up to the end of the file. -/
theorem read_inode_filedata_exact_second :
    ∃ buf', read_inode_filedata oneGroup.fs zeroBuffers oneGroup.disk twoBlocks 4096 9000
        (fun _ => 7) = some (min 9000 (sizeLower twoBlocks - 4096), buf') ∧
      (∀ x, x < min 9000 (sizeLower twoBlocks - 4096) →
        buf' x = fileByte oneGroup.fs oneGroup.disk twoBlocks (4096 + x)) ∧
      ∀ x, min 9000 (sizeLower twoBlocks - 4096) ≤ x → buf' x = 7 :=
  read_inode_filedata_exact rfl (by decide) (by decide)

/-- One byte, a block behind the end. -/
theorem read_past_end_never_byte :
    read_inode_filedata oneGroup.fs zeroBuffers oneGroup.disk twoBlocks 12288 1 (fun _ => 7) ≠
      some (0, fun _ => 7) :=
  read_past_end_never (by decide) (by decide)

/-- There the length that is returned is negative; in the block of the end it is that of the copy. -/
theorem read_past_end_wraps :
    sizeLower twoBlocks < 8193 ∧ read_inode_filedata oneGroup.fs zeroBuffers oneGroup.disk twoBlocks 12288 1
        (fun _ => 7) = some (4294963200, fun _ => 7) ∧
      read_inode_filedata oneGroup.fs zeroBuffers oneGroup.disk twoBlocks 8193 1 (fun _ => 7) =
        none := by
  refine ⟨by decide, ?_, ?_⟩
  · rw [read_past_end rfl (by decide) (by decide)]
    exact if_pos (by decide)
  · rw [read_past_end rfl (by decide) (by decide)]
    exact if_neg (by decide)

end Fs
end EmbeddedOS
