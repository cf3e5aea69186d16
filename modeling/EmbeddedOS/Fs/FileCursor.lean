import EmbeddedOS.Fs.File

/-!
# The cursor of an open file

What opens, reads and writes should do to the cursor of a file and to the caller's buffer, and the
condition on each call under which they do.
-/

namespace EmbeddedOS
namespace Fs

open Base

/-- The calls that use the cursor. -/
inductive Access where
  | fs_open
  | f_read (size : UInt32)
  | f_write (size : UInt32) (buf : Nat → UInt8)

def Access.call : Access → Call
  | .fs_open => .fs_open
  | .f_read size => .f_read size
  | .f_write size buf => .f_write size buf

section Cursor

variable {Disk : Type} (A : Allocator) (X : InodeLayer Disk)

def access (s : State Disk) (a : Access) : Option (Outcome × State Disk) :=
  step A X s a.call

/-! ## What the calls promise -/

/-- A request of `size` bytes stays in the file. -/
def InFile (s : State Disk) (size : UInt32) : Prop :=
  s.file.cur_offset.toNat + size.toNat ≤ s.file.size.toNat

instance (s : State Disk) (size : UInt32) : Decidable (InFile s size) :=
  inferInstanceAs (Decidable (_ ≤ _))

/-- A read in the file returns its size, copies the file's bytes and moves past them; a read
beyond the file returns -1 and does nothing; a write moves past what it writes. -/
inductive CursorSpec (s : State Disk) : Access → Outcome → State Disk → Prop
  | opened {out : Outcome} {t : State Disk} : CursorSpec s .fs_open out t
  | read {size : UInt32} {out : Outcome} {t : State Disk} (hin : InFile s size)
      (hret : out.ret = size)
      (hcopied : out.copied =
        (X.bytes s.disk s.file.inode s.file.cur_offset.toNat size.toNat).map some)
      (hcursor : t.file.cur_offset.toNat = s.file.cur_offset.toNat + size.toNat) :
      CursorSpec s (.f_read size) out t
  | refused {size : UInt32} {out : Outcome} {t : State Disk} (hout : ¬ InFile s size)
      (hret : out.ret = -1) (hcopied : out.copied = [])
      (hcursor : t.file.cur_offset = s.file.cur_offset) :
      CursorSpec s (.f_read size) out t
  | wrote {size : UInt32} {buf : Nat → UInt8} {out : Outcome} {t : State Disk}
      (hcursor : t.file.cur_offset.toNat = s.file.cur_offset.toNat + out.written) :
      CursorSpec s (.f_write size buf) out t

/-! ## When they keep it -/

/-- The buffer holds the file's present bytes from the cursor on. -/
def UpToDate (s : State Disk) (size : UInt32) : Prop :=
  ∃ b, blockAt s.live s.file.file_buffer = some b ∧
    (b.bytes.drop s.file.cur_offset.toNat).take size.toNat =
      (X.bytes s.disk s.file.inode s.file.cur_offset.toNat size.toNat).map some

/-- The heap has room for the inode record that a write takes. -/
def WriteFits (s : State Disk) : Prop :=
  (A.place s.log s.live INODE_BASE_SIZE).isSome

/-- The condition on one call. A read in the file asks for as many bytes as the kernel's error
code says; the bytes of an open file are those of the buffer; a read that has to open the file
starts at its beginning, with room on the heap. A read beyond the file does not wrap. -/
def Kept (s : State Disk) : Access → Prop
  | .fs_open => True
  | .f_read size =>
      if InFile s size then
        size = UInt32.ofNat (u32 s.ret) ∧
          if s.file.file_buffer = NULL then s.file.cur_offset = 0 ∧ OpenFits A s
          else UpToDate X s size
      else
        s.file.size < size + s.file.cur_offset
  | .f_write size _ =>
      s.file.cur_offset.toNat + size.toNat < 4294967296 ∧ (size = 0 ∨ WriteFits A s)

/-! ## The invariant -/

/-- The buffer pointer is the address of a live block, taken for the file and of its size. -/
def Backed (s : State Disk) : Prop :=
  ∃ b, blockAt s.live s.file.file_buffer = some b ∧ b.use = .fileBuffer ∧
    b.bytes.length = s.file.size.toNat

/-- No block is at `NULL`, and a file with a buffer has it backed. -/
structure Ready (s : State Disk) : Prop where
  null : blockAt s.live NULL = none
  buffer : s.file.file_buffer ≠ NULL → Backed s

variable {A X} {s t : State Disk} {size : UInt32}

/-- Taking another block leaves the buffer where it is. -/
theorem Ready.cons (h : Ready s) {b : Block} (hnull : b.addr ≠ NULL)
    (hfresh : ∀ c ∈ s.live, c.addr ≠ b.addr) (log : List HeapEvent) :
    Ready { s with live := b :: s.live, log := log } where
  null := by
    rw [blockAt_cons_of_ne hnull]
    exact h.null
  buffer := by
    intro hbuf
    rcases h.buffer hbuf with ⟨c, hc, huse⟩
    have hne : b.addr ≠ s.file.file_buffer := by
      intro heq
      exact hfresh c (blockAt_mem hc) ((blockAt_addr hc).trans heq.symm)
    exact ⟨c, by rw [blockAt_cons_of_ne hne]; exact hc, huse⟩

/-- The block of a buffer just taken. -/
theorem Ready.taken (h : Ready s) {p : Nat} {bytes : List (Option UInt8)} (hnull : p ≠ NULL)
    (hlen : bytes.length = s.file.size.toNat) (log : List HeapEvent) (ret : Int) :
    Ready { s with
      file := { s.file with file_buffer := p }
      live := ⟨p, .fileBuffer, bytes⟩ :: s.live
      log := log
      ret := ret } where
  null := by
    rw [blockAt_cons_of_ne hnull]
    exact h.null
  buffer := by
    intro _
    exact ⟨⟨p, .fileBuffer, bytes⟩, blockAt_cons_same rfl, rfl, hlen⟩

theorem Ready.opened (h : Ready s) (hopen : Opened A X s t) : Ready t := by
  cases hopen with
  | kept _ heq => exact heq ▸ h
  | noBuffer _ _ heq => exact heq ▸ ⟨h.null, h.buffer⟩
  | noInode p _ hplace _ heq =>
      have hp := (A.fresh _ _ _ _ hplace).1
      exact heq ▸ h.taken hp List.length_replicate _ _
  | filled p q _ hplace _ hq hfresh heq =>
      have hp := (A.fresh _ _ _ _ hplace).1
      have hlen : ((X.bytes s.disk s.file.inode 0 s.file.size.toNat).map some).length =
          s.file.size.toNat := by
        rw [List.length_map, X.length_bytes]
      exact heq ▸ (h.taken hp hlen s.log s.ret).cons hq hfresh _

theorem Ready.moved (h : Ready s) (offset : UInt32) :
    Ready { s with file := { s.file with cur_offset := offset } } :=
  ⟨h.null, h.buffer⟩

/-- A copy that leaves the file is not defined. -/
theorem Ready.fetch_outside (h : Ready s) {i n : Nat} (hn : n ≠ 0)
    (hout : s.file.size.toNat < i + n) : fetch s.live s.file.file_buffer i n = none := by
  by_cases hbuf : s.file.file_buffer = NULL
  · rw [hbuf, fetch_dead h.null, if_neg hn]
  · rcases h.buffer hbuf with ⟨b, hb, _, hlen⟩
    exact Fs.fetch_outside hb (by rw [hlen]; exact hout)

/-! ## Reads -/

theorem inFile_admitted (h : InFile s size) : ¬ s.file.size < size + s.file.cur_offset := by
  have hsize := s.file.size.toNat_lt
  unfold InFile at h
  rw [UInt32.lt_iff_toNat_lt, UInt32.toNat_add, Nat.not_lt]
  calc (size.toNat + s.file.cur_offset.toNat) % 2 ^ 32
      ≤ size.toNat + s.file.cur_offset.toNat := Nat.mod_le _ _
    _ ≤ s.file.size.toNat := by omega

/-- Moving the cursor by the size of a request in the file does not wrap. -/
theorem cursor_moved (h : InFile s size) :
    (s.file.cur_offset + size).toNat = s.file.cur_offset.toNat + size.toNat := by
  have hsize := s.file.size.toNat_lt
  unfold InFile at h
  rw [UInt32.toNat_add]
  exact Nat.mod_eq_of_lt (by omega)

/-- A read that is let through, with its buffer there or after opening the file. -/
theorem access_read (hs : Ready s) (h : ¬ s.file.size < size + s.file.cur_offset) :
    ∃ t, Opened A X (if s.file.file_buffer = NULL then counted s else s) t ∧ Ready t ∧
      access A X s (.f_read size) =
        (fetch t.live t.file.file_buffer s.file.cur_offset.toNat size.toNat).map
          fun copied => (⟨UInt32.ofNat (u32 t.ret), copied, 0⟩, advanced t) := by
  by_cases hbuf : s.file.file_buffer = NULL
  · rcases fs_open_spec A X s with ⟨t, hrun, hopen⟩
    have hcounted : Ready (counted s) := ⟨hs.null, hs.buffer⟩
    refine ⟨t, by rw [if_pos hbuf]; exact hopen, hcounted.opened hopen, ?_⟩
    rw [access, Access.call, step, f_read_eq h (by rw [if_pos hbuf]; exact hrun), Option.map_map]
    rfl
  · refine ⟨s, by rw [if_neg hbuf]; exact .kept hbuf rfl, hs, ?_⟩
    rw [access, Access.call, step, f_read_eq h (by rw [if_neg hbuf]), Option.map_map]
    rfl

theorem Opened.size_eq (h : Opened A X s t) : t.file.size = s.file.size := by
  cases h with
  | kept _ heq => rw [heq]
  | noBuffer _ _ heq => rw [heq]
  | noInode _ _ _ _ heq => rw [heq]
  | filled _ _ _ _ _ _ _ heq => rw [heq]

/-- A read whose 32-bit end wraps back into the file copies from outside the buffer. -/
theorem access_wraps (hs : Ready s) (hout : ¬ InFile s size)
    (h : ¬ s.file.size < size + s.file.cur_offset) : access A X s (.f_read size) = none := by
  rcases access_read (A := A) (X := X) hs h with ⟨t, hopen, ht, hrun⟩
  have hsize : t.file.size = s.file.size := by
    rw [hopen.size_eq]
    split <;> rfl
  have hne : size.toNat ≠ 0 := by
    intro hzero
    have hz : size = 0 := UInt32.toNat_inj.mp hzero
    rw [hz, UInt32.zero_add, UInt32.lt_iff_toNat_lt] at h
    unfold InFile at hout
    omega
  rw [hrun, ht.fetch_outside hne (by rw [hsize]; unfold InFile at hout; omega)]
  rfl

/-- A read in the file with its buffer there. -/
theorem read_buffered (hs : Ready s) (hin : InFile s size) (hbuf : s.file.file_buffer ≠ NULL) :
    (∃ out t, access A X s (.f_read size) = some (out, t) ∧ CursorSpec X s (.f_read size) out t) ↔
      size = UInt32.ofNat (u32 s.ret) ∧ UpToDate X s size := by
  rcases hs.buffer hbuf with ⟨b, hb, _, hlen⟩
  have hrun : access A X s (.f_read size) =
      some (⟨UInt32.ofNat (u32 s.ret),
        (b.bytes.drop s.file.cur_offset.toNat).take size.toNat, 0⟩, advanced s) := by
    rw [access, Access.call, step, f_read_eq (inFile_admitted hin) (by rw [if_neg hbuf]),
      fetch_of_block hb (by rw [hlen]; exact hin)]
    rfl
  rw [hrun]
  constructor
  · rintro ⟨out, t, heq, hspec⟩
    cases heq
    cases hspec with
    | read _ hret hcopied _ => exact ⟨hret.symm, b, hb, hcopied⟩
    | refused hout _ _ _ => exact absurd hin hout
  · rintro ⟨hret, b', hb', hbytes⟩
    cases hb.symm.trans hb'
    refine ⟨_, _, rfl, .read hin hret.symm hbytes ?_⟩
    rw [advanced, ← hret]
    exact cursor_moved hin

/-- Without memory the error code is `E_NOMEM`. -/
theorem code_of_nomem : UInt32.ofNat (u32 E_NOMEM) = 20 := by decide

/-- A read in the file that has to open it. -/
theorem read_opening (hs : Ready s) (hin : InFile s size) (hbuf : s.file.file_buffer = NULL) :
    (∃ out t, access A X s (.f_read size) = some (out, t) ∧ CursorSpec X s (.f_read size) out t) ↔
      size = UInt32.ofNat (u32 s.ret) ∧ s.file.cur_offset = 0 ∧ OpenFits A s := by
  rcases access_read (A := A) (X := X) hs (inFile_admitted hin) with ⟨t, hopen, _, hrun⟩
  rw [if_pos hbuf] at hopen
  have hle : s.file.cur_offset.toNat + size.toNat ≤ s.file.size.toNat := hin
  rw [hrun]
  cases hopen with
  | kept hne _ => exact absurd hbuf hne
  | noBuffer _ hplace heq =>
      have hfetch : fetch t.live t.file.file_buffer s.file.cur_offset.toNat size.toNat =
          if size.toNat = 0 then some [] else none := by
        rw [heq]
        exact fetch_dead (hbuf ▸ hs.null)
      have hret : t.ret = E_NOMEM := by rw [heq]
      constructor
      · rintro ⟨out, t', hsome, hspec⟩
        rw [hfetch, hret, code_of_nomem] at hsome
        by_cases hzero : size.toNat = 0
        · rw [if_pos hzero] at hsome
          cases hsome
          cases hspec with
          | read _ hsize _ _ =>
              rw [← hsize] at hzero
              cases hzero
          | refused hout _ _ _ => exact absurd hin hout
        · rw [if_neg hzero] at hsome
          cases hsome
      · rintro ⟨_, _, p, hp, _⟩
        cases hplace.symm.trans hp
  | noInode p _ _ hfits heq =>
      have hfetch : fetch t.live t.file.file_buffer s.file.cur_offset.toNat size.toNat =
          some (List.replicate size.toNat none) := by
        rw [heq, fetch_of_block (blockAt_cons_same rfl) (by simpa [counted] using hle)]
        simp [counted]
        omega
      have hret : t.ret = E_NOMEM := by rw [heq]
      constructor
      · rintro ⟨out, t', hsome, hspec⟩
        rw [hfetch, hret, code_of_nomem] at hsome
        cases hsome
        cases hspec with
        | read _ hsize hcopied _ =>
            rw [← hsize] at hcopied
            have hfirst := congrArg (fun l => l[0]?) hcopied
            simp [InodeLayer.bytes] at hfirst
        | refused hout _ _ _ => exact absurd hin hout
      · rintro ⟨_, _, hopens⟩
        exact absurd hopens hfits
  | filled p q _ _ hfits _ hfresh heq =>
      have hpq : q ≠ p := Ne.symm (hfresh _ List.mem_cons_self)
      have hfetch : fetch t.live t.file.file_buffer s.file.cur_offset.toNat size.toNat =
          some ((X.bytes s.disk s.file.inode s.file.cur_offset.toNat size.toNat).map some) := by
        rw [heq, fetch_of_block
          (by rw [blockAt_cons_of_ne hpq]; exact blockAt_cons_same rfl)
          (by simpa [counted] using hle)]
        simp only [counted, ← List.map_drop, ← List.map_take, X.bytes_part _ _ hle]
      have hret : t.ret = s.ret := by
        rw [heq]
        rfl
      have hcursor : (advanced t).file.cur_offset = UInt32.ofNat (u32 s.ret) := by
        rw [heq]
        exact UInt32.zero_add _
      rw [hfetch, hret]
      constructor
      · rintro ⟨out, t', hsome, hspec⟩
        cases hsome
        cases hspec with
        | read _ hsize _ hmoved =>
            have hcode : UInt32.ofNat (u32 s.ret) = size := hsize
            rw [hcursor, hcode] at hmoved
            exact ⟨hcode.symm, UInt32.toNat_inj.mp (by simpa using hmoved), hfits⟩
        | refused hout _ _ _ => exact absurd hin hout
      · rintro ⟨hsize, hzero, _⟩
        refine ⟨_, _, rfl, .read hin hsize.symm rfl ?_⟩
        rw [hcursor, ← hsize, hzero]
        simp

/-! ## One call -/

theorem f_write_spec (hs : Ready s) (size : UInt32) (buf : Nat → UInt8) :
    ∃ written t, access A X s (.f_write size buf) = some (⟨size, [], written⟩, t) ∧ Ready t ∧
      t.file.cur_offset = s.file.cur_offset + size ∧
      (written = if (A.place s.log s.live INODE_BASE_SIZE).isSome then size.toNat else 0) ∧
      t.file.refcount = s.file.refcount ∧
      (t.log = s.log ∨ ∃ q, t.log = s.log ++ [.taken q INODE_BASE_SIZE]) := by
  cases hplace : A.place s.log s.live INODE_BASE_SIZE with
  | none =>
      refine ⟨0, { s with
          file := { s.file with cur_offset := s.file.cur_offset + size }
          ret := E_NOMEM }, ?_, ⟨hs.null, hs.buffer⟩, rfl, by simp, rfl, .inl rfl⟩
      simp [access, Access.call, step, f_write, ext2_write, new, hplace]
  | some q =>
      rcases A.fresh _ _ _ _ hplace with ⟨hq, hfresh⟩
      have hcons := hs.cons (b := ⟨q, .inodeRecord, List.replicate INODE_BASE_SIZE none⟩) hq hfresh
        (s.log ++ [.taken q INODE_BASE_SIZE])
      refine ⟨size.toNat, { s with
          file := { s.file with cur_offset := s.file.cur_offset + size }
          live := ⟨q, .inodeRecord, List.replicate INODE_BASE_SIZE none⟩ :: s.live
          log := s.log ++ [.taken q INODE_BASE_SIZE]
          disk := X.write_inode_filedata s.disk s.file.inode s.file.cur_offset.toNat
            ((List.range size.toNat).map buf) },
        ?_, ⟨hcons.null, hcons.buffer⟩, rfl, by simp, rfl, .inr ⟨q, rfl⟩⟩
      simp [access, Access.call, step, f_write, ext2_write, new, hplace, hq]

/-- One call does what it promises exactly under its condition. -/
theorem access_iff (hs : Ready s) (a : Access) :
    (∃ out t, access A X s a = some (out, t) ∧ CursorSpec X s a out t) ↔ Kept A X s a := by
  cases a with
  | fs_open =>
      rcases fs_open_spec A X s with ⟨t, hrun, _⟩
      refine ⟨fun _ => trivial, fun _ => ⟨⟨0, [], 0⟩, t, ?_, .opened⟩⟩
      rw [access, Access.call, step, hrun]
      rfl
  | f_read size =>
      by_cases hin : InFile s size
      · by_cases hbuf : s.file.file_buffer = NULL
        · rw [Kept, if_pos hin, if_pos hbuf]
          exact read_opening hs hin hbuf
        · rw [Kept, if_pos hin, if_neg hbuf]
          exact read_buffered hs hin hbuf
      · rw [Kept, if_neg hin]
        by_cases hpass : s.file.size < size + s.file.cur_offset
        · refine ⟨fun _ => hpass, fun _ => ⟨⟨-1, [], 0⟩, s, ?_, .refused hin rfl rfl rfl⟩⟩
          rw [access, Access.call, step, f_read_refused hpass]
          rfl
        · rw [access_wraps hs hin hpass]
          refine ⟨?_, fun h => absurd h hpass⟩
          rintro ⟨out, t, hrun, _⟩
          cases hrun
  | f_write size buf =>
      rcases f_write_spec (A := A) (X := X) hs size buf with
        ⟨written, t, hrun, _, hcursor, hwritten, _⟩
      have hoffset := s.file.cur_offset.toNat_lt
      have hbytes := size.toNat_lt
      have hmoved : t.file.cur_offset.toNat =
          (s.file.cur_offset.toNat + size.toNat) % 4294967296 := by
        rw [hcursor, UInt32.toNat_add]
      have hzero : size.toNat = 0 ↔ size = 0 := by
        rw [← UInt32.toNat_inj]
        exact Iff.rfl
      have hspec : CursorSpec X s (.f_write size buf) ⟨size, [], written⟩ t ↔
          t.file.cur_offset.toNat = s.file.cur_offset.toNat + written := by
        refine ⟨?_, fun h => .wrote h⟩
        rintro (_ | _ | _ | hcursor)
        exact hcursor
      have hone : (∃ out t', access A X s (.f_write size buf) = some (out, t') ∧
          CursorSpec X s (.f_write size buf) out t') ↔
            t.file.cur_offset.toNat = s.file.cur_offset.toNat + written := by
        rw [hrun, ← hspec]
        simp
      rw [hone, Kept, WriteFits, ← hzero, hmoved, hwritten]
      by_cases hfits : (A.place s.log s.live INODE_BASE_SIZE).isSome = true
      · simp only [hfits, if_true, or_true, and_true]
        omega
      · simp only [hfits, Bool.false_eq_true, if_false, or_false]
        omega

theorem access_ready (hs : Ready s) {a : Access} {out : Outcome}
    (hrun : access A X s a = some (out, t)) : Ready t := by
  have hcounted : Ready (counted s) := ⟨hs.null, hs.buffer⟩
  cases a with
  | fs_open =>
      rcases fs_open_spec A X s with ⟨t', hrun', hopen⟩
      rw [access, Access.call, step, hrun'] at hrun
      cases hrun
      exact hcounted.opened hopen
  | f_read size =>
      by_cases hpass : s.file.size < size + s.file.cur_offset
      · rw [access, Access.call, step, f_read_refused hpass] at hrun
        cases hrun
        exact hs
      · rcases access_read (A := A) (X := X) hs hpass with ⟨t', _, ht', hrun'⟩
        rw [hrun', Option.map_eq_some_iff] at hrun
        rcases hrun with ⟨copied, _, heq⟩
        cases heq
        exact ht'.moved _
  | f_write size buf =>
      rcases f_write_spec (A := A) (X := X) hs size buf with ⟨written, t', hrun', ht', _⟩
      rw [hrun'] at hrun
      cases hrun
      exact ht'

/-! ## Runs -/

/-- As long as no error has occurred anywhere in the kernel, no read of a byte keeps its promise. -/
theorem kept_read_empty (hret : s.ret = 0) (hin : InFile s size)
    (h : Kept A X s (.f_read size)) : size = 0 := by
  rw [Kept, if_pos hin, hret] at h
  exact h.1

end Cursor

theorem ready_closedFile (size : UInt32) : Ready (closedFile size) :=
  ⟨rfl, fun h => absurd rfl h⟩

end Fs
end EmbeddedOS
