import Mathlib.Tactic.Ring
import EmbeddedOS.Base.Loop
import EmbeddedOS.Fs.FileCursor
import EmbeddedOS.Stdlib.Strings

/-!
# Reading a line

`f_gets` in `fs/ext2/file.c`. Its first loop looks through the file's buffer, four bytes at a
time, without moving `nc`, the counter it is bounded by; what ends it is a lead byte of a
multi-byte sequence whose trailing bytes are not read as asked for. Only the second loop fills the
caller's buffer.
-/

namespace EmbeddedOS
namespace Fs

open Base

/-! ## The code -/

/-- `strncpy` out of a block: it stops behind a terminator and fills up with terminators.
Undefined if it comes to a byte that is not there or not set. -/
def strncpyFrom : List (Option UInt8) → Nat → Option (List UInt8)
  | _, 0 => some []
  | some c :: cs, n + 1 =>
      if c = 0 then some (List.replicate (n + 1) 0) else (strncpyFrom cs n).map (c :: ·)
  | none :: _, _ + 1 => none
  | [], _ + 1 => none

/-- The bits of a lead byte, and how many bytes trail it. -/
def leadBits (dc : UInt32) : UInt32 × UInt32 :=
  let ct := 0
  let (dc, ct) := if dc &&& 0xE0 = 0xC0 then (dc &&& 0x1F, 1) else (dc, ct)
  let (dc, ct) := if dc &&& 0xF0 = 0xE0 then (dc &&& 0x0F, 2) else (dc, ct)
  if dc &&& 0xF8 = 0xF0 then (dc &&& 0x07, 3) else (dc, ct)

/-- The `do` loop over the trailing bytes: how many it merges, and the character they make. -/
def merge : List UInt8 → UInt32 → UInt32 × UInt32
  | [], dc => (0, dc)
  | b :: bs, dc =>
      if b &&& 0xC0 ≠ 0x80 then
        (0, dc)
      else
        let (rc, dc) := merge bs (dc <<< 6 ||| (b &&& 0x3F).toUInt32)
        (rc + 1, dc)

/-- What the first loop changes. -/
structure Scan (Disk : Type) where
  state : State Disk
  rc : UInt32
  off : UInt32

/-- What the second loop changes; `line` are the characters before `p`, `nc` is their number. -/
structure Line (Disk : Type) where
  state : State Disk
  line : List UInt8

section Code

variable {Disk : Type} (A : Allocator) (X : InodeLayer Disk)

/-- The block of the file's buffer from a position on. -/
def bufferFrom (s : State Disk) (off : UInt32) : List (Option UInt8) :=
  match blockAt s.live s.file.file_buffer with
  | some b => b.bytes.drop off.toNat
  | none => []

/-- A pass of the first loop. A wrong encoding makes it `continue`, a right one comes to the end
of the body. -/
def scanPass (v : Scan Disk) : Option (Pass (Scan Disk) (State Disk)) := do
  let s ← strncpyFrom (bufferFrom v.state v.off) 4
  let off := v.off + 4
  if v.rc ≠ 1 then
    some (.done v.state)
  else
    let dc := (s.headD 0).toUInt32
    if dc ≥ 0x80 then
      let (dc, ct) := leadBits dc
      if ct = 0 then
        some (.again ⟨v.state, v.rc, off⟩)
      else do
        let ((rc, copied), t) ← f_read A X v.state ct
        if rc ≠ ct then
          some (.done t)
        else do
          let s ← copied.mapM id
          let (rc, _) := merge s dc
          some (.again ⟨t, rc, off⟩)
    else
      some (.again ⟨v.state, v.rc, off⟩)

/-- A pass of the second loop. -/
def linePass (len : Int) (v : Line Disk) : Option (Pass (Line Disk) (Line Disk)) :=
  if (v.line.length : Int) < len then do
    let ((rc, copied), t) ← f_read A X v.state 1
    if rc ≠ 1 then
      some (.done ⟨t, v.line⟩)
    else do
      let s ← copied.mapM id
      let dc := s.headD 0
      if dc = 0x0D then
        some (.again ⟨t, v.line⟩)
      else if dc = 0x0A then
        some (.done ⟨t, v.line ++ [dc]⟩)
      else
        some (.again ⟨t, v.line ++ [dc]⟩)
  else
    some (.done v)

/-- Whether it returns `buff`, and the bytes written there from its start, with at most `fuel`
passes in each loop. -/
def f_gets (fuel : Nat) (s : State Disk) (len : Int) :
    Option ((Bool × List UInt8) × State Disk) := do
  -- `nc` is 0 for all of the first loop
  let s ← if 0 < len then loop (scanPass A X) fuel ⟨s, 1, 0⟩ else some s
  let v ← loop (linePass A X (len - 1)) fuel ⟨s, []⟩
  some ((v.line ≠ [], v.line ++ [0]), v.state)

/-- `f_gets` returns, having read nothing outside the blocks of the heap, and what it has written
fits into `len` bytes and has a terminator. -/
def GetsBounded (s : State Disk) (len : Int) : Prop :=
  ∃ fuel got written t, f_gets A X fuel s len = some ((got, written), t) ∧
    (written.length : Int) ≤ len ∧ 0 ∈ written

end Code

/-! ## When it is bounded -/

/-- An open file with the given contents: the buffer is a live block of the file's size. -/
structure Open {Disk : Type} (s : State Disk) (contents : List UInt8) : Prop where
  buffer : s.file.file_buffer ≠ NULL
  block : ∃ b, blockAt s.live s.file.file_buffer = some b ∧ b.bytes = contents.map some
  size : contents.length = s.file.size.toNat

section Conditions

variable {Disk : Type} (s : State Disk) (contents : List UInt8)

/-- The kernel's error code, which every read that is let through returns. -/
def code : UInt32 :=
  UInt32.ofNat (u32 s.ret)

/-- Where pass `j` of the first loop looks. -/
def wordOffset (j : Nat) : UInt32 :=
  UInt32.ofNat (4 * j)

def wordBytes (j : Nat) : List UInt8 :=
  contents.drop (wordOffset j).toNat

/-- There are four bytes, or fewer with a terminator among them. -/
def WordThere (j : Nat) : Prop :=
  4 ≤ (wordBytes contents j).length ∨ 0 ∈ wordBytes contents j

/-- How many bytes trail the byte that pass `j` looks at; 0 if it is no lead byte. -/
def trailing (j : Nat) : UInt32 :=
  let dc := ((wordBytes contents j).headD 0).toUInt32
  if dc ≥ 0x80 then (leadBits dc).2 else 0

/-- How many lead bytes come before pass `j`. -/
def leads (j : Nat) : Nat :=
  (List.range j).countP fun i => trailing contents i ≠ 0

/-- The cursor after `n` reads that were let through. -/
def cursorAfter (n : Nat) : UInt32 :=
  s.file.cur_offset + UInt32.ofNat n * code s

/-- The trailing bytes that pass `j` asks for are bytes of the file. -/
def TrailThere (j : Nat) : Prop :=
  (cursorAfter s (leads contents j)).toNat + (trailing contents j).toNat ≤ contents.length

/-- The bytes read for the lead byte of pass `j`. -/
def trail (j : Nat) : List UInt8 :=
  (contents.drop (cursorAfter s (leads contents j)).toNat).take (trailing contents j).toNat

/-- How many bytes in front of a list are continuation bytes. -/
def continuations (bs : List UInt8) : Nat :=
  (bs.takeWhile fun b => b &&& 0xC0 = 0x80).length

/-- Pass `j` comes after a lead byte that was read, with other than one continuation byte. -/
def Miscounted : Nat → Prop
  | 0 => False
  | j + 1 => trailing contents j ≠ 0 ∧ continuations (trail s contents j) ≠ 1

/-- Pass `j` goes round again: no lead byte, or one with as many bytes as the error code says. -/
def GoesOn (j : Nat) : Prop :=
  WordThere contents j ∧ ¬ Miscounted s contents j ∧
    (trailing contents j = 0 ∨ trailing contents j = code s ∧ TrailThere s contents j)

/-- Pass `i` leaves the loop: a miscount before it, or a lead byte whose trailing bytes are
refused or do not number what the error code says. -/
def Leaves (i : Nat) : Prop :=
  WordThere contents i ∧ (Miscounted s contents i ∨ trailing contents i ≠ 0 ∧
    (s.file.size < trailing contents i + cursorAfter s (leads contents i) ∨
      TrailThere s contents i ∧ trailing contents i ≠ code s))

instance : DecidablePred (Miscounted s contents)
  | 0 => inferInstanceAs (Decidable False)
  | j + 1 => inferInstanceAs (Decidable (trailing contents j ≠ 0 ∧ _))

instance (j : Nat) : Decidable (TrailThere s contents j) :=
  inferInstanceAs (Decidable (_ ≤ _))

/-- The state after `n` reads that were let through. -/
def moved (n : Nat) : State Disk :=
  { s with file := { s.file with cur_offset := cursorAfter s n } }

/-- How many reads the first loop has made when pass `i` leaves it. -/
def readsBy (i : Nat) : Nat :=
  if Miscounted s contents i ∨ ¬ TrailThere s contents i then leads contents i
  else leads contents (i + 1)

/-- The second loop does not come to ask for the byte at the last 32-bit position: there is no room
in the line, or the cursor is not there and, where it moves on by 1 and the file goes up to there,
a newline or enough other characters keep it from there. -/
def LineEnds (len : Int) : Prop :=
  len ≤ 1 ∨ s.file.cur_offset ≠ 0xFFFFFFFF ∧ (code s = 1 → s.file.size = 0xFFFFFFFF →
    0x0A ∈ contents.drop s.file.cur_offset.toNat ∨
      len ≤ 1 + ((contents.drop s.file.cur_offset.toNat).filter (· ≠ 0x0D)).length)

/-- Some pass of the first loop leaves it while all before go round again, and the second loop
ends from there. -/
def LineReadable (len : Int) : Prop :=
  ∃ i, (∀ j < i, GoesOn s contents j) ∧ Leaves s contents i ∧
    LineEnds (moved s (readsBy s contents i)) contents len

variable {s contents}

/-- No pass leaves the first loop on a file without a lead byte, such as one of plain ASCII. -/
theorem not_readable_of_no_lead (h : ∀ j, trailing contents j = 0) (len : Int) :
    ¬ LineReadable s contents len := by
  rintro ⟨i, _, ⟨_, hmis | ⟨hlead, _⟩⟩, _⟩
  · cases i with
    | zero => exact hmis
    | succ i => exact hmis.1 (h i)
  · exact hlead (h i)

end Conditions

/-! ## Reading an open file -/

theorem mapM_some {α : Type} (l : List α) : (l.map some).mapM id = some l := by
  induction l with
  | nil => rfl
  | cons a l ih => simp [ih]

section Reads

variable {Disk : Type} {A : Allocator} {X : InodeLayer Disk} {s : State Disk}
  {contents : List UInt8} {size : UInt32}

theorem Open.moved (h : Open s contents) (n : Nat) : Open (moved s n) contents :=
  ⟨h.buffer, h.block, h.size⟩

theorem Open.advanced (h : Open s contents) : Open (advanced s) contents :=
  ⟨h.buffer, h.block, h.size⟩

theorem moved_zero (s : State Disk) : moved s 0 = s := by
  simp [Fs.moved, cursorAfter]

theorem advanced_moved (s : State Disk) (n : Nat) : advanced (moved s n) = moved s (n + 1) := by
  have hcursor : cursorAfter s n + code s = cursorAfter s (n + 1) := by
    rw [cursorAfter, cursorAfter, UInt32.ofNat_add, UInt32.add_mul, UInt32.ofNat_one,
      UInt32.one_mul, UInt32.add_assoc]
  calc advanced (moved s n)
      = { s with file := { s.file with cur_offset := cursorAfter s n + code s } } := rfl
    _ = moved s (n + 1) := by rw [hcursor, Fs.moved]

theorem Open.bufferFrom (h : Open s contents) (off : UInt32) :
    bufferFrom s off = (contents.drop off.toNat).map some := by
  rcases h.block with ⟨b, hb, hbytes⟩
  rw [Fs.bufferFrom, hb, List.map_drop, ← hbytes]

theorem f_read_inside (h : Open s contents)
    (hin : s.file.cur_offset.toNat + size.toNat ≤ contents.length) :
    f_read A X s size = some ((code s,
      ((contents.drop s.file.cur_offset.toNat).take size.toNat).map some), advanced s) := by
  rcases h.block with ⟨b, hb, hbytes⟩
  have hsize := s.file.size.toNat_lt
  have hpass : ¬ s.file.size < size + s.file.cur_offset := by
    rw [UInt32.lt_iff_toNat_lt, UInt32.toNat_add, ← h.size]
    omega
  have hfetch : fetch s.live s.file.file_buffer s.file.cur_offset.toNat size.toNat =
      some (((contents.drop s.file.cur_offset.toNat).take size.toNat).map some) := by
    rw [fetch_of_block hb (by rw [hbytes, List.length_map]; exact hin), hbytes, List.map_take,
      List.map_drop]
  rw [f_read_eq (t := s) hpass (by rw [if_neg h.buffer]), hfetch]
  rfl

theorem f_read_outside (h : Open s contents) (hpass : ¬ s.file.size < size + s.file.cur_offset)
    (hout : ¬ s.file.cur_offset.toNat + size.toNat ≤ contents.length) :
    f_read A X s size = none := by
  rcases h.block with ⟨b, hb, hbytes⟩
  have hfetch : fetch s.live s.file.file_buffer s.file.cur_offset.toNat size.toNat = none := by
    apply fetch_outside hb
    rw [hbytes, List.length_map]
    exact Nat.lt_of_not_le hout
  rw [f_read_eq (t := s) hpass (by rw [if_neg h.buffer]), hfetch]
  rfl

end Reads

/-! ## The second loop -/

section Lines

variable {Disk : Type} {A : Allocator} {X : InodeLayer Disk} {s : State Disk}
  {contents : List UInt8} {len : Int} {line : List UInt8}

theorem linePass_full (h : ¬ (line.length : Int) < len) :
    linePass A X len ⟨s, line⟩ = some (.done ⟨s, line⟩) :=
  if_neg h

theorem linePass_refused (h : (line.length : Int) < len)
    (hrefused : s.file.size < 1 + s.file.cur_offset) :
    linePass A X len ⟨s, line⟩ = some (.done ⟨s, line⟩) := by
  simp [linePass, h, f_read_refused hrefused, (by decide : (-1 : UInt32) ≠ 1)]

theorem linePass_outside (hs : Open s contents) (h : (line.length : Int) < len)
    (hlast : s.file.cur_offset = 0xFFFFFFFF) : linePass A X len ⟨s, line⟩ = none := by
  have hsize := s.file.size.toNat_lt
  have hout : f_read A X s 1 = none := by
    apply f_read_outside hs
    · rw [hlast, UInt32.lt_iff_toNat_lt]
      exact Nat.not_lt_zero _
    · rw [hlast, hs.size]
      simp
      omega
  simp [linePass, h, hout]

/-- A byte of the file is there to be read. -/
theorem linePass_inside (hs : Open s contents) (h : (line.length : Int) < len) {b : UInt8}
    {rest : List UInt8} (hrest : contents.drop s.file.cur_offset.toNat = b :: rest) :
    linePass A X len ⟨s, line⟩ = some (
      if code s ≠ 1 then .done ⟨advanced s, line⟩
      else if b = 0x0D then .again ⟨advanced s, line⟩
      else if b = 0x0A then .done ⟨advanced s, line ++ [b]⟩
      else .again ⟨advanced s, line ++ [b]⟩) := by
  have hin : s.file.cur_offset.toNat + (1 : UInt32).toNat ≤ contents.length := by
    have := congrArg List.length hrest
    rw [List.length_drop, List.length_cons] at this
    rw [UInt32.toNat_one]
    omega
  have hread : f_read A X s 1 = some ((code s, [some b]), advanced s) := by
    rw [f_read_inside hs hin, hrest]
    rfl
  rw [linePass, if_pos h, hread]
  by_cases hcode : code s ≠ 1
  · simp [hcode]
  · by_cases hcr : b = 0x0D
    · simp [hcode, hcr]
    · by_cases hlf : b = 0x0A
      · simp [hcode, hlf]
      · simp [hcode, hcr, hlf]

theorem drop_advanced (hcode : code s = 1) {b : UInt8} {rest : List UInt8}
    (hlast : s.file.cur_offset ≠ 0xFFFFFFFF)
    (hrest : contents.drop s.file.cur_offset.toNat = b :: rest) :
    (advanced s).file.cur_offset.toNat = s.file.cur_offset.toNat + 1 ∧
      contents.drop (advanced s).file.cur_offset.toNat = rest := by
  have hcursor : (advanced s).file.cur_offset.toNat = s.file.cur_offset.toNat + 1 := by
    have hne : s.file.cur_offset.toNat ≠ 4294967295 := fun h => hlast (UInt32.toNat_inj.mp h)
    have hlt := s.file.cur_offset.toNat_lt
    have hsum : (advanced s).file.cur_offset = s.file.cur_offset + code s := rfl
    rw [hsum, hcode, UInt32.toNat_add, UInt32.toNat_one]
    omega
  refine ⟨hcursor, ?_⟩
  rw [hcursor, ← List.drop_drop, hrest]
  rfl

/-- Behind the last byte a read is refused. -/
theorem refused_at_end (hs : Open s contents) (hend : contents.drop s.file.cur_offset.toNat = [])
    (hlast : s.file.cur_offset ≠ 0xFFFFFFFF) : s.file.size < 1 + s.file.cur_offset := by
  have hle : contents.length ≤ s.file.cur_offset.toNat := List.drop_eq_nil_iff.mp hend
  have hne : s.file.cur_offset.toNat ≠ 4294967295 := fun h => hlast (UInt32.toNat_inj.mp h)
  have hlt := s.file.cur_offset.toNat_lt
  rw [UInt32.lt_iff_toNat_lt, UInt32.toNat_add, UInt32.toNat_one, ← hs.size]
  omega

/-- At a byte of the file the cursor is before its end. -/
theorem cursor_before_end (hs : Open s contents) {b : UInt8} {rest : List UInt8}
    (hrest : contents.drop s.file.cur_offset.toNat = b :: rest) :
    s.file.cur_offset.toNat < s.file.size.toNat := by
  have hlength := congrArg List.length hrest
  rw [List.length_drop, List.length_cons] at hlength
  rw [← hs.size]
  omega

theorem cursor_ne_last (h : s.file.cur_offset.toNat < s.file.size.toNat) :
    s.file.cur_offset ≠ 0xFFFFFFFF := by
  intro heq
  have hlt := s.file.size.toNat_lt
  have hmax : s.file.cur_offset.toNat = 4294967295 := congrArg UInt32.toNat heq
  omega

/-- The characters left and the room decide whether the loop ends before the last position. -/
theorem line_returns_iff (hs : Open s contents) {rest : List UInt8}
    (hrest : contents.drop s.file.cur_offset.toNat = rest) :
    (∃ v, Returns (linePass A X len) ⟨s, line⟩ v) ↔
      len ≤ line.length ∨ s.file.cur_offset ≠ 0xFFFFFFFF ∧
        (code s = 1 → s.file.size = 0xFFFFFFFF →
          0x0A ∈ rest ∨ len ≤ line.length + (rest.filter (· ≠ 0x0D)).length) := by
  induction rest generalizing s line with
  | nil =>
      by_cases hroom : (line.length : Int) < len
      · by_cases hlast : s.file.cur_offset = 0xFFFFFFFF
        · have hnot : ¬ ∃ v, Returns (linePass A X len) ⟨s, line⟩ v := by
            rintro ⟨v, hv⟩
            exact not_returns_undefined (linePass_outside hs hroom hlast) hv
          refine iff_of_false hnot ?_
          rintro (hfull | ⟨hne, _⟩)
          · exact absurd hroom (Int.not_lt.mpr hfull)
          · exact hne hlast
        · have hrefused := refused_at_end hs hrest hlast
          refine iff_of_true ⟨_, (returns_done (linePass_refused hroom hrefused)).mpr rfl⟩
            (.inr ⟨hlast, ?_⟩)
          -- a file that goes up to the last position has the cursor there
          intro _ hsize
          have hlength : contents.length = 4294967295 := hs.size.trans (congrArg UInt32.toNat hsize)
          have hend : contents.length ≤ s.file.cur_offset.toNat := List.drop_eq_nil_iff.mp hrest
          have hlt := s.file.cur_offset.toNat_lt
          have hmax : s.file.cur_offset.toNat = 4294967295 := by omega
          exact absurd (UInt32.toNat_inj.mp hmax) hlast
      · exact iff_of_true ⟨_, (returns_done (linePass_full hroom)).mpr rfl⟩
          (.inl (Int.not_lt.mp hroom))
  | cons b rest ih =>
      by_cases hroom : (line.length : Int) < len
      swap
      · exact iff_of_true ⟨_, (returns_done (linePass_full hroom)).mpr rfl⟩
          (.inl (Int.not_lt.mp hroom))
      have hpass := linePass_inside (A := A) (X := X) hs hroom hrest
      have hlast := cursor_ne_last (cursor_before_end hs hrest)
      have hfull : ¬ len ≤ line.length := Int.not_le.mpr hroom
      by_cases hcode : code s = 1
      swap
      · rw [if_pos hcode] at hpass
        exact iff_of_true ⟨_, (returns_done hpass).mpr rfl⟩
          (.inr ⟨hlast, fun h => absurd h hcode⟩)
      rw [if_neg (by simp [hcode])] at hpass
      rcases drop_advanced hcode hlast hrest with ⟨hcursor, hdrop⟩
      have hstep : ∀ line' : List UInt8,
          (∃ v, Returns (linePass A X len) ⟨advanced s, line'⟩ v) ↔
            (s.file.size = 0xFFFFFFFF →
              0x0A ∈ rest ∨ len ≤ line'.length + (rest.filter (· ≠ 0x0D)).length) := by
        intro line'
        rw [ih hs.advanced hdrop]
        constructor
        · rintro (hle | ⟨_, hmore⟩) hsize
          · exact .inr (by omega)
          · exact hmore hcode hsize
        · intro hmore
          by_cases hnext : (advanced s).file.cur_offset = 0xFFFFFFFF
          · -- the cursor is at the end of a file that goes up to the last position
            have hsize : s.file.size.toNat = 4294967295 := by
              have hlt := s.file.size.toNat_lt
              have hbefore := cursor_before_end hs hrest
              rw [hnext] at hcursor
              simp at hcursor
              omega
            have hnil : rest = [] := by
              rw [← hdrop, List.drop_eq_nil_iff, hs.size, hsize, hnext]
              exact Nat.le_refl _
            have hroom' := hmore (UInt32.toNat_inj.mp hsize)
            rw [hnil] at hroom'
            exact .inl (by simpa using hroom')
          · exact .inr ⟨hnext, fun _ => hmore⟩
      by_cases hcr : b = 0x0D
      · rw [if_pos hcr] at hpass
        simp only [returns_again hpass, hstep]
        simp [hfull, hlast, hcode, hcr]
      · rw [if_neg hcr] at hpass
        by_cases hlf : b = 0x0A
        · rw [if_pos hlf] at hpass
          exact iff_of_true ⟨_, (returns_done hpass).mpr rfl⟩
            (.inr ⟨hlast, fun _ _ => .inl (by simp [hlf])⟩)
        · rw [if_neg hlf] at hpass
          simp only [returns_again hpass, hstep]
          simp [hfull, hlast, hcode, hcr, Ne.symm hlf, add_assoc, add_comm]

/-- A pass adds at most one character, and only where there is room. -/
theorem linePass_line {v : Line Disk} {pass : Pass (Line Disk) (Line Disk)}
    (hfits : (v.line.length : Int) ≤ len) (h : linePass A X len v = some pass) :
    ∃ t : Line Disk, (pass = .again t ∨ pass = .done t) ∧ (t.line.length : Int) ≤ len := by
  by_cases hroom : (v.line.length : Int) < len
  swap
  · rw [linePass, if_neg hroom] at h
    cases h
    exact ⟨v, .inr rfl, hfits⟩
  rw [linePass, if_pos hroom, Option.bind_eq_bind, Option.bind_eq_some_iff] at h
  rcases h with ⟨⟨⟨rc, copied⟩, t⟩, _, h⟩
  dsimp only at h
  by_cases hrc : rc ≠ 1
  · rw [if_pos hrc] at h
    cases h
    exact ⟨_, .inr rfl, hfits⟩
  · rw [if_neg hrc, Option.bind_eq_bind, Option.bind_eq_some_iff] at h
    rcases h with ⟨bytes, _, h⟩
    have hmore : ((v.line ++ [bytes.headD 0]).length : Int) ≤ len := by
      rw [List.length_append, List.length_singleton]
      omega
    by_cases hcr : bytes.headD 0 = 0x0D
    · rw [if_pos hcr] at h
      cases h
      exact ⟨_, .inl rfl, hfits⟩
    · rw [if_neg hcr] at h
      by_cases hlf : bytes.headD 0 = 0x0A
      · rw [if_pos hlf] at h
        cases h
        exact ⟨_, .inr rfl, hmore⟩
      · rw [if_neg hlf] at h
        cases h
        exact ⟨_, .inl rfl, hmore⟩

theorem line_length_le {v t : Line Disk} (hfits : (v.line.length : Int) ≤ len)
    (h : Returns (linePass A X len) v t) : (t.line.length : Int) ≤ len := by
  apply h.invariant (I := fun v : Line Disk => (v.line.length : Int) ≤ len) _ _ hfits
  · intro v t hv hpass
    rcases linePass_line hv hpass with ⟨t', heq | heq, ht'⟩
    · cases heq
      exact ht'
    · cases heq
  · intro v t hv hpass
    rcases linePass_line hv hpass with ⟨t', heq | heq, ht'⟩
    · cases heq
    · cases heq
      exact ht'

end Lines

/-! ## The first loop -/

section Scan

variable {Disk : Type} {A : Allocator} {X : InodeLayer Disk} {s : State Disk}
  {contents : List UInt8} {i j : Nat}

/-! ### One word -/

theorem strncpyFrom_some (cs : List UInt8) (n : Nat) :
    strncpyFrom (cs.map some) n =
      if n ≤ cs.length ∨ 0 ∈ cs then some (Stdlib.strncpy cs n) else none := by
  induction cs generalizing n with
  | nil =>
      cases n with
      | zero => rfl
      | succ n => simp [strncpyFrom]
  | cons c cs ih =>
      cases n with
      | zero => simp [strncpyFrom, Stdlib.strncpy]
      | succ n =>
          by_cases hc : c = 0
          · simp [strncpyFrom, Stdlib.strncpy, hc]
          · rw [List.map_cons, strncpyFrom, if_neg hc, ih]
            by_cases hthere : n ≤ cs.length ∨ 0 ∈ cs
            · rw [if_pos hthere, if_pos (by simpa [Ne.symm hc] using hthere)]
              simp [Stdlib.strncpy, hc]
            · rw [if_neg hthere, if_neg (by simpa [Ne.symm hc] using hthere)]
              rfl

theorem headD_strncpy {cs : List UInt8} {n : Nat} (hn : n ≠ 0) :
    (Stdlib.strncpy cs n).headD 0 = cs.headD 0 := by
  cases cs with
  | nil => cases n <;> simp [Stdlib.strncpy, List.replicate_succ] at *
  | cons c cs =>
      cases n with
      | zero => exact absurd rfl hn
      | succ n =>
          by_cases hc : c = 0
          · simp [Stdlib.strncpy, hc, List.replicate_succ]
          · simp [Stdlib.strncpy, hc]

theorem leadBits_le (dc : UInt32) : (leadBits dc).2.toNat ≤ 3 := by
  simp only [leadBits]
  split_ifs <;> simp

theorem trailing_le (contents : List UInt8) (j : Nat) : (trailing contents j).toNat ≤ 3 := by
  simp only [trailing]
  split
  · exact leadBits_le _
  · exact Nat.zero_le 3

theorem merge_count (bs : List UInt8) (dc : UInt32) :
    (merge bs dc).1 = UInt32.ofNat (continuations bs) := by
  induction bs generalizing dc with
  | nil => rfl
  | cons b bs ih =>
      by_cases hb : b &&& 0xC0 = 0x80
      · simp [merge, continuations, hb, ih, UInt32.ofNat_add]
      · simp [merge, continuations, hb]

theorem continuations_trail_le (s : State Disk) (contents : List UInt8) (j : Nat) :
    continuations (trail s contents j) ≤ 3 :=
  calc continuations (trail s contents j)
      ≤ (trail s contents j).length := (List.takeWhile_sublist _).length_le
    _ ≤ (trailing contents j).toNat := List.length_take_le _ _
    _ ≤ 3 := trailing_le contents j

/-! ### One pass -/

/-- `rc` before pass `j`. -/
def rcBefore (s : State Disk) (contents : List UInt8) : Nat → UInt32
  | 0 => 1
  | j + 1 =>
      if trailing contents j = 0 then 1 else UInt32.ofNat (continuations (trail s contents j))

/-- The variables before pass `j`, as long as the loop goes on. -/
def scanAt (s : State Disk) (contents : List UInt8) (j : Nat) : Scan Disk :=
  ⟨moved s (leads contents j), rcBefore s contents j, wordOffset j⟩

theorem rcBefore_ne_one : rcBefore s contents j ≠ 1 ↔ Miscounted s contents j := by
  cases j with
  | zero => simp [rcBefore, Miscounted]
  | succ j =>
      by_cases hlead : trailing contents j = 0
      · simp [rcBefore, Miscounted, hlead]
      · have hle := continuations_trail_le s contents j
        have hone : UInt32.ofNat (continuations (trail s contents j)) = 1 ↔
            continuations (trail s contents j) = 1 := by
          rw [← UInt32.toNat_inj, UInt32.toNat_ofNat_of_lt' (Nat.lt_of_le_of_lt hle (by decide))]
          rfl
        rw [rcBefore, if_neg hlead, Ne, hone, Miscounted]
        exact ⟨fun h => ⟨hlead, h⟩, fun h => h.2⟩

theorem leads_succ (contents : List UInt8) (j : Nat) :
    leads contents (j + 1) = leads contents j + if trailing contents j = 0 then 0 else 1 := by
  rw [leads, List.range_succ, List.countP_append, leads]
  by_cases hlead : trailing contents j = 0 <;> simp [hlead]

theorem wordOffset_succ (j : Nat) : wordOffset j + 4 = wordOffset (j + 1) := by
  rw [wordOffset, wordOffset, Nat.mul_add, UInt32.ofNat_add]
  rfl

theorem scanPass_hidden (hs : Open s contents) (h : ¬ WordThere contents j) :
    scanPass A X (scanAt s contents j) = none := by
  have hword : strncpyFrom (bufferFrom (scanAt s contents j).state (wordOffset j)) 4 = none := by
    rw [scanAt, (hs.moved _).bufferFrom, strncpyFrom_some]
    exact if_neg h
  rw [scanPass, scanAt]
  rw [scanAt] at hword
  rw [hword]
  rfl

theorem word_read (hs : Open s contents) (h : WordThere contents j) :
    strncpyFrom (bufferFrom (moved s (leads contents j)) (wordOffset j)) 4 =
      some (Stdlib.strncpy (wordBytes contents j) 4) := by
  rw [(hs.moved _).bufferFrom, strncpyFrom_some]
  exact if_pos h

theorem scanPass_miscounted (hs : Open s contents) (h : WordThere contents j)
    (hmis : Miscounted s contents j) :
    scanPass A X (scanAt s contents j) = some (.done (moved s (leads contents j))) := by
  have hrc := rcBefore_ne_one.mpr hmis
  simp [scanPass, scanAt, word_read hs h, hrc]

/-- The byte that pass `j` looks at. -/
theorem scanPass_word (hs : Open s contents) (h : WordThere contents j)
    (hmis : ¬ Miscounted s contents j) :
    scanPass A X (scanAt s contents j) =
      let dc := ((wordBytes contents j).headD 0).toUInt32
      let same := ⟨moved s (leads contents j), 1, wordOffset (j + 1)⟩
      if dc ≥ 0x80 then
        if (leadBits dc).2 = 0 then some (.again same)
        else (f_read A X (moved s (leads contents j)) (leadBits dc).2).bind fun r =>
          if r.1.1 ≠ (leadBits dc).2 then some (.done r.2)
          else (r.1.2.mapM id).bind fun bs =>
            some (.again ⟨r.2, (merge bs (leadBits dc).1).1, wordOffset (j + 1)⟩)
      else some (.again same) := by
  have hrc : rcBefore s contents j = 1 := not_not.mp (mt rcBefore_ne_one.mp hmis)
  simp only [scanPass, scanAt, word_read hs h, Option.bind_eq_bind, Option.bind_some,
    headD_strncpy (by decide : 4 ≠ 0), hrc, wordOffset_succ]
  exact if_neg (not_not.mpr rfl)

theorem scanPass_other (hs : Open s contents) (h : WordThere contents j)
    (hmis : ¬ Miscounted s contents j) (hlead : trailing contents j = 0) :
    scanPass A X (scanAt s contents j) = some (.again (scanAt s contents (j + 1))) := by
  have hnext : scanAt s contents (j + 1) =
      ⟨moved s (leads contents j), 1, wordOffset (j + 1)⟩ := by
    rw [scanAt, leads_succ, if_pos hlead, rcBefore, if_pos hlead]
    rfl
  rw [hnext, scanPass_word hs h hmis]
  simp only [trailing] at hlead
  by_cases hbyte : ((wordBytes contents j).headD 0).toUInt32 ≥ 0x80
  · rw [if_pos hbyte] at hlead
    dsimp only
    rw [if_pos hbyte, if_pos hlead]
  · exact if_neg hbyte

/-- At a lead byte the trailing bytes are read. -/
theorem scanPass_lead (hs : Open s contents) (h : WordThere contents j)
    (hmis : ¬ Miscounted s contents j) (hlead : trailing contents j ≠ 0) :
    ∃ dc, scanPass A X (scanAt s contents j) =
      (f_read A X (moved s (leads contents j)) (trailing contents j)).bind fun r =>
        if r.1.1 ≠ trailing contents j then some (.done r.2)
        else (r.1.2.mapM id).bind fun bs =>
          some (.again ⟨r.2, (merge bs dc).1, wordOffset (j + 1)⟩) := by
  refine ⟨(leadBits ((wordBytes contents j).headD 0).toUInt32).1, ?_⟩
  rw [scanPass_word hs h hmis]
  by_cases hbyte : ((wordBytes contents j).headD 0).toUInt32 ≥ 0x80
  · have htrail : trailing contents j =
        (leadBits ((wordBytes contents j).headD 0).toUInt32).2 := if_pos hbyte
    simp only [htrail] at hlead ⊢
    exact (if_pos hbyte).trans (if_neg hlead)
  · exact absurd (if_neg hbyte) hlead

theorem scanPass_refused (hs : Open s contents) (h : WordThere contents j)
    (hmis : ¬ Miscounted s contents j) (hlead : trailing contents j ≠ 0)
    (hrefused : s.file.size < trailing contents j + cursorAfter s (leads contents j)) :
    scanPass A X (scanAt s contents j) = some (.done (moved s (leads contents j))) := by
  rcases scanPass_lead (A := A) (X := X) hs h hmis hlead with ⟨dc, hpass⟩
  have hne : (-1 : UInt32) ≠ trailing contents j := by
    intro heq
    have hle := trailing_le contents j
    rw [← heq] at hle
    exact absurd hle (by decide)
  have hread : f_read A X (moved s (leads contents j)) (trailing contents j) =
      some ((-1, []), moved s (leads contents j)) := Fs.f_read_refused hrefused
  rw [hpass, hread, Option.bind_some]
  exact if_pos hne

theorem scanPass_outside (hs : Open s contents) (h : WordThere contents j)
    (hmis : ¬ Miscounted s contents j) (hlead : trailing contents j ≠ 0)
    (hpass : ¬ s.file.size < trailing contents j + cursorAfter s (leads contents j))
    (hout : ¬ TrailThere s contents j) : scanPass A X (scanAt s contents j) = none := by
  rcases scanPass_lead (A := A) (X := X) hs h hmis hlead with ⟨dc, heq⟩
  rw [heq, f_read_outside (hs.moved _) hpass hout]
  rfl

/-- The trailing bytes are there; the error code decides. -/
theorem scanPass_read (hs : Open s contents) (h : WordThere contents j)
    (hmis : ¬ Miscounted s contents j) (hlead : trailing contents j ≠ 0)
    (hthere : TrailThere s contents j) :
    scanPass A X (scanAt s contents j) = some (
      if trailing contents j = code s then .again (scanAt s contents (j + 1))
      else .done (moved s (leads contents (j + 1)))) := by
  rcases scanPass_lead (A := A) (X := X) hs h hmis hlead with ⟨dc, heq⟩
  have hleads : leads contents (j + 1) = leads contents j + 1 := by
    rw [leads_succ, if_neg hlead]
  rw [heq, f_read_inside (hs.moved _) hthere, Option.bind_some, advanced_moved, ← hleads]
  by_cases hcode : trailing contents j = code s
  · have hrc : rcBefore s contents (j + 1) = UInt32.ofNat (continuations (trail s contents j)) :=
      if_neg hlead
    rw [if_pos hcode]
    refine (if_neg (not_not.mpr hcode.symm)).trans ?_
    rw [mapM_some, Option.bind_some, merge_count, scanAt, hrc]
    rfl
  · rw [if_neg hcode]
    exact if_pos (Ne.symm hcode)

/-! ### When the loop goes on and when it ends -/

theorem not_refused_of_there (hs : Open s contents) (h : TrailThere s contents j) :
    ¬ s.file.size < trailing contents j + cursorAfter s (leads contents j) := by
  have hsize := s.file.size.toNat_lt
  have hlength := hs.size
  rw [TrailThere] at h
  rw [UInt32.lt_iff_toNat_lt, UInt32.toNat_add]
  omega

/-- Every way a pass can go. -/
theorem scanPass_cases (hs : Open s contents) (j : Nat) :
    (scanPass A X (scanAt s contents j) = none ∧
      ¬ GoesOn s contents j ∧ ¬ Leaves s contents j) ∨
    (scanPass A X (scanAt s contents j) = some (.again (scanAt s contents (j + 1))) ∧
      GoesOn s contents j ∧ ¬ Leaves s contents j) ∨
    (scanPass A X (scanAt s contents j) = some (.done (moved s (readsBy s contents j))) ∧
      ¬ GoesOn s contents j ∧ Leaves s contents j) := by
  by_cases h : WordThere contents j
  swap
  · exact .inl ⟨scanPass_hidden hs h, fun hgo => h hgo.1, fun hleave => h hleave.1⟩
  by_cases hmis : Miscounted s contents j
  · refine .inr (.inr ⟨?_, fun hgo => hgo.2.1 hmis, h, .inl hmis⟩)
    rw [readsBy, if_pos (.inl hmis)]
    exact scanPass_miscounted hs h hmis
  by_cases hlead : trailing contents j = 0
  · refine .inr (.inl ⟨scanPass_other hs h hmis hlead, ⟨h, hmis, .inl hlead⟩, ?_⟩)
    rintro ⟨_, hmis' | ⟨hlead', _⟩⟩
    · exact hmis hmis'
    · exact hlead' hlead
  by_cases hthere : TrailThere s contents j
  · have hpass := not_refused_of_there hs hthere
    have hread := scanPass_read (A := A) (X := X) hs h hmis hlead hthere
    by_cases hcode : trailing contents j = code s
    · rw [if_pos hcode] at hread
      refine .inr (.inl ⟨hread, ⟨h, hmis, .inr ⟨hcode, hthere⟩⟩, ?_⟩)
      rintro ⟨_, hmis' | ⟨_, hrefused | ⟨_, hne⟩⟩⟩
      · exact hmis hmis'
      · exact hpass hrefused
      · exact hne hcode
    · rw [if_neg hcode] at hread
      refine .inr (.inr ⟨?_, ?_, h, .inr ⟨hlead, .inr ⟨hthere, hcode⟩⟩⟩)
      · rw [readsBy, if_neg (not_or.mpr ⟨hmis, not_not.mpr hthere⟩)]
        exact hread
      · rintro ⟨_, _, hzero | ⟨heq, _⟩⟩
        · exact hlead hzero
        · exact hcode heq
  · have hstays : ¬ GoesOn s contents j := by
      rintro ⟨_, _, hzero | ⟨_, hthere'⟩⟩
      · exact hlead hzero
      · exact hthere hthere'
    by_cases hrefused : s.file.size < trailing contents j + cursorAfter s (leads contents j)
    · refine .inr (.inr ⟨?_, hstays, h, .inr ⟨hlead, .inl hrefused⟩⟩)
      rw [readsBy, if_pos (.inr hthere)]
      exact scanPass_refused hs h hmis hlead hrefused
    · refine .inl ⟨scanPass_outside hs h hmis hlead hrefused hthere, hstays, ?_⟩
      rintro ⟨_, hmis' | ⟨_, hrefused' | ⟨hthere', _⟩⟩⟩
      · exact hmis hmis'
      · exact hrefused hrefused'
      · exact hthere hthere'

theorem scan_start (s : State Disk) (contents : List UInt8) :
    (⟨s, 1, 0⟩ : Scan Disk) = scanAt s contents 0 := by
  have hleads : leads contents 0 = 0 := rfl
  rw [scanAt, hleads, moved_zero]
  rfl

theorem scan_returns_iff (hs : Open s contents) {t : State Disk} :
    Returns (scanPass A X) ⟨s, 1, 0⟩ t ↔ ∃ i, (∀ j < i, GoesOn s contents j) ∧
      Leaves s contents i ∧ t = moved s (readsBy s contents i) := by
  have hagain : ∀ j, scanPass A X (scanAt s contents j) =
      some (.again (scanAt s contents (j + 1))) ↔ GoesOn s contents j := by
    intro j
    rcases scanPass_cases (A := A) (X := X) hs j with ⟨hpass, hgo, _⟩ | ⟨hpass, hgo, _⟩ |
      ⟨hpass, hgo, _⟩ <;> simp [hpass, hgo]
  have hdone : ∀ i, scanPass A X (scanAt s contents i) = some (.done t) ↔
      Leaves s contents i ∧ t = moved s (readsBy s contents i) := by
    intro i
    rcases scanPass_cases (A := A) (X := X) hs i with ⟨hpass, _, hleave⟩ | ⟨hpass, _, hleave⟩ |
      ⟨hpass, _, hleave⟩ <;> simp [hpass, hleave, eq_comm]
  rw [scan_start s contents, returns_iff_pass]
  · simp only [hagain, hdone]
  · intro j t hpass
    rcases scanPass_cases (A := A) (X := X) hs j with ⟨heq, _⟩ | ⟨heq, _⟩ | ⟨heq, _⟩
    · rw [heq] at hpass
      cases hpass
    · rw [heq] at hpass
      cases hpass
      rfl
    · rw [heq] at hpass
      cases hpass

end Scan

/-! ## The whole function -/

section Gets

variable {Disk : Type} {A : Allocator} {X : InodeLayer Disk} {s : State Disk}
  {contents : List UInt8} {len : Int}

/-- Both loops return exactly if `f_gets` is bounded: what is written is a line that fits, and a
terminator. -/
theorem gets_iff_loops (hlen : 1 ≤ len) :
    GetsBounded A X s len ↔ ∃ t, Returns (scanPass A X) ⟨s, 1, 0⟩ t ∧
      ∃ v, Returns (linePass A X (len - 1)) ⟨t, []⟩ v := by
  have hpos : 0 < len := hlen
  constructor
  · rintro ⟨fuel, got, written, u, hrun, _⟩
    rw [f_gets, if_pos hpos, Option.bind_eq_bind, Option.bind_eq_some_iff] at hrun
    rcases hrun with ⟨t, hscan, hrun⟩
    rw [Option.bind_eq_bind, Option.bind_eq_some_iff] at hrun
    rcases hrun with ⟨v, hline, _⟩
    exact ⟨t, ⟨fuel, hscan⟩, v, ⟨fuel, hline⟩⟩
  · rintro ⟨t, ⟨fuel, hscan⟩, v, hreturns⟩
    have hroom : ((⟨t, []⟩ : Line Disk).line.length : Int) ≤ len - 1 := by
      simp only [List.length_nil]
      omega
    have hfits := line_length_le hroom hreturns
    rcases hreturns with ⟨more, hline⟩
    refine ⟨max fuel more, decide (v.line ≠ []), v.line ++ [0], v.state, ?_, ?_, by simp⟩
    · rw [f_gets, if_pos hpos, loop_mono hscan (Nat.le_max_left _ _), Option.bind_eq_bind,
        Option.bind_some]
      dsimp only
      rw [loop_mono hline (Nat.le_max_right _ _)]
      rfl
    · rw [List.length_append, List.length_singleton]
      omega

theorem lineEnds_iff (hs : Open s contents) :
    (∃ v, Returns (linePass A X (len - 1)) ⟨s, []⟩ v) ↔ LineEnds s contents len := by
  rw [line_returns_iff hs rfl, LineEnds]
  have hfull : len - 1 ≤ (([] : List UInt8).length : Int) ↔ len ≤ 1 := by
    simp only [List.length_nil]
    omega
  have hroom : ∀ n : Nat, len - 1 ≤ (([] : List UInt8).length : Int) + n ↔ len ≤ 1 + n := by
    intro n
    simp only [List.length_nil]
    omega
  simp only [hfull, hroom]

/-- For every open file and every length, `f_gets` is bounded exactly if the line is readable. -/
theorem f_gets_bounded_iff (hs : Open s contents) (hlen : 1 ≤ len) :
    GetsBounded A X s len ↔ LineReadable s contents len := by
  rw [gets_iff_loops hlen]
  constructor
  · rintro ⟨t, hscan, hline⟩
    rcases (scan_returns_iff hs).mp hscan with ⟨i, hgo, hleave, rfl⟩
    exact ⟨i, hgo, hleave, (lineEnds_iff (hs.moved _)).mp hline⟩
  · rintro ⟨i, hgo, hleave, hline⟩
    exact ⟨_, (scan_returns_iff hs).mpr ⟨i, hgo, hleave, rfl⟩,
      (lineEnds_iff (hs.moved _)).mpr hline⟩

end Gets

/-- An open file with the given contents, as the only block on the heap. -/
def heldFile (contents : List UInt8) : State (Nat → UInt8) where
  file := {
    inode := 12, size := UInt32.ofNat contents.length, file_buffer := 24, cur_offset := 0,
    refcount := 1 }
  live := [⟨24, .fileBuffer, contents.map some⟩]
  log := [.taken 24 contents.length]
  ret := 0
  disk := fun i => contents.getD i 0

/-- A file that starts with a two-byte sequence: the first pass leaves the loop. -/
theorem f_gets_bounded_lead : GetsBounded stacked flatDisk (heldFile [0xC3, 0xA9, 0x0A, 0x0A]) 8 := by
  have hopen : Open (heldFile [0xC3, 0xA9, 0x0A, 0x0A]) [0xC3, 0xA9, 0x0A, 0x0A] :=
    ⟨by decide, ⟨_, rfl, rfl⟩, rfl⟩
  refine (f_gets_bounded_iff hopen (by decide)).mpr ⟨0, nofun, ⟨.inl (by decide), .inr ?_⟩, .inr ?_⟩
  · exact ⟨by decide, .inr ⟨by decide, by decide⟩⟩
  · exact ⟨by decide, fun hcode => absurd hcode (by decide)⟩

/-- A file of four letters: the second pass reads behind its end. -/
theorem f_gets_reads_on : Open (heldFile [0x61, 0x62, 0x63, 0x64]) [0x61, 0x62, 0x63, 0x64] ∧
    ¬ GetsBounded stacked flatDisk (heldFile [0x61, 0x62, 0x63, 0x64]) 8 := by
  refine ⟨⟨by decide, ⟨_, rfl, rfl⟩, rfl⟩, ?_⟩
  rw [gets_iff_loops (by decide)]
  rintro ⟨t, hscan, _⟩
  have hfirst : scanPass stacked flatDisk ⟨heldFile [0x61, 0x62, 0x63, 0x64], 1, 0⟩ =
      some (.again ⟨heldFile [0x61, 0x62, 0x63, 0x64], 1, 4⟩) := rfl
  have hsecond : scanPass stacked flatDisk ⟨heldFile [0x61, 0x62, 0x63, 0x64], 1, 4⟩ = none := rfl
  rw [returns_again hfirst] at hscan
  exact not_returns_undefined hsecond hscan

end Fs
end EmbeddedOS
