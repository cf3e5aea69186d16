import EmbeddedOS.Fs.FileCursor

/-!
# The lifetime of a file's buffer

The buffer is taken when a file without one is opened, shared by all who have the file open, and
culled by the last close. The pointer keeps its value when that happens.
-/

namespace EmbeddedOS
namespace Fs

open Base

section Lifetime

variable {Disk : Type} (A : Allocator)

/-! ## What the calls promise -/

/-- The addresses culled so far, in order. -/
def culls (log : List HeapEvent) : List Nat :=
  log.filterMap fun
    | .taken _ _ => none
    | .culled a => some a

/-- The close that drops the reference count to 0. -/
def LastClose (s : State Disk) : Call → Prop
  | .f_close => s.file.refcount = 1
  | .fs_open | .f_open _ | .f_read _ | .f_write _ _ => False

instance (s : State Disk) : DecidablePred (LastClose s) := fun call =>
  match call with
  | .f_close => inferInstanceAs (Decidable (s.file.refcount = 1))
  | .fs_open | .f_open _ | .f_read _ | .f_write _ _ => inferInstanceAs (Decidable False)

/-- After the call the buffer is `NULL` or backed; a read in the file has copied from a backed
one; the last close has culled the buffer, once, and nothing else is culled. -/
structure LifetimeSpec (s : State Disk) (call : Call) (t : State Disk) : Prop where
  owned : t.file.file_buffer = NULL ∨ Backed t
  reads : ∀ size, call = .f_read size → InFile s size → Backed t
  culled : culls t.log = culls s.log ++
    if LastClose s call ∧ s.file.file_buffer ≠ NULL then [s.file.file_buffer] else []

/-! ## When they keep it -/

/-- The condition on one call. No close is the last one of a file with a buffer; a read in the
file that needs a buffer gets one; a read beyond the file does not wrap. -/
def Lasting (s : State Disk) : Call → Prop
  | .fs_open | .f_open _ | .f_write _ _ => True
  | .f_read size =>
      if InFile s size then
        s.file.file_buffer = NULL → (A.place s.log s.live s.file.size.toNat).isSome
      else
        s.file.size < size + s.file.cur_offset
  | .f_close => s.file.refcount = 1 → s.file.file_buffer = NULL

/-! ## The invariant -/

/-- The buffer is in order and the reference count an `int`. -/
structure Counted (s : State Disk) : Prop extends Ready s where
  low : -2147483648 ≤ s.file.refcount
  high : s.file.refcount < 2147483648

variable {A} {X : InodeLayer Disk} {s t : State Disk} {call : Call} {out : Outcome}

theorem Ready.owned (h : Ready s) : s.file.file_buffer = NULL ∨ Backed s := by
  by_cases hbuf : s.file.file_buffer = NULL
  · exact .inl hbuf
  · exact .inr (h.buffer hbuf)

theorem culls_append (log log' : List HeapEvent) : culls (log ++ log') = culls log ++ culls log' :=
  List.filterMap_append

theorem i32_range (x : Int) : -2147483648 ≤ i32 x ∧ i32 x < 2147483648 := by
  rw [i32_eq]
  omega

/-- Opening culls nothing and leaves the reference count. -/
theorem Opened.frame (h : Opened A X s t) :
    culls t.log = culls s.log ∧ t.file.refcount = s.file.refcount := by
  cases h with
  | kept _ heq => exact heq ▸ ⟨rfl, rfl⟩
  | noBuffer _ _ heq => exact heq ▸ ⟨rfl, rfl⟩
  | noInode p _ _ _ heq =>
      refine heq ▸ ⟨?_, rfl⟩
      exact (culls_append _ _).trans (List.append_nil _)
  | filled p q _ _ _ _ _ heq =>
      refine heq ▸ ⟨?_, rfl⟩
      rw [culls_append, culls_append]
      simp [culls]

theorem Counted.counted (h : Counted s) : Counted (counted s) where
  null := h.null
  buffer := h.buffer
  low := by
    unfold Fs.counted
    split
    · exact (i32_range _).1
    · exact h.low
  high := by
    unfold Fs.counted
    split
    · exact (i32_range _).2
    · exact h.high

theorem Counted.opened (h : Counted s) (hopen : Opened A X s t) : Counted t where
  toReady := h.toReady.opened hopen
  low := by
    rw [hopen.frame.2]
    exact h.low
  high := by
    rw [hopen.frame.2]
    exact h.high

/-- A file without a buffer has one after opening if the heap has room for it. -/
theorem Opened.buffer_iff (h : Opened A X s t) : t.file.file_buffer ≠ NULL ↔
    (s.file.file_buffer = NULL → (A.place s.log s.live s.file.size.toNat).isSome) := by
  cases h with
  | kept hbuf heq => simp [heq, hbuf]
  | noBuffer hbuf hplace heq => simp [heq, hbuf, hplace]
  | noInode p hbuf hplace _ heq =>
      have hp := (A.fresh _ _ _ _ hplace).1
      simp [heq, hplace, hp]
  | filled p q hbuf hplace _ _ _ heq =>
      have hp := (A.fresh _ _ _ _ hplace).1
      simp [heq, hplace, hp]

/-- A backed buffer is not at `NULL`. -/
theorem Ready.ne_null (h : Ready s) (hback : Backed s) : s.file.file_buffer ≠ NULL := by
  intro hnull
  rcases hback with ⟨b, hb, _⟩
  rw [hnull, h.null] at hb
  cases hb

/-! ## One call -/

/-- A call that culls nothing and leaves the buffer in order. -/
theorem LifetimeSpec.of_frame (ht : Ready t) (hlast : ¬ LastClose s call)
    (hreads : ∀ size, call = .f_read size → InFile s size → Backed t)
    (hculls : culls t.log = culls s.log) : LifetimeSpec s call t where
  owned := ht.owned
  reads := hreads
  culled := by
    rw [if_neg (fun h => hlast h.1), List.append_nil]
    exact hculls

/-- The state that a read in the file hands to `ext2_open`, or reads from. -/
def atRead (s : State Disk) : State Disk :=
  if s.file.file_buffer = NULL then counted s else s

theorem Counted.atRead (h : Counted s) : Counted (atRead s) := by
  unfold Fs.atRead
  split
  · exact h.counted
  · exact h

theorem atRead_frame (s : State Disk) : (atRead s).log = s.log ∧ (atRead s).live = s.live ∧
    (atRead s).file.file_buffer = s.file.file_buffer ∧ (atRead s).file.size = s.file.size := by
  unfold atRead
  split <;> exact ⟨rfl, rfl, rfl, rfl⟩

/-- A read in the file, once it has its buffer. -/
theorem lifetime_read_in {size : UInt32} (hs : Counted s) (hin : InFile s size)
    (hopen : Opened A X (atRead s) t)
    (hrun : step A X s (.f_read size) =
      (fetch t.live t.file.file_buffer s.file.cur_offset.toNat size.toNat).map
        fun copied => (⟨UInt32.ofNat (u32 t.ret), copied, 0⟩, advanced t)) :
    (∃ out t', step A X s (.f_read size) = some (out, t') ∧
      LifetimeSpec s (.f_read size) t') ↔ Lasting A s (.f_read size) := by
  obtain ⟨hlog, hlive, hbuffer, hsize⟩ := atRead_frame s
  have ht : Counted t := hs.atRead.opened hopen
  have hneeds : t.file.file_buffer ≠ NULL ↔ Lasting A s (.f_read size) := by
    rw [hopen.buffer_iff, Lasting, if_pos hin, hlog, hlive, hbuffer, hsize]
  rw [← hneeds, hrun]
  constructor
  · rintro ⟨out, t', hsome, hspec⟩
    rw [Option.map_eq_some_iff] at hsome
    rcases hsome with ⟨copied, _, heq⟩
    cases heq
    exact (ht.toReady.moved _).ne_null (hspec.reads size rfl hin)
  · intro hne
    rcases ht.buffer hne with ⟨b, hb, huse, hlen⟩
    have hfits : s.file.cur_offset.toNat + size.toNat ≤ b.bytes.length := by
      rw [hlen, hopen.size_eq, hsize]
      exact hin
    rw [fetch_of_block hb hfits]
    refine ⟨_, _, rfl, .of_frame (ht.toReady.moved _) id ?_ ?_⟩
    · intro _ _ _
      exact ⟨b, hb, huse, hlen⟩
    · exact hopen.frame.1.trans (congrArg culls hlog)

theorem lifetime_read (hs : Counted s) (size : UInt32) :
    ((∃ out t, step A X s (.f_read size) = some (out, t) ∧ LifetimeSpec s (.f_read size) t) ↔
      Lasting A s (.f_read size)) ∧
    ∀ out t, step A X s (.f_read size) = some (out, t) → Counted t := by
  by_cases hpass : s.file.size < size + s.file.cur_offset
  · have hrun : step A X s (.f_read size) = some (⟨-1, [], 0⟩, s) := by
      rw [step, f_read_refused hpass]
      rfl
    have hout : ¬ InFile s size := fun hin => inFile_admitted hin hpass
    rw [hrun, Lasting, if_neg hout]
    refine ⟨⟨fun _ => hpass, fun _ => ⟨_, _, rfl, ?_⟩⟩, ?_⟩
    · refine .of_frame hs.toReady id ?_ rfl
      rintro _ ⟨⟩ hin
      exact absurd hin hout
    · rintro _ _ ⟨⟩
      exact hs
  rcases access_read (A := A) (X := X) hs.toReady hpass with ⟨t, hopen, _, hrun⟩
  constructor
  · by_cases hin : InFile s size
    · exact lifetime_read_in hs hin hopen hrun
    · have hnone : step A X s (.f_read size) = none := access_wraps hs.toReady hin hpass
      rw [hnone, Lasting, if_neg hin]
      refine ⟨?_, fun h => absurd h hpass⟩
      rintro ⟨_, _, hsome, _⟩
      cases hsome
  · intro out t' hsome
    have ht : Counted t := hs.atRead.opened hopen
    rw [show step A X s (.f_read size) = _ from hrun, Option.map_eq_some_iff] at hsome
    rcases hsome with ⟨copied, _, heq⟩
    cases heq
    exact ⟨ht.toReady.moved _, ht.low, ht.high⟩

/-- Opening, by either name. -/
theorem lifetime_open (hs : Counted s) (h : call = .fs_open ∨ ∃ type, call = .f_open type) :
    ∃ out t, step A X s call = some (out, t) ∧ LifetimeSpec s call t ∧ Counted t := by
  have hopens : ∃ t, fs_open A X s = some t ∧ Counted t ∧ culls t.log = culls s.log := by
    rcases fs_open_spec A X s with ⟨t, hrun, hopen⟩
    exact ⟨t, hrun, hs.counted.opened hopen, hopen.frame.1⟩
  rcases hopens with ⟨t, hrun, ht, hculls⟩
  rcases h with rfl | ⟨type, rfl⟩
  · exact ⟨_, t, by rw [step, hrun]; rfl, .of_frame ht.toReady id (by rintro _ ⟨⟩) hculls, ht⟩
  · by_cases htype : type ≠ FS_FILE
    · exact ⟨_, s, by rw [step, f_open, if_pos htype]; rfl,
        .of_frame hs.toReady id (by rintro _ ⟨⟩) rfl, hs⟩
    · exact ⟨_, t, by rw [step, f_open, if_neg htype, hrun]; rfl,
        .of_frame ht.toReady id (by rintro _ ⟨⟩) hculls, ht⟩

theorem lifetime_write (hs : Counted s) (size : UInt32) (buf : Nat → UInt8) :
    ∃ out t, step A X s (.f_write size buf) = some (out, t) ∧
      LifetimeSpec s (.f_write size buf) t ∧ Counted t := by
  rcases f_write_spec (A := A) (X := X) hs.toReady size buf with
    ⟨written, t, hrun, ht, _, _, hrefs, hlog⟩
  have hculls : culls t.log = culls s.log := by
    rcases hlog with hlog | ⟨q, hlog⟩
    · rw [hlog]
    · rw [hlog, culls_append]
      exact List.append_nil _
  exact ⟨_, t, hrun, .of_frame ht id nofun hculls, ht, by rw [hrefs]; exact hs.low,
    by rw [hrefs]; exact hs.high⟩

/-- Without the last close the reference count of an `int` file does not reach 0. -/
theorem Counted.drops_iff (hs : Counted s) : i32 (s.file.refcount - 1) = 0 ↔ s.file.refcount = 1 := by
  have hlow := hs.low
  have hhigh := hs.high
  rw [i32_eq]
  omega

/-- A close that is not the last one of a file with a buffer. -/
theorem lifetime_close_kept (hs : Counted s) (hkeep : Lasting A s .f_close) :
    ∃ out t, step A X s .f_close = some (out, t) ∧ LifetimeSpec s .f_close t ∧ Counted t := by
  by_cases hmount : s.file.refcount = -1
  · have hlast : ¬ LastClose s .f_close := by
      intro h
      exact absurd (h.symm.trans hmount) (by decide)
    exact ⟨_, s, by rw [step, f_close, if_pos hmount]; rfl, .of_frame hs.toReady hlast nofun rfl, hs⟩
  obtain ⟨hlow, hhigh⟩ := i32_range (s.file.refcount - 1)
  have hready : Ready { s with file := { s.file with refcount := i32 (s.file.refcount - 1) } } :=
    ⟨hs.null, hs.buffer⟩
  refine ⟨⟨0, [], 0⟩, _, ?_, ?_, hready, hlow, hhigh⟩
  · rw [step, f_close, if_neg hmount]
    by_cases hzero : i32 (s.file.refcount - 1) = 0
    · have hbuf : s.file.file_buffer = NULL := hkeep (hs.drops_iff.mp hzero)
      simp [hzero, ext2_close, hbuf]
    · simp [hzero]
  · refine ⟨hready.owned, nofun, ?_⟩
    rw [if_neg, List.append_nil]
    rintro ⟨hlast, hbuf⟩
    exact hbuf (hkeep hlast)

/-- The last close culls the buffer and leaves the pointer to it. -/
theorem lifetime_close_lost (hs : Counted s) (hlast : s.file.refcount = 1)
    (hbuf : s.file.file_buffer ≠ NULL) {out : Outcome}
    (hrun : step A X s .f_close = some (out, t)) : ¬ LifetimeSpec s .f_close t := by
  rcases hs.buffer hbuf with ⟨b, hb, _⟩
  have hzero : i32 (s.file.refcount - 1) = 0 := hs.drops_iff.mpr hlast
  have hclose : f_close s = some { s with
      file := { s.file with refcount := 0 }
      live := s.live.filter fun b => b.addr != s.file.file_buffer
      log := s.log ++ [.culled s.file.file_buffer] } := by
    rw [f_close, if_neg (by omega)]
    simp [hzero, ext2_close, hbuf, del, hb]
  rw [step, hclose] at hrun
  cases hrun
  intro hspec
  rcases hspec.owned with hnull | ⟨c, hc, _⟩
  · exact hbuf hnull
  · rw [blockAt_culled] at hc
    cases hc

/-! ## Runs -/

theorem lifetime_iff (hs : Counted s) (call : Call) :
    (∃ out t, step A X s call = some (out, t) ∧ LifetimeSpec s call t) ↔ Lasting A s call := by
  cases call with
  | fs_open =>
      rcases lifetime_open (A := A) (X := X) hs (.inl rfl) with ⟨out, t, hrun, hspec, _⟩
      exact ⟨fun _ => trivial, fun _ => ⟨out, t, hrun, hspec⟩⟩
  | f_open type =>
      rcases lifetime_open (A := A) (X := X) hs (.inr ⟨type, rfl⟩) with ⟨out, t, hrun, hspec, _⟩
      exact ⟨fun _ => trivial, fun _ => ⟨out, t, hrun, hspec⟩⟩
  | f_read size => exact (lifetime_read hs size).1
  | f_write size buf =>
      rcases lifetime_write (A := A) (X := X) hs size buf with ⟨out, t, hrun, hspec, _⟩
      exact ⟨fun _ => trivial, fun _ => ⟨out, t, hrun, hspec⟩⟩
  | f_close =>
      constructor
      · rintro ⟨out, t, hrun, hspec⟩ hlast
        by_contra hbuf
        exact lifetime_close_lost hs hlast hbuf hrun hspec
      · intro hkeep
        rcases lifetime_close_kept (X := X) hs hkeep with ⟨out, t, hrun, hspec, _⟩
        exact ⟨out, t, hrun, hspec⟩

theorem lifetime_counted (hs : Counted s) (hkeep : Lasting A s call)
    (hrun : step A X s call = some (out, t)) : Counted t := by
  have huse : ∀ {out' t'}, step A X s call = some (out', t') → Counted t' → Counted t := by
    intro out' t' hrun' ht'
    cases hrun'.symm.trans hrun
    exact ht'
  cases call with
  | fs_open =>
      rcases lifetime_open (A := A) (X := X) hs (.inl rfl) with ⟨_, t', hrun', _, ht'⟩
      exact huse hrun' ht'
  | f_open type =>
      rcases lifetime_open (A := A) (X := X) hs (.inr ⟨type, rfl⟩) with ⟨_, t', hrun', _, ht'⟩
      exact huse hrun' ht'
  | f_read size => exact (lifetime_read hs size).2 out t hrun
  | f_write size buf =>
      rcases lifetime_write (A := A) (X := X) hs size buf with ⟨_, t', hrun', _, ht'⟩
      exact huse hrun' ht'
  | f_close =>
      rcases lifetime_close_kept (X := X) hs hkeep with ⟨_, t', hrun', _, ht'⟩
      exact huse hrun' ht'

/-- From a file that nobody has open, every call of a run keeps the buffer's lifetime in order
exactly if each meets its condition. -/
theorem lifetime_kept_iff (hnull : blockAt s.live NULL = none) (hbuf : s.file.file_buffer = NULL)
    (hrefs : s.file.refcount = 0) (calls : List Call) :
    EachCall (step A X) (fun s call _ t => LifetimeSpec s call t) s calls ↔
      Guarded (step A X) (Lasting A) s calls :=
  eachCall_iff_guarded Counted
    (fun _ _ _ _ hs hkeep hrun => lifetime_counted hs hkeep hrun)
    (fun _ call hs => lifetime_iff hs call)
    ⟨⟨hnull, fun h => absurd hbuf h⟩, by omega, by omega⟩ calls

end Lifetime

/-- Two opens, a read of two bytes and one close. -/
theorem lifetime_kept_shared :
    EachCall (step stacked flatDisk) (fun s call _ t => LifetimeSpec s call t) (closedFile 4)
      [.fs_open, .f_open FS_FILE, .f_read 2, .f_close] := by
  refine (lifetime_kept_iff rfl rfl rfl _).mpr ⟨trivial, ?_⟩
  rintro _ _ ⟨⟩
  refine ⟨trivial, ?_⟩
  rintro _ _ ⟨⟩
  refine ⟨?_, ?_⟩
  · rw [Lasting, if_pos (by decide)]
    decide
  rintro _ _ ⟨⟩
  exact ⟨fun hlast => absurd hlast (by decide), fun _ _ _ => trivial⟩

/-- An open and a close leave the pointer to a culled block. -/
theorem buffer_dangles :
    ¬ EachCall (step stacked flatDisk) (fun s call _ t => LifetimeSpec s call t) (closedFile 4)
      [.fs_open, .f_close] := by
  rintro ⟨_, _, ⟨⟩, _, _, _, ⟨⟩, hspec, _⟩
  rcases hspec.owned with hnull | ⟨b, hb, _⟩
  · cases hnull
  · cases hb

end Fs
end EmbeddedOS
