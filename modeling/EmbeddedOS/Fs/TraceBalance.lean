import EmbeddedOS.Fs.Gets
import EmbeddedOS.Fs.Trace

/-!
# The balance of the trace stack

Which calls leave the trace stack at the depth they found it at. `f_read` and `f_close` have early
returns without a pop, and `f_gets` meets those of `f_read` at the end of a file; the other
functions come back on every path. As long as only calls that come back are made, ten entries are
enough.
-/

namespace EmbeddedOS
namespace Fs
namespace Trace

open Base

/-! ## `f_gets` -/

section Code

variable {Disk : Type} (A : Allocator) (X : InodeLayer Disk)

/-- How many bytes a pass of the first loop asks `f_read` for, if it does. -/
def scanReads (v : Scan Disk) : Option UInt32 := do
  let s ← strncpyFrom (bufferFrom v.state v.off) 4
  let dc := (s.headD 0).toUInt32
  if v.rc = 1 ∧ dc ≥ 0x80 ∧ (leadBits dc).2 ≠ 0 then some (leadBits dc).2 else none

/-- A pass of the second loop asks for a byte if there is room. -/
def lineReads (len : Int) (v : Line Disk) : Option UInt32 :=
  if (v.line.length : Int) < len then some 1 else none

/-- The traces of a pass that reads as much, or not at all. -/
def readMarks (file : FILE) (reads : Option UInt32) (w : List Mark) : Prop :=
  match reads with
  | some size => w ∈ f_read (some file) size
  | none => w = []

def scanMarks (v : Scan Disk) : List Mark → Prop :=
  readMarks v.state.file (scanReads v)

def lineMarks (len : Int) (v : Line Disk) : List Mark → Prop :=
  readMarks v.state.file (lineReads len v)

/-- A trace of `f_gets`: those of its loops between a push and a pop. -/
inductive GetsTrace (s : State Disk) (len : Int) : List Mark → Prop
  | scanned {t : State Disk} {v : Line Disk} {u w : List Mark} (hlen : 0 < len)
      (hscan : Traced (scanPass A X) scanMarks ⟨s, 1, 0⟩ u t)
      (hline : Traced (linePass A X (len - 1)) (lineMarks (len - 1)) ⟨t, []⟩ w v) :
      GetsTrace s len (.push :: (u ++ w ++ [.pop]))
  | unscanned {v : Line Disk} {w : List Mark} (hlen : ¬ 0 < len)
      (hline : Traced (linePass A X (len - 1)) (lineMarks (len - 1)) ⟨s, []⟩ w v) :
      GetsTrace s len (.push :: (w ++ [.pop]))

def f_gets (s : State Disk) (len : Int) : Language Mark :=
  {w | GetsTrace A X s len w}

end Code

/-! ### The reads are those of the code -/

section Asked

variable {Disk : Type} {A : Allocator} {X : InodeLayer Disk}

/-- The kernel's state after a pass came from a read of `reads` bytes, or is still `s`. -/
def ReadFrom (A : Allocator) (X : InodeLayer Disk) (s : State Disk) (reads : Option UInt32)
    (t : State Disk) : Prop :=
  match reads with
  | some size => ∃ out, Fs.f_read A X s size = some (out, t)
  | none => t = s

theorem scanPass_reads {v : Scan Disk} {pass : Pass (Scan Disk) (State Disk)}
    (h : scanPass A X v = some pass) :
    ∃ t, ReadFrom A X v.state (scanReads v) t ∧
      (pass = .done t ∨ ∃ rc off, pass = .again ⟨t, rc, off⟩) := by
  rw [scanPass, Option.bind_eq_bind, Option.bind_eq_some_iff] at h
  rcases h with ⟨s, hs, h⟩
  have hreads : scanReads v = if v.rc = 1 ∧ (s.headD 0).toUInt32 ≥ 0x80 ∧
      (leadBits (s.headD 0).toUInt32).2 ≠ 0 then some (leadBits (s.headD 0).toUInt32).2
      else none := by
    rw [scanReads, hs]
    rfl
  rw [hreads]
  dsimp only at h
  by_cases hrc : v.rc ≠ 1
  · rw [if_pos hrc] at h
    cases h
    rw [if_neg fun hread => hrc hread.1]
    exact ⟨v.state, rfl, .inl rfl⟩
  rw [if_neg hrc] at h
  by_cases hbyte : (s.headD 0).toUInt32 ≥ 0x80
  swap
  · rw [if_neg hbyte] at h
    cases h
    rw [if_neg fun hread => hbyte hread.2.1]
    exact ⟨v.state, rfl, .inr ⟨_, _, rfl⟩⟩
  rw [if_pos hbyte] at h
  by_cases hct : (leadBits (s.headD 0).toUInt32).2 = 0
  · rw [if_pos hct] at h
    cases h
    rw [if_neg fun hread => hread.2.2 hct]
    exact ⟨v.state, rfl, .inr ⟨_, _, rfl⟩⟩
  rw [if_neg hct, Option.bind_eq_bind, Option.bind_eq_some_iff] at h
  rcases h with ⟨⟨⟨rc, copied⟩, t⟩, hread, h⟩
  rw [if_pos ⟨not_not.mp hrc, hbyte, hct⟩]
  refine ⟨t, ⟨_, hread⟩, ?_⟩
  dsimp only at h
  split at h
  · cases h
    exact .inl rfl
  · rw [Option.bind_eq_some_iff] at h
    rcases h with ⟨bytes, _, h⟩
    cases h
    exact .inr ⟨_, _, rfl⟩

theorem linePass_reads {len : Int} {v : Line Disk} {pass : Pass (Line Disk) (Line Disk)}
    (h : linePass A X len v = some pass) :
    ∃ t line, ReadFrom A X v.state (lineReads len v) t ∧
      (pass = .done ⟨t, line⟩ ∨ pass = .again ⟨t, line⟩) := by
  by_cases hroom : (v.line.length : Int) < len
  swap
  · rw [linePass, if_neg hroom] at h
    cases h
    rw [lineReads, if_neg hroom]
    exact ⟨v.state, v.line, rfl, .inl rfl⟩
  rw [linePass, if_pos hroom, Option.bind_eq_bind, Option.bind_eq_some_iff] at h
  rcases h with ⟨⟨⟨rc, copied⟩, t⟩, hread, h⟩
  rw [lineReads, if_pos hroom]
  dsimp only at h
  split at h
  · cases h
    exact ⟨t, v.line, ⟨_, hread⟩, .inl rfl⟩
  · rw [Option.bind_eq_bind, Option.bind_eq_some_iff] at h
    rcases h with ⟨bytes, _, h⟩
    split at h
    · cases h
      exact ⟨t, v.line, ⟨_, hread⟩, .inr rfl⟩
    · split at h
      · cases h
        exact ⟨t, _, ⟨_, hread⟩, .inl rfl⟩
      · cases h
        exact ⟨t, _, ⟨_, hread⟩, .inr rfl⟩

end Asked

/-! ## When a read is refused -/

section Conditions

variable {Disk : Type} (s : State Disk) (contents : List UInt8)

/-- Pass `i` of the first loop is at a lead byte whose trailing bytes lie beyond the file. -/
def RefusedAt (i : Nat) : Prop :=
  ¬ Miscounted s contents i ∧ trailing contents i ≠ 0 ∧
    s.file.size < trailing contents i + cursorAfter s (leads contents i)

instance (i : Nat) : Decidable (RefusedAt s contents i) :=
  inferInstanceAs (Decidable (_ ∧ _ ∧ _))

/-- The second loop, with room for so many characters, comes to the end of the file: if it moves
on at all, no newline and too few characters are left, and otherwise nothing is. -/
def RunsOut (rest : List UInt8) (room : Int) : Prop :=
  0 < room ∧ if code s = 1 then 0x0A ∉ rest ∧ ((rest.filter (· ≠ 0x0D)).length : Int) < room
    else rest = []

instance (rest : List UInt8) (room : Int) : Decidable (RunsOut s rest room) :=
  inferInstanceAs (Decidable (_ ∧ _))

/-- `f_gets` returns, and one of its reads has been refused. -/
def Refuses (len : Int) : Prop :=
  0 < len ∧ ∃ i, (∀ j < i, GoesOn s contents j) ∧ Leaves s contents i ∧
    LineEnds (moved s (readsBy s contents i)) contents len ∧
      (RefusedAt s contents i ∨ RunsOut s
        (contents.drop (moved s (readsBy s contents i)).file.cur_offset.toNat) (len - 1))

end Conditions

/-! ## The reads of an open file -/

section Reads

variable {f : FILE} {size : UInt32} {w : List Mark}

/-- A refused read leaves its push behind. -/
theorem f_read_refused_eq (h : f.size < size + f.cur_offset) :
    f_read (some f) size = {[.push]} := by
  simp [f_read, Flow.proc, Flow.block, Flow.seq, Flow.emit, Flow.ret, h]

theorem f_read_open_eq (hbuf : f.file_buffer ≠ NULL) (h : ¬ f.size < size + f.cur_offset) :
    f_read (some f) size = {[.push]} * {[.pop]} := by
  simp [f_read, Flow.proc, Flow.block, Flow.seq, Flow.emit, Flow.ret, Flow.skip, h, hbuf]

theorem f_read_none_eq : f_read none size = {[.push]} := by
  simp [f_read, Flow.proc, Flow.block, Flow.seq, Flow.emit, Flow.ret]

/-- What a read of an open file leaves behind: a push if it is refused. -/
theorem f_read_open_marks (hbuf : f.file_buffer ≠ NULL) (hw : w ∈ f_read (some f) size) :
    ∃ u, Nested 1 u ∧ w = u ++ if f.size < size + f.cur_offset then [.push] else [] := by
  by_cases hrefused : f.size < size + f.cur_offset
  · refine ⟨[], .nil, ?_⟩
    rw [f_read_refused_eq hrefused] at hw
    rw [if_pos hrefused]
    exact hw
  · rw [f_read_open_eq hbuf hrefused] at hw
    rcases hw with ⟨_, rfl, _, rfl, rfl⟩
    refine ⟨[.push, .pop], rfl, ?_⟩
    rw [if_neg hrefused]
    rfl

/-- Without memory for the buffer. -/
theorem ext2_open_fails (h : f.file_buffer = NULL) : [.push, .pop] ∈ ext2_open f := by
  refine .inr ⟨[.push], .inr ?_, [.pop], .inl rfl, rfl⟩
  rw [if_pos h]
  exact .inr ⟨[.push], rfl, [], .inl (.inl (.inl rfl)), rfl⟩

/-- Every read leaves some trace. -/
theorem f_read_nonempty (f : FILE) (size : UInt32) : ∃ w, w ∈ f_read (some f) size := by
  by_cases hrefused : f.size < size + f.cur_offset
  · rw [f_read_refused_eq hrefused]
    exact ⟨_, rfl⟩
  by_cases hbuf : f.file_buffer = NULL
  · have hopening : f_read (some f) size = {[.push]} * (fs_open (some f) * {[.pop]}) := by
      simp [f_read, Flow.proc, Flow.block, Flow.seq, Flow.emit, Flow.ret, Flow.skip, Flow.call,
        hrefused, hbuf]
    have hopen : fs_open (some f) = {[.push]} * (ext2_open f * {[.pop]}) := by
      simp [fs_open, Flow.proc, Flow.block, Flow.seq, Flow.emit, Flow.skip, Flow.call]
    rw [hopening, hopen]
    exact ⟨_, _, rfl, _, ⟨_, ⟨_, rfl, _, ⟨_, ext2_open_fails hbuf, _, rfl, rfl⟩, rfl⟩, _, rfl, rfl⟩,
      rfl⟩
  · rw [f_read_open_eq hbuf hrefused]
    exact ⟨_, _, rfl, _, rfl, rfl⟩

theorem readMarks_total (f : FILE) (reads : Option UInt32) : ∃ w, readMarks f reads w := by
  cases reads with
  | none => exact ⟨[], rfl⟩
  | some size => exact f_read_nonempty f size

end Reads

/-! ## The first loop -/

section Scan

variable {Disk : Type} {A : Allocator} {X : InodeLayer Disk} {s t : State Disk}
  {contents : List UInt8} {i j k : Nat} {w : List Mark}

theorem scanReads_at (hs : Open s contents) (h : WordThere contents j) :
    scanReads (scanAt s contents j) =
      if ¬ Miscounted s contents j ∧ trailing contents j ≠ 0 then some (trailing contents j)
      else none := by
  have hrc : rcBefore s contents j = 1 ↔ ¬ Miscounted s contents j := by
    rw [← rcBefore_ne_one, not_not]
  simp only [scanReads, scanAt, word_read hs h, Option.bind_eq_bind, Option.bind_some,
    headD_strncpy (by decide : 4 ≠ 0), hrc, trailing]
  by_cases hbyte : ((wordBytes contents j).headD 0).toUInt32 ≥ 0x80
  · simp only [hbyte, true_and, if_true]
  · simp only [hbyte, false_and, and_false, ne_eq, not_true_eq_false, if_false]

/-- What pass `j` leaves behind. -/
theorem scanMarks_at (hs : Open s contents) (h : WordThere contents j)
    (hw : scanMarks (scanAt s contents j) w) :
    ∃ u, Nested 1 u ∧ w = u ++ if RefusedAt s contents j then [.push] else [] := by
  rw [scanMarks, scanReads_at hs h] at hw
  by_cases hreads : ¬ Miscounted s contents j ∧ trailing contents j ≠ 0
  · rw [if_pos hreads] at hw
    rcases f_read_open_marks (hs.moved _).buffer hw with ⟨u, hu, heq⟩
    have hrefused : RefusedAt s contents j ↔
        s.file.size < trailing contents j + cursorAfter s (leads contents j) :=
      ⟨fun h => h.2.2, fun h => ⟨hreads.1, hreads.2, h⟩⟩
    simp only [hrefused]
    exact ⟨u, hu, heq⟩
  · rw [if_neg hreads] at hw
    refine ⟨[], .nil, ?_⟩
    rw [if_neg fun hrefused => hreads ⟨hrefused.1, hrefused.2.1⟩]
    exact hw

theorem not_refusedAt_of_goesOn (hs : Open s contents) (h : GoesOn s contents j) :
    ¬ RefusedAt s contents j := by
  rintro ⟨_, hlead, hrefused⟩
  rcases h.2.2 with hzero | ⟨_, hthere⟩
  · exact hlead hzero
  · exact not_refused_of_there hs hthere hrefused

/-- A trace of the first loop from pass `k` on: a push is left if the last pass is refused. -/
theorem scan_traced (hs : Open s contents)
    (h : Traced (scanPass A X) scanMarks (scanAt s contents k) w t) :
    ∃ i, k ≤ i ∧ (∀ j, k ≤ j → j < i → GoesOn s contents j) ∧ Leaves s contents i ∧
      t = moved s (readsBy s contents i) ∧
        ∃ u, Nested 1 u ∧ w = u ++ if RefusedAt s contents i then [.push] else [] := by
  generalize hv : scanAt s contents k = v at h
  induction h generalizing k with
  | done hpass hw =>
      rw [← hv] at hpass hw
      rcases scanPass_cases (A := A) (X := X) hs k with ⟨heq, _⟩ | ⟨heq, _⟩ | ⟨heq, _, hleave⟩
      · rw [heq] at hpass
        cases hpass
      · rw [heq] at hpass
        cases hpass
      · rw [heq] at hpass
        cases hpass
        refine ⟨k, Nat.le_refl k, ?_, hleave, rfl, scanMarks_at hs hleave.1 hw⟩
        intro j hkj hjk
        exact absurd hjk (Nat.not_lt.mpr hkj)
  | again hpass hw _ ih =>
      rw [← hv] at hpass hw
      rcases scanPass_cases (A := A) (X := X) hs k with ⟨heq, _⟩ | ⟨heq, hgo, _⟩ | ⟨heq, _⟩
      · rw [heq] at hpass
        cases hpass
      · rw [heq] at hpass
        cases hpass
        rcases scanMarks_at hs hgo.1 hw with ⟨u, hu, hfirst⟩
        rw [if_neg (not_refusedAt_of_goesOn hs hgo), List.append_nil] at hfirst
        rcases ih rfl with ⟨i, hle, hbefore, hleave, ht, u', hu', hrest⟩
        refine ⟨i, Nat.le_of_succ_le hle, ?_, hleave, ht, u ++ u', hu.append hu', ?_⟩
        · intro j hkj hji
          rcases Nat.eq_or_lt_of_le hkj with rfl | hkj
          · exact hgo
          · exact hbefore j hkj hji
        · rw [hfirst, hrest, List.append_assoc]
      · rw [heq] at hpass
        cases hpass

end Scan

/-! ## The second loop -/

section Lines

variable {Disk : Type} {A : Allocator} {X : InodeLayer Disk} {s : State Disk}
  {contents rest line : List UInt8} {len : Int} {v : Line Disk} {w : List Mark}

theorem lineMarks_full (h : ¬ (line.length : Int) < len)
    (hw : lineMarks len ⟨s, line⟩ w) : w = [] := by
  rw [lineMarks, lineReads, if_neg h] at hw
  exact hw

theorem lineMarks_room (hs : Open s contents) (h : (line.length : Int) < len)
    (hw : lineMarks len ⟨s, line⟩ w) :
    ∃ u, Nested 1 u ∧ w = u ++ if s.file.size < 1 + s.file.cur_offset then [.push] else [] := by
  rw [lineMarks, lineReads, if_pos h] at hw
  exact f_read_open_marks hs.buffer hw

/-- A byte of the file is there, so that the read before it is let through. -/
theorem lineMarks_inside (hs : Open s contents) (h : (line.length : Int) < len) {b : UInt8}
    (hrest : contents.drop s.file.cur_offset.toNat = b :: rest)
    (hw : lineMarks len ⟨s, line⟩ w) : Nested 1 w := by
  rcases lineMarks_room hs h hw with ⟨u, hu, heq⟩
  have hbefore := cursor_before_end hs hrest
  have hlt := s.file.size.toNat_lt
  have hpass : ¬ s.file.size < 1 + s.file.cur_offset := by
    rw [UInt32.lt_iff_toNat_lt, UInt32.toNat_add, UInt32.toNat_one]
    omega
  rw [if_neg hpass, List.append_nil] at heq
  rw [heq]
  exact hu

/-- A trace of the second loop: a push is left if it runs out of file. -/
theorem line_traced (hs : Open s contents) (hrest : contents.drop s.file.cur_offset.toNat = rest)
    (h : Traced (linePass A X len) (lineMarks len) ⟨s, line⟩ w v) :
    ∃ u, Nested 1 u ∧ w = u ++
      if RunsOut s rest (len - line.length) then [.push] else [] := by
  induction rest generalizing s line w with
  | nil =>
      by_cases hroom : (line.length : Int) < len
      · by_cases hlast : s.file.cur_offset = 0xFFFFFFFF
        · exact absurd h (not_traced_undefined (linePass_outside hs hroom hlast))
        · have hrefused := refused_at_end hs hrest hlast
          rcases lineMarks_room hs hroom (h.of_done (linePass_refused hroom hrefused)) with
            ⟨u, hu, heq⟩
          have hout : RunsOut s [] (len - line.length) := by
            refine ⟨by omega, ?_⟩
            split
            · exact ⟨by simp, by simpa using hroom⟩
            · rfl
          rw [if_pos hrefused] at heq
          refine ⟨u, hu, ?_⟩
          rw [if_pos hout]
          exact heq
      · have hnil := lineMarks_full hroom (h.of_done (linePass_full hroom))
        refine ⟨[], .nil, ?_⟩
        rw [if_neg fun hout => hroom (by have := hout.1; omega)]
        exact hnil
  | cons b rest ih =>
      by_cases hroom : (line.length : Int) < len
      swap
      · have hnil := lineMarks_full hroom (h.of_done (linePass_full hroom))
        refine ⟨[], .nil, ?_⟩
        rw [if_neg fun hout => hroom (by have := hout.1; omega)]
        exact hnil
      have hpass := linePass_inside (A := A) (X := X) hs hroom hrest
      -- the last pass reads a byte of the file
      have hends : ∀ t : Line Disk, linePass A X len ⟨s, line⟩ = some (.done t) →
          ¬ RunsOut s (b :: rest) (len - line.length) → ∃ u, Nested 1 u ∧ w = u ++
            if RunsOut s (b :: rest) (len - line.length) then [.push] else [] := by
        intro t hdone hin
        refine ⟨w, lineMarks_inside hs hroom hrest (h.of_done hdone), ?_⟩
        rw [if_neg hin, List.append_nil]
      by_cases hcode : code s = 1
      swap
      · rw [if_pos hcode] at hpass
        refine hends _ hpass ?_
        rintro ⟨_, hout⟩
        rw [if_neg hcode] at hout
        cases hout
      rw [if_neg (not_not.mpr hcode)] at hpass
      rcases drop_advanced hcode (cursor_ne_last (cursor_before_end hs hrest)) hrest with ⟨_, hdrop⟩
      have hgoes : ∀ line' : List UInt8,
          linePass A X len ⟨s, line⟩ = some (.again ⟨advanced s, line'⟩) →
          (RunsOut (advanced s) rest (len - line'.length) ↔
            RunsOut s (b :: rest) (len - line.length)) → ∃ u, Nested 1 u ∧ w = u ++
              if RunsOut s (b :: rest) (len - line.length) then [.push] else [] := by
        intro line' hagain hsame
        rcases h.of_again hagain with ⟨u, u', hu, htraced, rfl⟩
        rcases ih hs.advanced hdrop htraced with ⟨y, hy, rfl⟩
        refine ⟨u ++ y, (lineMarks_inside hs hroom hrest hu).append hy, ?_⟩
        simp only [hsame, List.append_assoc]
      have hmoved : code (advanced s) = 1 := hcode
      by_cases hcr : b = 0x0D
      · rw [if_pos hcr] at hpass
        apply hgoes line hpass
        simp [RunsOut, hmoved, hcode, hcr]
      · rw [if_neg hcr] at hpass
        by_cases hlf : b = 0x0A
        · rw [if_pos hlf] at hpass
          refine hends _ hpass ?_
          rintro ⟨_, hout⟩
          rw [if_pos hcode] at hout
          exact hout.1 (by simp [hlf])
        · rw [if_neg hlf] at hpass
          apply hgoes (line ++ [b]) hpass
          have hcount : ((b :: rest).filter (· ≠ 0x0D)).length =
              (rest.filter (· ≠ 0x0D)).length + 1 := by
            simp [hcr]
          simp only [RunsOut, hmoved, hcode, if_true, List.mem_cons, Ne.symm hlf, false_or, hcount,
            List.length_append, List.length_singleton]
          constructor
          · rintro ⟨_, hline, hless⟩
            exact ⟨by omega, hline, by omega⟩
          · rintro ⟨_, hline, hless⟩
            exact ⟨by omega, hline, by omega⟩

end Lines

/-! ## The whole of `f_gets` -/

section Gets

variable {Disk : Type} {A : Allocator} {X : InodeLayer Disk} {s : State Disk}
  {contents : List UInt8} {len : Int} {w : List Mark}

theorem not_leaves_of_goesOn (hs : Open s contents) {i : Nat} (h : GoesOn s contents i) :
    ¬ Leaves s contents i := by
  rcases h with ⟨_, hmis, hgo⟩
  rintro ⟨_, hmis' | ⟨hlead, hends⟩⟩
  · exact hmis hmis'
  · rcases hgo with hzero | ⟨hcode, hthere⟩
    · exact hlead hzero
    · rcases hends with hrefused | ⟨_, hne⟩
      · exact not_refused_of_there hs hthere hrefused
      · exact hne hcode

theorem leaves_unique (hs : Open s contents) {i j : Nat} (hi : ∀ k < i, GoesOn s contents k)
    (hleave : Leaves s contents i) (hj : ∀ k < j, GoesOn s contents k)
    (hleave' : Leaves s contents j) : i = j := by
  rcases Nat.lt_trichotomy i j with hlt | heq | hlt
  · exact absurd hleave (not_leaves_of_goesOn hs (hj i hlt))
  · exact heq
  · exact absurd hleave' (not_leaves_of_goesOn hs (hi j hlt))

/-- Where the first loop is left at pass `i`, both loops have traces with a push for each read
refused. -/
theorem scanned_marks (hs : Open s contents) {i : Nat} (hi : ∀ j < i, GoesOn s contents j)
    (hleave : Leaves s contents i) {t : State Disk} {v : Line Disk} {u w : List Mark}
    (hscan : Traced (scanPass A X) scanMarks ⟨s, 1, 0⟩ u t)
    (hline : Traced (linePass A X (len - 1)) (lineMarks (len - 1)) ⟨t, []⟩ w v) :
    LineEnds (moved s (readsBy s contents i)) contents len ∧ ∃ y z, Nested 1 y ∧ Nested 1 z ∧
      u = y ++ (if RefusedAt s contents i then [.push] else []) ∧
      w = z ++ (if RunsOut s (contents.drop
        (moved s (readsBy s contents i)).file.cur_offset.toNat) (len - 1) then [.push] else []) := by
  rw [scan_start s contents] at hscan
  rcases scan_traced hs hscan with ⟨j, _, hj, hleave', rfl, y, hy, hu⟩
  cases leaves_unique hs hi hleave (fun k => hj k (Nat.zero_le k)) hleave'
  rcases line_traced (hs.moved _) rfl hline with ⟨z, hz, hw⟩
  rw [List.length_nil, Nat.cast_zero, Int.sub_zero] at hw
  exact ⟨(lineEnds_iff (hs.moved _)).mp ⟨v, hline.returns⟩, y, z, hy, hz, hu, hw⟩

/-- No read is refused: the marks are those of the reads between a push and a pop. -/
theorem f_gets_rises (hs : Open s contents) (h : ¬ Refuses s contents len) :
    Rises 2 (f_gets A X s len) := by
  rintro _ (⟨hlen, hscan, hline⟩ | ⟨hlen, hline⟩)
  · rcases (scan_returns_iff hs).mp hscan.returns with ⟨i, hi, hleave, _⟩
    rcases scanned_marks hs hi hleave hscan hline with ⟨hends, y, z, hy, hz, rfl, rfl⟩
    rw [if_neg fun hrefused => h ⟨hlen, i, hi, hleave, hends, .inl hrefused⟩,
      if_neg fun hout => h ⟨hlen, i, hi, hleave, hends, .inr hout⟩, List.append_nil,
      List.append_nil]
    exact (hy.append hz).bracket
  · have hfull : ¬ (([] : List UInt8).length : Int) < len - 1 := by
      simp only [List.length_nil]
      omega
    rw [lineMarks_full hfull (hline.of_done (linePass_full hfull))]
    exact Nested.nil.bracket

/-- Pushes left behind, in either half, are not made up for. -/
theorem not_balanced_left {y z : List Mark} (hy : Nested 1 y) (hz : Nested 1 z) {p q : Prop}
    [Decidable p] [Decidable q] (h : p ∨ q) :
    ¬ Balanced (.push :: (y ++ (if p then [.push] else []) ++
      (z ++ if q then [.push] else []) ++ [.pop])) := by
  intro hbalanced
  have hkept : level 0 _ = 0 := hbalanced.kept 0
  have hone : ∀ (r : Prop) [Decidable r] (d : Int),
      level d (if r then [.push] else []) = d + if r then 1 else 0 := by
    intro r _ d
    split
    · rfl
    · exact (Int.add_zero d).symm
  have hstart : ∀ w, level 0 (.push :: w) = level 1 w := fun _ => rfl
  have hpop : ∀ d, level d [.pop] = d - 1 := fun _ => rfl
  rw [hstart, level_append, level_append, level_append, level_append, hy.balanced.kept,
    hz.balanced.kept, hone, hone, hpop] at hkept
  rcases h with hp | hq
  · rw [if_pos hp] at hkept
    split at hkept <;> omega
  · rw [if_pos hq] at hkept
    split at hkept <;> omega

/-- A refused read leaves its push behind. -/
theorem f_gets_unbalanced (hs : Open s contents) (h : Refuses s contents len) :
    ∃ w ∈ f_gets A X s len, ¬ Balanced w := by
  rcases h with ⟨hlen, i, hi, hleave, hends, hrefused⟩
  have hscans : Returns (scanPass A X) ⟨s, 1, 0⟩ (moved s (readsBy s contents i)) :=
    (scan_returns_iff hs).mpr ⟨i, hi, hleave, rfl⟩
  rcases (lineEnds_iff (A := A) (X := X) (hs.moved _)).mpr hends with ⟨v, hlines⟩
  have hscanMarks : ∀ v : Scan Disk, ∃ w, scanMarks v w := fun v => readMarks_total _ _
  have hlineMarks : ∀ v : Line Disk, ∃ w, lineMarks (len - 1) v w := fun v => readMarks_total _ _
  rcases hscans.traced hscanMarks with ⟨u, hscan⟩
  rcases hlines.traced hlineMarks with ⟨w, hline⟩
  have htrace : GetsTrace A X s len (.push :: (u ++ w ++ [.pop])) := .scanned hlen hscan hline
  rcases scanned_marks hs hi hleave hscan hline with ⟨_, y, z, hy, hz, hu, hw⟩
  refine ⟨_, htrace, ?_⟩
  rw [hu, hw]
  exact not_balanced_left hy hz hrefused

end Gets

/-! ## Calls and runs of calls -/

/-- A call. A function whose tests on its arguments are left open has none here; `f_gets` is
called on an open file, since it reads through the buffer at once. -/
inductive Call (Disk : Type) where
  | f_read (file : Option FILE) (size : UInt32)
  | f_write (file : Option FILE)
  | f_close (file : Option FILE)
  | fs_open (file : Option FILE)
  | f_gets (s : State Disk) (contents : List UInt8) (hopen : Open s contents) (len : Int)
  | ext2_read
  | ext2_write
  | ext2_open (file : FILE)
  | ext2_alloc_block
  | ext2_listdir
  | ext2_finddir
  | ext2_create_entry
  | ext2_remove_entry
  | read_inode_filedata
  | read_inode_block

section Calls

variable {Disk : Type} (A : Allocator) (X : InodeLayer Disk)

/-- The traces of a call. -/
def Call.traces : Call Disk → Language Mark
  | .f_read file size => Trace.f_read file size
  | .f_write file => Trace.f_write file
  | .f_close file => Trace.f_close file
  | .fs_open file => Trace.fs_open file
  | .f_gets s _ _ len => Trace.f_gets A X s len
  | .ext2_read => Trace.ext2_read
  | .ext2_write => Trace.ext2_write
  | .ext2_open file => Trace.ext2_open file
  | .ext2_alloc_block => Trace.ext2_alloc_block
  | .ext2_listdir => Trace.ext2_listdir
  | .ext2_finddir => Trace.ext2_finddir
  | .ext2_create_entry => Trace.ext2_create_entry
  | .ext2_remove_entry => Trace.ext2_remove_entry
  | .read_inode_filedata => Trace.read_inode_filedata
  | .read_inode_block => Trace.read_inode_block

/-- The traces of calls one after the other. -/
def runTraces (calls : List (Call Disk)) : Language Mark :=
  (calls.map (Call.traces A X)).prod

/-- Every call of the run comes back to its depth without going below it, and from a depth of at
most 90 the run writes to entries of `trace_stack` only. -/
structure TraceKept (calls : List (Call Disk)) : Prop where
  balanced : ∀ c ∈ calls, ∀ w ∈ c.traces A X, Balanced w
  inRange : ∀ w ∈ runTraces A X calls, ∀ d : Int, 0 ≤ d → d ≤ 90 → Within TRACE_STACK d w

/-- The condition on one call: a read is not refused, there is something to close, and `f_gets`
does not return after a refused read. -/
def Paired : Call Disk → Prop
  | .f_read none _ | .f_close none => False
  | .f_read (some f) size => ¬ f.size < size + f.cur_offset
  | .f_close (some f) => f.refcount ≠ -1
  | .f_gets s contents _ len => ¬ Refuses s contents len
  | _ => True

variable {A X} {c : Call Disk} {calls : List (Call Disk)}

theorem traces_rise (h : Paired c) : Rises 10 (c.traces A X) := by
  cases c with
  | f_read file size =>
      cases file with
      | none => cases h
      | some f => exact (f_read_rises h).mono (by decide)
  | f_write file => exact (f_write_rises file).mono (by decide)
  | f_close file =>
      cases file with
      | none => cases h
      | some f => exact (f_close_rises h).mono (by decide)
  | fs_open file => exact (fs_open_rises file).mono (by decide)
  | f_gets s contents hopen len => exact (f_gets_rises hopen h).mono (by decide)
  | ext2_read => exact ext2_read_rises.mono (by decide)
  | ext2_write => exact ext2_write_rises.mono (by decide)
  | ext2_open file => exact (ext2_open_rises file).mono (by decide)
  | ext2_alloc_block => exact ext2_alloc_block_rises.mono (by decide)
  | ext2_listdir => exact ext2_listdir_rises.mono (by decide)
  | ext2_finddir => exact ext2_finddir_rises.mono (by decide)
  | ext2_create_entry => exact ext2_create_entry_rises.mono (by decide)
  | ext2_remove_entry => exact ext2_remove_entry_rises.mono (by decide)
  | read_inode_filedata => exact read_inode_filedata_rises.mono (by decide)
  | read_inode_block => exact read_inode_block_rises.mono (by decide)

theorem not_balanced_push : ¬ Balanced [.push] := by
  intro h
  exact absurd (h.kept 0) (by decide)

theorem f_close_early (file : Option FILE) (h : ∀ f ∈ file, f.refcount = -1) :
    [.push] ∈ f_close file := by
  cases file with
  | none => exact .inr (.inr ⟨_, rfl, _, .inl rfl, rfl⟩)
  | some f =>
      have hcount : f.refcount = -1 := h f rfl
      have hearly : f_close (some f) = {[.push]} := by
        simp [f_close, Flow.proc, Flow.block, Flow.seq, Flow.emit, Flow.ret, hcount]
      rw [hearly]
      rfl

/-- An unpaired call has a trace that does not come back. -/
theorem traces_unbalanced (h : ¬ Paired c) : ∃ w ∈ c.traces A X, ¬ Balanced w := by
  cases c with
  | f_read file size =>
      refine ⟨[.push], ?_, not_balanced_push⟩
      cases file with
      | none =>
          rw [Call.traces, f_read_none_eq]
          rfl
      | some f =>
          rw [Call.traces, f_read_refused_eq (not_not.mp h)]
          rfl
  | f_close file =>
      refine ⟨[.push], f_close_early file ?_, not_balanced_push⟩
      rintro f rfl
      exact not_not.mp h
  | f_gets s contents hopen len => exact f_gets_unbalanced hopen (not_not.mp h)
  | f_write | fs_open | ext2_read | ext2_write | ext2_open | ext2_alloc_block | ext2_listdir
  | ext2_finddir | ext2_create_entry | ext2_remove_entry | read_inode_filedata
  | read_inode_block => exact absurd trivial h

theorem runTraces_rise (h : ∀ c ∈ calls, Paired c) : Rises 10 (runTraces A X calls) := by
  induction calls with
  | nil => exact .one
  | cons c calls ih =>
      have hrest := ih fun c hc => h c (List.mem_cons_of_mem _ hc)
      exact (traces_rise (h c List.mem_cons_self)).mul hrest

/-- A run keeps the trace stack exactly if each of its calls is paired. -/
theorem trace_kept_iff (A : Allocator) (X : InodeLayer Disk) (calls : List (Call Disk)) :
    TraceKept A X calls ↔ ∀ c ∈ calls, Paired c := by
  constructor
  · intro hkept c hc
    by_contra hnot
    rcases traces_unbalanced (A := A) (X := X) hnot with ⟨w, hw, hleft⟩
    exact hleft (hkept.balanced c hc w hw)
  · intro hpaired
    refine ⟨?_, ?_⟩
    · intro c hc w hw
      exact (traces_rise (hpaired c hc) w hw).balanced
    · intro w hw d hd hle
      exact (runTraces_rise hpaired w hw).within hd (by rw [TRACE_STACK]; omega)

end Calls

/-- A read of nine bytes from a file of four leaves its push behind. -/
theorem f_read_drifts :
    ¬ TraceKept stacked flatDisk [.f_read (some (heldFile [0x61, 0x62, 0x63, 0x64]).file) 9] := by
  intro h
  have hrefused : f_read (some (heldFile [0x61, 0x62, 0x63, 0x64]).file) 9 = {[.push]} :=
    f_read_refused_eq (by decide)
  refine not_balanced_push (h.balanced _ List.mem_cons_self _ ?_)
  rw [Call.traces, hrefused]
  rfl

end Trace
end Fs
end EmbeddedOS
