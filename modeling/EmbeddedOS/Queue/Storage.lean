import EmbeddedOS.Base.MachineInt
import EmbeddedOS.Base.Runs
import EmbeddedOS.Queue.Framing

/-!
# Storage of the queues

The arrays behind `TQ`, `DQ` and `LPQ`, by the number of elements their blocks were last sized for,
their size counters, and the places at which the operations of `modules/queue/queue.c` index them.
A resize gives a block of exactly the elements it was asked for.
-/

namespace EmbeddedOS
namespace Queue
namespace Storage

open Base

/-! ## Blocks -/

/-- `p[index]`, where the block behind `p` has room for so many elements; `none` is a null pointer. -/
structure Access where
  room : Option Nat
  index : Nat

def Access.Inside (a : Access) : Prop := ∃ n, a.room = some n ∧ a.index < n

/-- Nothing is indexed outside its block. -/
def Safe (l : List Access) : Prop := ∀ a ∈ l, a.Inside

/-- An array: its pointer, and its size counter, which is a `uint32_t`. -/
structure Block where
  room : Option Nat
  size : Nat

namespace Block

def null : Block := { room := none, size := 0 }

def access (b : Block) (i : Nat) : Access := { room := b.room, index := i }

/-- A search or a sort may look at every element. -/
def scan (b : Block) : List Access := (List.range b.size).map b.access

/-- `size++`, and the array resized to it. -/
def grow (b : Block) : Block :=
  let size := u32 (b.size + 1)
  { room := some size, size }

/-- `size--`, and the array resized to it. -/
def shrink (b : Block) : Block :=
  let size := u32 (b.size - 1)
  { room := some size, size }

/-- The first element: a block of one is allocated for a null pointer only. -/
def first (b : Block) : List Access × Block :=
  let b := if b.room = none then { b with room := some 1 } else b
  let b := { b with size := 1 }
  ([b.access 0], b)

/-- `p[size-1]` -/
def last (b : Block) : Access := b.access (u32 (b.size - 1))

/-- What a search has found is one of the elements. -/
def find (b : Block) (found : Option Nat) : Option Nat := found.filter (· < b.size)

end Block

section Blocks

variable {b : Block} {i : Nat} {l l' : List Access}

theorem safe_append : Safe (l ++ l') ↔ Safe l ∧ Safe l' := List.forall_mem_append

theorem safe_singleton {a : Access} : Safe [a] ↔ a.Inside := List.forall_mem_singleton

theorem inside_iff {n : Nat} (h : b.room = some n) : (b.access i).Inside ↔ i < n := by
  constructor
  · rintro ⟨m, hm, hi⟩
    cases h.symm.trans hm
    exact hi
  · exact fun hi => ⟨n, h, hi⟩

/-- The block has exactly the elements that are counted. -/
def Exact (b : Block) : Prop := b = .null ∨ b.room = some b.size ∧ b.size < 4294967296

/-- The block has room for the elements that are counted, and for one more where there are none. -/
def Fits (b : Block) : Prop :=
  b = .null ∨ b.size < 4294967296 ∧ ∃ n, b.room = some n ∧ b.size ≤ n ∧ 1 ≤ n

theorem Exact.inside (h : Exact b) (hi : i < b.size) : (b.access i).Inside := by
  rcases h with rfl | ⟨hroom, -⟩
  · exact absurd hi (Nat.not_lt_zero i)
  · exact ⟨b.size, hroom, hi⟩

theorem Exact.safe_scan (h : Exact b) : Safe b.scan := by
  intro a ha
  rcases List.mem_map.mp ha with ⟨i, hi, rfl⟩
  exact h.inside (List.mem_range.mp hi)

theorem Exact.size_lt (h : Exact b) : b.size < 4294967296 := by
  rcases h with rfl | ⟨-, hlt⟩
  · exact Nat.zero_lt_succ _
  · exact hlt

/-- What a search goes through, and the element it finds. -/
theorem Exact.safe_found (h : Exact b) (hi : i < b.size) : Safe (b.scan ++ [b.access i]) :=
  safe_append.mpr ⟨h.safe_scan, safe_singleton.mpr (h.inside hi)⟩

theorem Exact.inside_last (h : Exact b) (hpos : 0 < b.size) : b.last.Inside := by
  have hlt := h.size_lt
  have hlast : u32 (b.size - 1) = b.size - 1 := u32_of_range (by omega) (by omega)
  rw [Block.last, hlast]
  exact h.inside (Nat.sub_one_lt_of_lt hpos)

theorem Fits.size_lt (h : Fits b) : b.size < 4294967296 := by
  rcases h with rfl | ⟨hlt, -⟩
  · exact Nat.zero_lt_succ _
  · exact hlt

theorem find_lt {found : Option Nat} (h : b.find found = some i) : i < b.size :=
  of_decide_eq_true (Option.filter_eq_some_iff.mp h).2

theorem u32_succ (h : b.size + 1 < 4294967296) : u32 (b.size + 1) = b.size + 1 :=
  u32_of_range (by omega) h

theorem grow_size (h : b.size + 1 < 4294967296) : b.grow.size = b.size + 1 := u32_succ h

/-- The counter of 2^32-1 elements goes back to 0. -/
theorem grow_size_wrap (hlt : b.size < 4294967296) (hwrap : ¬ b.size + 1 < 4294967296) :
    b.grow.size = 0 := by
  have hsize : (b.size : Int) + 1 = 4294967296 := by omega
  show u32 (b.size + 1) = 0
  rw [hsize]
  rfl

theorem grow_size_lt (b : Block) : b.grow.size < 4294967296 := by
  show u32 (b.size + 1) < 4294967296
  exact u32_lt _

theorem exact_grow (b : Block) : Exact b.grow := .inr ⟨rfl, grow_size_lt b⟩

theorem exact_shrink (b : Block) : Exact b.shrink := .inr ⟨rfl, u32_lt (b.size - 1)⟩

theorem shrink_size (h : 0 < b.size) (hlt : b.size < 4294967296) : b.shrink.size = b.size - 1 :=
  u32_of_range (by omega) (by omega)

theorem fits_grow (h : b.size + 1 < 4294967296) : Fits b.grow := by
  refine .inr ⟨grow_size_lt b, b.grow.size, rfl, Nat.le_refl _, ?_⟩
  rw [grow_size h]
  exact Nat.succ_le_succ (Nat.zero_le _)

/-- In a block that has just grown the last element is there, unless the counter went back to 0. -/
theorem last_grow_iff (hlt : b.size < 4294967296) :
    b.grow.last.Inside ↔ b.size + 1 < 4294967296 := by
  rw [Block.last, inside_iff (n := b.grow.size) rfl]
  by_cases hwrap : b.size + 1 < 4294967296
  · rw [grow_size hwrap]
    have hlast : u32 ((b.size + 1 : Nat) - 1) = b.size := u32_of_range (by omega) hlt
    rw [hlast]
    exact iff_of_true (Nat.lt_succ_self _) hwrap
  · rw [grow_size_wrap hlt hwrap]
    exact iff_of_false (Nat.not_lt_zero _) hwrap

theorem first_spec (h : Fits b) : Safe b.first.1 ∧ Fits b.first.2 ∧ b.first.2.size = 1 := by
  rcases h with rfl | ⟨-, n, hroom, -, hn⟩
  · refine ⟨safe_singleton.mpr ⟨1, rfl, Nat.zero_lt_one⟩, ?_, rfl⟩
    exact .inr ⟨by decide, 1, rfl, Nat.le_refl 1, Nat.le_refl 1⟩
  · have hfirst : b.first = ([{ room := b.room, index := 0 }], { b with size := 1 }) := by
      simp only [Block.first, hroom, reduceCtorEq, if_false, Block.access]
    rw [hfirst]
    refine ⟨safe_singleton.mpr ⟨n, hroom, hn⟩, .inr ⟨?_, n, hroom, hn, hn⟩, rfl⟩
    exact (by decide : 1 < 4294967296)

/-- In a table that is exact, the first element has room only where there is no block yet. -/
theorem Exact.first_iff (h : Exact b) (hsize : b.size = 0) :
    (Safe b.first.1 ↔ b.room = none) ∧ (b.room = none → Exact b.first.2 ∧ b.first.2.size = 1) := by
  rcases h with rfl | ⟨hroom, -⟩
  · refine ⟨iff_of_true (safe_singleton.mpr ⟨1, rfl, Nat.zero_lt_one⟩) rfl, fun _ => ⟨?_, rfl⟩⟩
    exact .inr ⟨rfl, by decide⟩
  · -- A block of no elements is no null pointer, and the branch resizes only that.
    rw [hsize] at hroom
    have hne : b.room ≠ none := by
      rw [hroom]
      nofun
    have hfirst : b.first.1 = [{ room := b.room, index := 0 }] := by
      simp only [Block.first, if_neg hne, Block.access]
    refine ⟨iff_of_false ?_ hne, fun hnone => absurd hnone hne⟩
    rw [hfirst, safe_singleton]
    rintro ⟨n, hn, hlt⟩
    cases hroom.symm.trans hn
    exact Nat.not_lt_zero 0 hlt

end Blocks

/-! ## The table -/

/-- `insert`: return code, accesses and table. -/
def insert (b : Block) (found : Option Nat) : Int × List Access × Block :=
  match b.find found with
  | some _ => (1, b.scan, b)
  | none => (0, b.scan ++ b.grow.last :: b.grow.scan, b.grow)

section Table

variable {b : Block} {found : Option Nat}

theorem insert_spec (found : Option Nat) (h : Exact b) :
    (Safe (insert b found).2.1 ↔ (b.find found = none → b.size + 1 < 4294967296)) ∧
      Exact (insert b found).2.2 := by
  rw [insert]
  cases hfind : b.find found with
  | some i => exact ⟨iff_of_true h.safe_scan nofun, h⟩
  | none =>
      refine ⟨?_, exact_grow b⟩
      have hlast := last_grow_iff h.size_lt
      rw [safe_append, ← List.singleton_append, safe_append, safe_singleton, hlast]
      exact ⟨fun hsafe _ => hsafe.2.1, fun hroom => ⟨h.safe_scan, hroom rfl,
        (exact_grow b).safe_scan⟩⟩

end Table

/-! ## The queues -/

/-- The three arrays. -/
structure Queues where
  TQ : Block
  DQ : Block
  LPQ : Block

def Queues.initial : Queues := { TQ := .null, DQ := .null, LPQ := .null }

/-- What the calls keep while they index inside the blocks. -/
structure Kept (q : Queues) : Prop where
  TQ : Exact q.TQ
  DQ : Fits q.DQ
  LPQ : Fits q.LPQ

theorem kept_initial : Kept .initial := ⟨.inl rfl, .inl rfl, .inl rfl⟩

/-! ## The copy of the module -/

/-- What the searches and the bit tests of a call give, in their order in the source: the search of
`triggerInsert`, that of `triggerExecute`, the two of `remove` and that of `insert`. The key of a
search lies behind a pointer variable, so that any element may be found, or none. -/
structure Outcome where
  found : Nat → Option Nat
  armed : Nat → Bool

namespace Module

/-- `sizeof(MESSAGE_container)`. -/
abbrev MESSAGE_SIZE : Nat := 16

def demandInsert (b : Block) (tb : Bool) : List Access × Block :=
  if b.size = 0 then b.first
  else
    let b := b.grow
    if tb then
      let moved := List.range (u32 (b.size - 1))
      -- `DQ + sizeof(MESSAGE_container)` is 16 elements past the start.
      (moved.map b.access ++ moved.map (fun i => b.access (MESSAGE_SIZE + i)) ++ [b.access 0], b)
    else ([b.last], b)

/-- The first `n` rounds of the promotion loop. -/
def promote (lpq dq : Block) : Nat → List Access × Block
  | 0 => ([], dq)
  | i + 1 =>
      let (l, dq) := promote lpq dq i
      let (l', dq) := demandInsert dq false
      (l ++ lpq.access i :: l', dq)

def lowprioInsert (q : Queues) : List Access × Queues :=
  if q.LPQ.size = 0 then
    let (l, lpq) := q.LPQ.first
    (l, { q with LPQ := lpq })
  else
    let lpq := q.LPQ.grow
    -- The index is the size of the other queue less one.
    let l := [lpq.access (u32 (q.DQ.size - 1))]
    if q.DQ.size = 0 then
      let (l', dq) := promote lpq q.DQ lpq.size
      (l ++ l', { q with DQ := dq, LPQ := { room := some 1, size := 0 } })
    else (l, { q with LPQ := lpq })

/-- `remove`: the table shrinks if the second search has found an element. -/
def remove (b : Block) (o : Outcome) : List Access × Block :=
  match b.find (o.found 3) with
  | some scan => (b.scan ++ b.scan ++ [b.last, b.access scan], b.shrink)
  | none => (b.scan ++ b.scan, b)

def triggerExecute (q : Queues) (o : Outcome) : List Access × Queues :=
  match q.TQ.find (o.found 1) with
  | none => (q.TQ.scan, q)
  | some i =>
      let l := q.TQ.scan ++ [q.TQ.access i]
      if o.armed 1 then
        let (l₁, dq) := demandInsert q.DQ true
        let (l₂, tq) := remove q.TQ o
        (l ++ l₁ ++ l₂, { q with TQ := tq, DQ := dq })
      else (l, q)

/-- After a `CHECK` the function is left, whatever the return code. -/
def triggerInsert (q : Queues) (o : Outcome) : List Access × Queues :=
  if q.TQ.size = 0 then
    let (l, tq) := q.TQ.first
    (l, { q with TQ := tq })
  else
    let (_, l₂, tq) := insert q.TQ (o.found 4)
    match q.TQ.find (o.found 0) with
    | some i =>
        let l := q.TQ.scan ++ [q.TQ.access i]
        if o.armed 0 then
          let (l₁, q) := triggerExecute q o
          (l ++ l₁, q)
        else (l ++ l₂, { q with TQ := tq })
    | none => (q.TQ.scan ++ l₂, { q with TQ := tq })

/-- Serving one call: where it indexes the arrays, and the arrays after it. -/
def serve (q : Queues) : Call × Outcome → Option (List Access × Queues)
  | (.triggerInsert _ _ _, o) => some (triggerInsert q o)
  | (.demandInsert _ _, _) =>
      let (l, dq) := demandInsert q.DQ false
      some (l, { q with DQ := dq })
  | (.lowprioInsert _ _, _) => some (lowprioInsert q)
  | (.triggerExecute _ _, o) => some (triggerExecute q o)

/-! ### When a call stays inside -/

/-- `triggerExecute` finds a container in which the trigger is armed. -/
def Fires (q : Queues) (o : Outcome) : Prop :=
  (q.TQ.find (o.found 1)).isSome ∧ o.armed 1 = true

/-- `triggerInsert` finds a container in which the trigger is armed, and executes it. -/
def Executes (q : Queues) (o : Outcome) : Prop :=
  (q.TQ.find (o.found 0)).isSome ∧ o.armed 0 = true

/-- The calls that index inside the blocks. -/
def HasRoom (q : Queues) : Call × Outcome → Prop
  | (.triggerInsert _ _ _, o) =>
      if q.TQ.size = 0 then q.TQ.room = none
      else (Executes q o → Fires q o → q.DQ.size = 0) ∧
        (¬ Executes q o → q.TQ.find (o.found 4) = none → q.TQ.size + 1 < 4294967296)
  | (.demandInsert _ _, _) => q.DQ.size + 1 < 4294967296
  | (.lowprioInsert _ _, _) =>
      q.LPQ.size = 0 ∨
        1 ≤ q.DQ.size ∧ q.DQ.size ≤ q.LPQ.size + 1 ∧ q.LPQ.size + 1 < 4294967296
  | (.triggerExecute _ _, o) => Fires q o → q.DQ.size = 0

section Calls

variable {b : Block} {q : Queues} {o : Outcome}

theorem demandInsert_back (h : Fits b) :
    (Safe (demandInsert b false).1 ↔ b.size + 1 < 4294967296) ∧
      (b.size + 1 < 4294967296 → Fits (demandInsert b false).2) := by
  by_cases hsize : b.size = 0
  · rw [demandInsert, if_pos hsize, hsize]
    obtain ⟨hsafe, hfits, -⟩ := first_spec h
    exact ⟨iff_of_true hsafe (by decide), fun _ => hfits⟩
  · have hrun : demandInsert b false = ([b.grow.last], b.grow) := if_neg hsize
    rw [hrun]
    exact ⟨safe_singleton.trans (last_grow_iff h.size_lt), fits_grow⟩

/-- At the front there is only room for the first message. -/
theorem demandInsert_front (h : Fits b) :
    (Safe (demandInsert b true).1 ↔ b.size = 0) ∧ (b.size = 0 → Fits (demandInsert b true).2) := by
  by_cases hsize : b.size = 0
  · rw [demandInsert, if_pos hsize]
    obtain ⟨hsafe, hfits, -⟩ := first_spec h
    exact ⟨iff_of_true hsafe hsize, fun _ => hfits⟩
  · refine ⟨iff_of_false ?_ hsize, fun hzero => absurd hzero hsize⟩
    have hlt := h.size_lt
    rw [demandInsert, if_neg hsize]
    simp only [if_true]
    intro hsafe
    by_cases hwrap : b.size + 1 < 4294967296
    · -- The last of the old elements goes 16 places up, and there is one place more than before.
      have hmoved : u32 ((b.grow.size : Nat) - 1) = b.size := by
        rw [grow_size hwrap]
        exact u32_of_range (by omega) hlt
      have hout : (b.grow.access (MESSAGE_SIZE + (b.size - 1))).Inside := by
        refine hsafe _ (List.mem_append_left _ (List.mem_append_right _ ?_))
        refine List.mem_map.mpr ⟨b.size - 1, ?_, rfl⟩
        rw [hmoved, List.mem_range]
        omega
      rw [inside_iff (n := b.grow.size) rfl, grow_size hwrap] at hout
      have hfar : 16 + (b.size - 1) < b.size + 1 := hout
      omega
    · -- The counter has gone back to 0, and the first element is not there.
      have hfirst : (b.grow.access 0).Inside :=
        hsafe _ (List.mem_append_right _ (List.mem_singleton_self _))
      rw [inside_iff (n := b.grow.size) rfl, grow_size_wrap hlt hwrap] at hfirst
      exact Nat.not_lt_zero 0 hfirst

theorem lowprioInsert_spec (h : Kept q) :
    (Safe (lowprioInsert q).1 ↔ q.LPQ.size = 0 ∨
      1 ≤ q.DQ.size ∧ q.DQ.size ≤ q.LPQ.size + 1 ∧ q.LPQ.size + 1 < 4294967296) ∧
      (Safe (lowprioInsert q).1 → Kept (lowprioInsert q).2) := by
  by_cases hsize : q.LPQ.size = 0
  · obtain ⟨hsafe, hfits, -⟩ := first_spec h.LPQ
    rw [lowprioInsert, if_pos hsize]
    exact ⟨iff_of_true hsafe (.inl hsize), fun _ => ⟨h.TQ, h.DQ, hfits⟩⟩
  · have hlt := h.LPQ.size_lt
    have hdlt := h.DQ.size_lt
    have hiff : (q.LPQ.grow.access (u32 (q.DQ.size - 1))).Inside ↔ q.LPQ.size = 0 ∨
        1 ≤ q.DQ.size ∧ q.DQ.size ≤ q.LPQ.size + 1 ∧ q.LPQ.size + 1 < 4294967296 := by
      rw [inside_iff (n := q.LPQ.grow.size) rfl]
      show u32 (q.DQ.size - 1) < u32 (q.LPQ.size + 1) ↔ _
      unfold u32
      omega
    by_cases hempty : q.DQ.size = 0
    · -- One less than nothing is the last number there is, and no block has that many elements.
      have hout : ¬ (q.LPQ.size = 0 ∨ 1 ≤ q.DQ.size ∧ q.DQ.size ≤ q.LPQ.size + 1 ∧
          q.LPQ.size + 1 < 4294967296) := by omega
      have hescapes : ¬ Safe (lowprioInsert q).1 := by
        rw [lowprioInsert, if_neg hsize]
        simp only [hempty, if_true]
        rw [safe_append, safe_singleton]
        rw [hempty] at hiff
        exact fun hsafe => hout (hempty ▸ hiff.mp hsafe.1)
      exact ⟨iff_of_false hescapes hout, fun hsafe => absurd hsafe hescapes⟩
    · have hrun : lowprioInsert q =
          ([q.LPQ.grow.access (u32 (q.DQ.size - 1))], { q with LPQ := q.LPQ.grow }) := by
        rw [lowprioInsert, if_neg hsize]
        exact if_neg hempty
      rw [hrun, safe_singleton, hiff]
      refine ⟨Iff.rfl, fun hroom => ⟨h.TQ, h.DQ, fits_grow ?_⟩⟩
      omega

theorem remove_spec (h : Exact b) : Safe (remove b o).1 ∧ Exact (remove b o).2 := by
  rw [remove]
  cases hfind : b.find (o.found 3) with
  | none => exact ⟨safe_append.mpr ⟨h.safe_scan, h.safe_scan⟩, h⟩
  | some scan =>
      have hscan := find_lt hfind
      refine ⟨safe_append.mpr ⟨safe_append.mpr ⟨h.safe_scan, h.safe_scan⟩, ?_⟩, exact_shrink b⟩
      rw [← List.singleton_append, safe_append, safe_singleton, safe_singleton]
      exact ⟨h.inside_last (Nat.zero_lt_of_lt hscan), h.inside hscan⟩

theorem triggerExecute_spec (h : Kept q) :
    (Safe (triggerExecute q o).1 ↔ (Fires q o → q.DQ.size = 0)) ∧
      (Safe (triggerExecute q o).1 → Kept (triggerExecute q o).2) := by
  rw [triggerExecute, Fires]
  cases hfind : q.TQ.find (o.found 1) with
  | none =>
      refine ⟨iff_of_true h.TQ.safe_scan fun hfires => ?_, fun _ => h⟩
      exact absurd hfires.1 Bool.false_ne_true
  | some i =>
      have hscan := h.TQ.safe_found (find_lt hfind)
      cases harmed : o.armed 1 with
      | false =>
          refine ⟨iff_of_true hscan fun hfires => ?_, fun _ => h⟩
          exact absurd hfires.2 Bool.false_ne_true
      | true =>
          obtain ⟨hsafe, hfits⟩ := demandInsert_front h.DQ
          obtain ⟨hremove, htq⟩ := remove_spec (o := o) h.TQ
          simp only [if_true]
          rw [safe_append, safe_append, hsafe, and_iff_left hremove, and_iff_right hscan]
          refine ⟨⟨fun hzero _ => hzero, fun hzero => hzero ⟨rfl, trivial⟩⟩, fun hzero => ?_⟩
          exact ⟨htq, hfits hzero, h.LPQ⟩

theorem triggerInsert_spec (h : Kept q) (node trigger : UInt8) (message : List UInt8) :
    (Safe (triggerInsert q o).1 ↔ HasRoom q (.triggerInsert node trigger message, o)) ∧
      (Safe (triggerInsert q o).1 → Kept (triggerInsert q o).2) := by
  rw [triggerInsert, HasRoom]
  by_cases hsize : q.TQ.size = 0
  · obtain ⟨hsafe, hexact⟩ := h.TQ.first_iff hsize
    rw [if_pos hsize, if_pos hsize]
    exact ⟨hsafe, fun hfirst => ⟨(hexact (hsafe.mp hfirst)).1, h.DQ, h.LPQ⟩⟩
  · rw [if_neg hsize, if_neg hsize]
    obtain ⟨hinsert, hgrown⟩ := insert_spec (o.found 4) h.TQ
    have hkept : Kept { q with TQ := (insert q.TQ (o.found 4)).2.2 } := ⟨hgrown, h.DQ, h.LPQ⟩
    -- Where no trigger is executed, what decides is whether a container is added.
    have hadds : ¬ Executes q o → ((Executes q o → Fires q o → q.DQ.size = 0) ∧
        (¬ Executes q o → q.TQ.find (o.found 4) = none → q.TQ.size + 1 < 4294967296) ↔
        (q.TQ.find (o.found 4) = none → q.TQ.size + 1 < 4294967296)) :=
      fun hnot => ⟨fun hroom => hroom.2 hnot, fun hroom =>
        ⟨fun hexec => absurd hexec hnot, fun _ => hroom⟩⟩
    cases hfind : q.TQ.find (o.found 0) with
    | none =>
        have hnot : ¬ Executes q o := by
          rw [Executes, hfind]
          exact fun hexec => absurd hexec.1 Bool.false_ne_true
        rw [hadds hnot, safe_append, hinsert, and_iff_right h.TQ.safe_scan]
        exact ⟨Iff.rfl, fun _ => hkept⟩
    | some i =>
        have hscan := h.TQ.safe_found (find_lt hfind)
        cases harmed : o.armed 0 with
        | false =>
            have hnot : ¬ Executes q o := by
              rw [Executes, harmed]
              exact fun hexec => absurd hexec.2 Bool.false_ne_true
            simp only [Bool.false_eq_true, if_false]
            rw [hadds hnot, safe_append, hinsert, and_iff_right hscan]
            exact ⟨Iff.rfl, fun _ => hkept⟩
        | true =>
            have hexec : Executes q o := by
              rw [Executes, hfind, harmed]
              exact ⟨rfl, rfl⟩
            obtain ⟨hexecute, hafter⟩ := triggerExecute_spec (o := o) h
            simp only [if_true]
            rw [safe_append, and_iff_right hscan]
            refine ⟨hexecute.trans ⟨fun hroom => ⟨fun _ => hroom, fun hnot => absurd hexec hnot⟩,
              fun hroom => hroom.1 hexec⟩, hafter⟩

theorem serve_spec (h : Kept q) (c : Call × Outcome) :
    ∃ l q', serve q c = some (l, q') ∧ (Safe l ↔ HasRoom q c) ∧ (Safe l → Kept q') := by
  obtain ⟨call, o⟩ := c
  cases call with
  | triggerInsert node trigger message =>
      exact ⟨_, _, rfl, triggerInsert_spec h node trigger message⟩
  | demandInsert node message =>
      obtain ⟨hsafe, hfits⟩ := demandInsert_back h.DQ
      exact ⟨_, _, rfl, hsafe, fun hroom => ⟨h.TQ, hfits (hsafe.mp hroom), h.LPQ⟩⟩
  | lowprioInsert node message => exact ⟨_, _, rfl, lowprioInsert_spec h⟩
  | triggerExecute node trigger => exact ⟨_, _, rfl, triggerExecute_spec h⟩

/-- In a sequence of calls on the module's queues nothing is indexed outside its block exactly if
every call has room. -/
theorem module_capacity (calls : List (Call × Outcome)) :
    EachCall serve (fun _ _ l _ => Safe l) .initial calls ↔
      Guarded serve HasRoom .initial calls := by
  refine eachCall_iff_guarded Kept ?_ ?_ kept_initial calls
  · intro q c l q' h hroom hrun
    rcases serve_spec h c with ⟨l₁, q₁, hrun₁, hiff, hkept⟩
    cases hrun.symm.trans hrun₁
    exact hkept (hiff.mpr hroom)
  · intro q c h
    rcases serve_spec h c with ⟨l, q', hrun, hiff, -⟩
    constructor
    · rintro ⟨l₁, q₁, hrun₁, hsafe⟩
      cases hrun.symm.trans hrun₁
      exact hiff.mp hsafe
    · exact fun hroom => ⟨l, q', hrun, hiff.mpr hroom⟩

end Calls

end Module
end Storage
end Queue
end EmbeddedOS
