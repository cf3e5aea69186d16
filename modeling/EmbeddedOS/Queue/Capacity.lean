import EmbeddedOS.Queue.Storage
import EmbeddedOS.Queue.WorkingCopy
import Mathlib.Data.Finset.Card

/-!
# Room for the queues

Where the operations of `tests/qtest/queue.c` and `stack.c` index their arrays, along the data of the
working copy, and which sequences of calls stay inside the blocks of either copy.
-/

namespace EmbeddedOS
namespace Queue
namespace Storage

open Base

namespace Tests

/-! ## The code -/

def push_back (b : Block) : List Access × Block := ([b.grow.last], b.grow)

/-- `for (i = size; i > 1; i--) data[i-1] = data[i-2];` and `data[0]`. -/
def push (b : Block) : List Access × Block :=
  let b := b.grow
  ((List.range' 2 (b.size - 1)).reverse.flatMap (fun i => [b.access (i - 1), b.access (i - 2)]) ++
    [b.access 0], b)

def demandInsert (b : Block) (tb : Bool) : List Access × Block :=
  if b.size = 0 then b.first else if tb then push b else push_back b

/-- The first `n` rounds of the promotion loop. -/
def promote (lpq dq : Block) : Nat → List Access × Block
  | 0 => ([], dq)
  | i + 1 =>
      let (l, dq) := promote lpq dq i
      let (l', dq) := demandInsert dq false
      (l ++ lpq.access i :: l', dq)

def lowprioInsert (q : Queues) : List Access × Queues :=
  let (l, lpq) := if q.LPQ.size = 0 then q.LPQ.first else push_back q.LPQ
  if q.DQ.size = 0 then
    let (l', dq) := promote lpq q.DQ lpq.size
    (l ++ l', { q with DQ := dq, LPQ := { room := some 1, size := 0 } })
  else (l, { q with LPQ := lpq })

def remove_node (b : Block) (found : Option Nat) : List Access × Block :=
  match b.find found with
  | some scan => (b.scan ++ b.scan ++ [b.last, b.access scan] ++ b.shrink.scan, b.shrink)
  | none => (b.scan ++ b.scan, b)

section Calls

variable (uninit : MessageContainer) (uninitT : TriggerContainer)

def triggerExecute (d : WorkingCopy.Queues) (q : Queues) (node trigger : UInt8) :
    List Access × Queues :=
  match q.TQ.find (lookup node.toUInt32 d.table) with
  | none => (q.TQ.scan, q)
  | some i =>
      let temp := d.table.getD i uninitT
      let l := q.TQ.scan ++ [q.TQ.access i]
      if getBit temp.bitmap trigger.toNat then
        let (l₁, dq) := demandInsert q.DQ true
        let temp := temp.disarm trigger.toNat
        if temp.bitmap 0 = 0#32 ∧ temp.bitmap 1 = 0#32 then
          let (l₂, tq) := remove_node q.TQ (lookup node.toUInt32 (d.table.set i temp))
          (l ++ l₁ ++ l₂, { q with TQ := tq, DQ := dq })
        else (l ++ l₁, { q with DQ := dq })
      else (l, q)

/-- The end of `triggerInsert`: a container of its own for the node. -/
def insertContainer (d : WorkingCopy.Queues) (q : Queues) (node : UInt8) : List Access × Queues :=
  let (ret, l, tq) := insert q.TQ (lookup node.toUInt32 d.table)
  if ret ≠ 0 then (l, { q with TQ := tq })
  else
    match tq.find (lookup node.toUInt32 (Queue.insert uninitT d.table node.toUInt32).2) with
    | none => (l ++ tq.scan, { q with TQ := tq })
    | some k => (l ++ tq.scan ++ [tq.access k], { q with TQ := tq })

def triggerInsert (d : WorkingCopy.Queues) (q : Queues) (node trigger : UInt8) :
    List Access × Queues :=
  if q.TQ.size = 0 then
    let (l, tq) := q.TQ.first
    (l, { q with TQ := tq })
  else
    match q.TQ.find (lookup node.toUInt32 d.table) with
    | none =>
        let (l, q') := insertContainer uninitT d q node
        (q.TQ.scan ++ l, q')
    | some i =>
        let l := q.TQ.scan ++ [q.TQ.access i]
        if getBit (d.table.getD i uninitT).bitmap trigger.toNat then
          let (l₁, q) := triggerExecute uninitT d q node trigger
          match WorkingCopy.triggerExecute uninit uninitT d node trigger with
          | (0, d) =>
              let (l₂, q) := insertContainer uninitT d q node
              (l ++ l₁ ++ l₂, q)
          | _ => (l ++ l₁, q)
        else (l, q)

/-- Where a call indexes the arrays, and the arrays after it. -/
def uses (d : WorkingCopy.Queues) (q : Queues) : Call → List Access × Queues
  | .triggerInsert node trigger _ => triggerInsert uninit uninitT d q node trigger
  | .demandInsert _ _ =>
      let (l, dq) := demandInsert q.DQ false
      (l, { q with DQ := dq })
  | .lowprioInsert _ _ => lowprioInsert q
  | .triggerExecute node trigger => triggerExecute uninitT d q node trigger

/-- Serving one call, with the data and with the arrays. -/
def serve (s : WorkingCopy.Queues × Queues) (call : Call) :
    Option (List Access × WorkingCopy.Queues × Queues) :=
  let (l, q) := uses uninit uninitT s.1 s.2 call
  some (l, WorkingCopy.serve uninit uninitT s.1 call, q)

/-! ## When a call stays inside -/

/-- The trigger of the node is armed. -/
def Fires (d : WorkingCopy.Queues) (node trigger : UInt8) : Prop :=
  ∃ i, lookup node.toUInt32 d.table = some i ∧
    getBit (d.table.getD i uninitT).bitmap trigger.toNat = true

/-- The calls that index inside the blocks. -/
def HasRoom (s : WorkingCopy.Queues × Queues) : Call → Prop
  | .triggerInsert node trigger _ =>
      (s.2.TQ.size = 0 → s.2.TQ.room = none) ∧
        (Fires uninitT s.1 node trigger → s.2.DQ.size + 1 < 4294967296)
  | .demandInsert _ _ => s.2.DQ.size + 1 < 4294967296
  | .lowprioInsert _ _ => s.2.LPQ.size + 1 < 4294967296
  | .triggerExecute node trigger =>
      Fires uninitT s.1 node trigger → s.2.DQ.size + 1 < 4294967296

end Calls

/-! ## The stacks -/

section Stacks

variable {b : Block}

/-- One more element is counted, and there is room for what is counted. -/
structure Grown (b b' : Block) : Prop where
  size : b'.size = b.size + 1
  fits : Fits b'

theorem push_back_spec (h : Fits b) :
    (Safe (push_back b).1 ↔ b.size + 1 < 4294967296) ∧
      (b.size + 1 < 4294967296 → Grown b (push_back b).2) :=
  ⟨safe_singleton.trans (last_grow_iff h.size_lt), fun hroom => ⟨grow_size hroom, fits_grow hroom⟩⟩

theorem push_spec (h : Fits b) :
    (Safe (push b).1 ↔ b.size + 1 < 4294967296) ∧
      (b.size + 1 < 4294967296 → Grown b (push b).2) := by
  refine ⟨?_, fun hroom => ⟨grow_size hroom, fits_grow hroom⟩⟩
  rw [push, safe_append, safe_singleton, inside_iff (n := b.grow.size) rfl]
  constructor
  · -- The first element is there only if the counter has not gone back to 0.
    rintro ⟨-, hfirst⟩
    by_contra hwrap
    rw [grow_size_wrap h.size_lt hwrap] at hfirst
    exact Nat.not_lt_zero 0 hfirst
  · intro hroom
    rw [grow_size hroom]
    refine ⟨?_, Nat.zero_lt_succ _⟩
    intro a ha
    rcases List.mem_flatMap.mp ha with ⟨i, hi, hai⟩
    rw [List.mem_reverse, List.mem_range'_1] at hi
    rcases List.mem_pair.mp hai with rfl | rfl
    · rw [inside_iff (n := b.grow.size) rfl, grow_size hroom]
      omega
    · rw [inside_iff (n := b.grow.size) rfl, grow_size hroom]
      omega

theorem demandInsert_spec (h : Fits b) (tb : Bool) :
    (Safe (demandInsert b tb).1 ↔ b.size + 1 < 4294967296) ∧
      (b.size + 1 < 4294967296 → Grown b (demandInsert b tb).2) := by
  by_cases hsize : b.size = 0
  · obtain ⟨hsafe, hfits, hone⟩ := first_spec h
    rw [demandInsert, if_pos hsize]
    refine ⟨iff_of_true hsafe (by omega), fun _ => ⟨?_, hfits⟩⟩
    rw [hone, hsize]
  · rw [demandInsert, if_neg hsize]
    cases tb with
    | true => exact push_spec h
    | false => exact push_back_spec h

theorem promote_spec {lpq dq : Block} (hl : Fits lpq) (hd : Fits dq) (hempty : dq.size = 0) {n : Nat}
    (hn : n ≤ lpq.size) :
    Safe (promote lpq dq n).1 ∧ Fits (promote lpq dq n).2 ∧ (promote lpq dq n).2.size = n := by
  induction n with
  | zero => exact ⟨nofun, hd, hempty⟩
  | succ i ih =>
      obtain ⟨hsafe, hfits, hsize⟩ := ih (Nat.le_of_succ_le hn)
      have hlt := hl.size_lt
      obtain ⟨hiff, hgrown⟩ := demandInsert_spec hfits false
      rw [hsize] at hiff hgrown
      have hroom : i + 1 < 4294967296 := by omega
      rw [promote]
      refine ⟨?_, (hgrown hroom).fits, ?_⟩
      · rw [safe_append, ← List.singleton_append, safe_append, safe_singleton]
        refine ⟨hsafe, ?_, hiff.mpr hroom⟩
        rcases hl with rfl | ⟨-, n, hn', hle, -⟩
        · exact absurd hn (Nat.not_succ_le_zero i)
        · exact ⟨n, hn', by show i < n; omega⟩
      · rw [(hgrown hroom).size, hsize]

/-- The low-priority messages are counted, or all of them are in the demand queue. -/
theorem lowprioInsert_spec {q : Queues} (h : Kept q) :
    (Safe (lowprioInsert q).1 ↔ q.LPQ.size + 1 < 4294967296) ∧
      (q.LPQ.size + 1 < 4294967296 → Kept (lowprioInsert q).2 ∧ (lowprioInsert q).2.TQ = q.TQ ∧
        (lowprioInsert q).2.DQ.size = (if q.DQ.size = 0 then q.LPQ.size + 1 else q.DQ.size) ∧
        (lowprioInsert q).2.LPQ.size = (if q.DQ.size = 0 then 0 else q.LPQ.size + 1)) := by
  have hfirst : (if q.LPQ.size = 0 then q.LPQ.first else push_back q.LPQ) =
      demandInsert q.LPQ false := rfl
  obtain ⟨hsafe, hgrown⟩ := demandInsert_spec h.LPQ false
  rw [lowprioInsert, hfirst]
  by_cases hempty : q.DQ.size = 0
  · simp only [hempty, if_true]
    rw [safe_append, hsafe]
    have hpromote := fun hroom : q.LPQ.size + 1 < 4294967296 =>
      promote_spec (hgrown hroom).fits h.DQ hempty (Nat.le_refl _)
    refine ⟨and_iff_left_of_imp fun hroom => (hpromote hroom).1, fun hroom => ?_⟩
    obtain ⟨-, hfits, hsize⟩ := hpromote hroom
    refine ⟨⟨h.TQ, hfits, .inr ⟨Nat.zero_lt_succ _, 1, rfl, Nat.zero_le 1, Nat.le_refl 1⟩⟩, trivial,
      ?_, trivial⟩
    rw [hsize, (hgrown hroom).size]
  · simp only [hempty, if_false]
    exact ⟨hsafe, fun hroom => ⟨⟨h.TQ, h.DQ, (hgrown hroom).fits⟩, trivial, trivial,
      (hgrown hroom).size⟩⟩

end Stacks

/-! ## The arrays and the data -/

/-- The counters are those of the working copy. -/
structure Sim (d : WorkingCopy.Queues) (q : Queues) : Prop where
  consistent : WorkingCopy.Consistent d
  kept : Kept q
  table : q.TQ.size = d.table.length
  demand : q.DQ.size = d.DQ_stack.size
  lowPriority : q.LPQ.size = d.LPQ_stack.size

section Data

variable {u : MessageContainer} {v : TriggerContainer} {d : WorkingCopy.Queues}
variable {node trigger : UInt8} {message : List UInt8} {n : UInt32} {table : List TriggerContainer}
variable {i : Nat}

theorem demandInsert_size (tb : Bool) (size : Nat) :
    (WorkingCopy.demandInsert u d node message tb size).DQ_stack.size = d.DQ_stack.size + 1 := by
  unfold WorkingCopy.demandInsert
  split
  · rename_i hempty
    rw [hempty]
    rfl
  · split <;> rfl

theorem promote_size (i : Nat) :
    (WorkingCopy.promote u d i).DQ_stack.size = d.DQ_stack.size + i := by
  induction i with
  | zero => rfl
  | succ i ih => rw [WorkingCopy.promote, demandInsert_size, ih, Nat.add_assoc]

theorem lowprioInsert_size (size : Nat) :
    (WorkingCopy.lowprioInsert u d node message size).DQ_stack.size =
        (if d.DQ_stack.size = 0 then d.LPQ_stack.size + 1 else d.DQ_stack.size) ∧
      (WorkingCopy.lowprioInsert u d node message size).LPQ_stack.size =
        (if d.DQ_stack.size = 0 then 0 else d.LPQ_stack.size + 1) := by
  have hlpq : (if d.LPQ_stack.size = 0 then initStack u d.LPQ_stack node message size
      else Queue.pushBack u d.LPQ_stack node message size).size = d.LPQ_stack.size + 1 := by
    split
    · rename_i hempty
      rw [hempty]
      rfl
    · rfl
  rw [WorkingCopy.lowprioInsert]
  by_cases hempty : d.DQ_stack.size = 0
  · simp only [hempty, if_true, promote_size, hlpq, Nat.zero_add, and_self]
  · simp only [hempty, if_false, hlpq, and_self]

theorem lookup_lt {b : Block} (hsize : b.size = table.length) (h : lookup n table = some i) :
    i < b.size := by
  rcases bsearch_sound h with ⟨c, hc, -⟩
  rw [hsize]
  exact (List.getElem?_eq_some_iff.mp hc).1

/-- The search finds what it finds in the data. -/
theorem find_lookup {b : Block} (h : b.size = table.length) :
    b.find (lookup n table) = lookup n table := by
  cases hfound : lookup n table with
  | none => rfl
  | some i =>
      exact Option.filter_eq_some_iff.mpr ⟨rfl, decide_eq_true (lookup_lt h hfound)⟩

/-- There are no more containers than node numbers. -/
theorem length_le (h : Ordered table) : table.length ≤ 256 := by
  rw [← List.length_map (fun x : TriggerContainer => x.node.toNat),
    ← List.toFinset_card_of_nodup h.nodup, ← Finset.card_range 256]
  refine Finset.card_le_card fun k hk => ?_
  rcases List.mem_map.mp (List.mem_toFinset.mp hk) with ⟨c, hc, rfl⟩
  exact Finset.mem_range.mpr (h.small c hc)

theorem length_qsortTable (table : List TriggerContainer) :
    (qsortTable table).length = table.length :=
  (qsort_perm _ _).length_eq

theorem removeNode_length (h : lookup n table = some i) :
    (removeNode v table n).length = table.length - 1 := by
  rw [removeNode, h]
  simp only [length_qsortTable, List.length_take, List.length_set]
  exact Nat.min_eq_left (Nat.sub_le _ _)

theorem remove_node_spec {b : Block} (h : Exact b) (hsize : b.size = table.length) :
    Safe (remove_node b (lookup n table)).1 ∧ Exact (remove_node b (lookup n table)).2 ∧
      (remove_node b (lookup n table)).2.size = (removeNode v table n).length := by
  rw [remove_node, find_lookup hsize]
  cases hfound : lookup n table with
  | none =>
      refine ⟨safe_append.mpr ⟨h.safe_scan, h.safe_scan⟩, h, hsize.trans ?_⟩
      rw [removeNode, hfound]
  | some scan =>
      have hscan := lookup_lt hsize hfound
      have hpos : 0 < b.size := Nat.zero_lt_of_lt hscan
      refine ⟨?_, exact_shrink b, ?_⟩
      · refine safe_append.mpr ⟨safe_append.mpr ⟨safe_append.mpr ⟨h.safe_scan, h.safe_scan⟩, ?_⟩,
          (exact_shrink b).safe_scan⟩
        rw [← List.singleton_append, safe_append, safe_singleton, safe_singleton]
        exact ⟨h.inside_last hpos, h.inside hscan⟩
      · rw [removeNode_length hfound, ← hsize]
        exact shrink_size hpos h.size_lt

/-- Executing an armed trigger: the table has the bit cleared, or the container removed. -/
theorem triggerExecute_fired (u : MessageContainer) (hfound : lookup node.toUInt32 d.table = some i)
    (hbit : getBit (d.table.getD i v).bitmap trigger.toNat = true) :
    ∃ fired : WorkingCopy.Queues, fired.DQ_stack.size = d.DQ_stack.size + 1 ∧
      fired.LPQ_stack = d.LPQ_stack ∧
      WorkingCopy.triggerExecute u v d node trigger =
        if ((d.table.getD i v).disarm trigger.toNat).bitmap 0 = 0#32 ∧
            ((d.table.getD i v).disarm trigger.toNat).bitmap 1 = 0#32 then
          (0, { fired with TQ := some (removeNode v
            (d.table.set i ((d.table.getD i v).disarm trigger.toNat)) node.toUInt32) })
        else
          (0, { fired with
            TQ := some (d.table.set i ((d.table.getD i v).disarm trigger.toNat)) }) := by
  have hframe := @WorkingCopy.demandInsert_frame u d (d.table.getD i v).node.toUInt8
    (((d.table.getD i v).messages trigger.toNat).getD []) true
    ((d.table.getD i v).messageSize trigger.toNat)
  refine ⟨WorkingCopy.demandInsert u d (d.table.getD i v).node.toUInt8
    (((d.table.getD i v).messages trigger.toNat).getD []) true
    ((d.table.getD i v).messageSize trigger.toNat), demandInsert_size true _, hframe.2, ?_⟩
  have htable : (WorkingCopy.demandInsert u d (d.table.getD i v).node.toUInt8
      (((d.table.getD i v).messages trigger.toNat).getD []) true
      ((d.table.getD i v).messageSize trigger.toNat)).table = d.table :=
    congrArg (Option.getD · []) hframe.1
  rw [WorkingCopy.triggerExecute, hfound]
  simp only [hbit, if_true, htable]

theorem not_fires_of_none (h : lookup node.toUInt32 d.table = none) : ¬ Fires v d node trigger := by
  rintro ⟨i, hi, -⟩
  cases h.symm.trans hi

theorem not_fires_of_unarmed (h : lookup node.toUInt32 d.table = some i)
    (hbit : getBit (d.table.getD i v).bitmap trigger.toNat = false) :
    ¬ Fires v d node trigger := by
  rintro ⟨j, hj, harmed⟩
  cases h.symm.trans hj
  exact absurd (hbit.symm.trans harmed) Bool.false_ne_true

/-- A fired trigger makes the demand queue longer, and may make the table shorter. -/
theorem triggerExecute_spec (u : MessageContainer) {q : Queues} (h : Sim d q)
    (ht : trigger.toNat < 64) :
    (Safe (triggerExecute v d q node trigger).1 ↔
      (Fires v d node trigger → q.DQ.size + 1 < 4294967296)) ∧
      (Safe (triggerExecute v d q node trigger).1 →
        Sim (WorkingCopy.triggerExecute u v d node trigger).2
          (triggerExecute v d q node trigger).2) := by
  have hvalid : Call.Valid (.triggerExecute node trigger) := ht
  have hcons : WorkingCopy.Consistent (WorkingCopy.triggerExecute u v d node trigger).2 :=
    (WorkingCopy.serve_spec u v h.consistent hvalid).1
  rw [triggerExecute, find_lookup h.table]
  cases hfound : lookup node.toUInt32 d.table with
  | none =>
      have hdata : (WorkingCopy.triggerExecute u v d node trigger).2 = d := by
        rw [WorkingCopy.triggerExecute, hfound]
      rw [hdata]
      exact ⟨iff_of_true h.kept.TQ.safe_scan fun hfires => absurd hfires (not_fires_of_none hfound),
        fun _ => h⟩
  | some i =>
      have hscan := h.kept.TQ.safe_found (lookup_lt h.table hfound)
      cases hbit : getBit (d.table.getD i v).bitmap trigger.toNat with
      | false =>
          have hnot := not_fires_of_unarmed hfound hbit
          have hdata : (WorkingCopy.triggerExecute u v d node trigger).2 = d := by
            rw [WorkingCopy.triggerExecute, hfound]
            simp only [hbit, Bool.false_eq_true, if_false]
          rw [hdata]
          simp only [hbit, Bool.false_eq_true, if_false]
          exact ⟨iff_of_true hscan fun hfires => absurd hfires hnot, fun _ => h⟩
      | true =>
          have hfires : Fires v d node trigger := ⟨i, hfound, hbit⟩
          obtain ⟨hsafe, hgrown⟩ := demandInsert_spec h.kept.DQ true
          rcases triggerExecute_fired u hfound hbit with ⟨fired, hdq, hlpq, hdata⟩
          have hmap : q.TQ.size =
              (d.table.set i ((d.table.getD i v).disarm trigger.toNat)).length := by
            rw [List.length_set, h.table]
          have hdemand : q.DQ.size + 1 < 4294967296 →
              (demandInsert q.DQ true).2.size = fired.DQ_stack.size := by
            intro hroom
            rw [(hgrown hroom).size, hdq, h.demand]
          have hlow : q.LPQ.size = fired.LPQ_stack.size := by rw [hlpq, h.lowPriority]
          rw [hdata] at hcons ⊢
          simp only [hbit, if_true]
          -- A container whose last trigger has fired is removed.
          split_ifs at hcons ⊢ with hzero
          · obtain ⟨hremove, hexact, hshrunk⟩ :=
              remove_node_spec (v := v) (n := node.toUInt32) h.kept.TQ hmap
            rw [safe_append, safe_append, hsafe, and_iff_left hremove, and_iff_right hscan]
            refine ⟨⟨fun hroom _ => hroom, fun hroom => hroom hfires⟩, fun hroom => ?_⟩
            exact ⟨hcons, ⟨hexact, (hgrown hroom).fits, h.kept.LPQ⟩, hshrunk, hdemand hroom, hlow⟩
          · rw [safe_append, hsafe, and_iff_right hscan]
            refine ⟨⟨fun hroom _ => hroom, fun hroom => hroom hfires⟩, fun hroom => ?_⟩
            exact ⟨hcons, ⟨h.kept.TQ, (hgrown hroom).fits, h.kept.LPQ⟩, hmap, hdemand hroom, hlow⟩

/-- The table has room for another container, and the search finds it. -/
theorem insertContainer_spec (v : TriggerContainer) (node trigger : UInt8) (message : List UInt8)
    {q : Queues} (h : Sim d q) (size : Nat) :
    Safe (insertContainer v d q node).1 ∧
      (WorkingCopy.Consistent (WorkingCopy.insertContainer v d node trigger message size).2 →
        Sim (WorkingCopy.insertContainer v d node trigger message size).2
          (insertContainer v d q node).2) := by
  have hordered := h.consistent.ordered
  have hlength := length_le hordered
  obtain ⟨hsafe, hexact⟩ := insert_spec (lookup node.toUInt32 d.table) h.kept.TQ
  rw [find_lookup h.table] at hsafe
  cases hfound : lookup node.toUInt32 d.table with
  | some i =>
      have hdata : WorkingCopy.insertContainer v d node trigger message size = (1, d) := by
        have hins : Queue.insert v d.table node.toUInt32 = (1, d.table) := by
          rw [Queue.insert, hfound]
        rw [WorkingCopy.insertContainer, hins]
        rfl
      have hrun : insertContainer v d q node = (q.TQ.scan, q) := by
        rw [insertContainer, insert, find_lookup h.table, hfound]
        rfl
      rw [hdata, hrun]
      exact ⟨h.kept.TQ.safe_scan, fun _ => h⟩
  | none =>
      have hsmall := smallNode_toUInt32 node
      have hroom : q.TQ.size + 1 < 4294967296 := by
        rw [h.table]
        omega
      rw [hfound] at hsafe hexact
      have hinsert : insert q.TQ none =
          (0, q.TQ.scan ++ q.TQ.grow.last :: q.TQ.grow.scan, q.TQ.grow) := by
        rw [insert]
        rfl
      rw [hinsert] at hsafe hexact
      rcases hordered.insert_spec v hsmall (hordered.lookup_none hsmall hfound) with
        ⟨map, hins, hord, hperm⟩
      have hgrown : q.TQ.grow.size = map.length := by
        rw [grow_size hroom, h.table, hperm.length_eq, List.length_cons]
      -- What has just been inserted is found.
      cases hnew : lookup node.toUInt32 map with
      | none =>
          exact absurd rfl (hord.lookup_none hsmall hnew _ (hperm.mem_iff.mpr List.mem_cons_self))
      | some k =>
          have hk := lookup_lt hgrown hnew
          have hrun : insertContainer v d q node =
              (q.TQ.scan ++ q.TQ.grow.last :: q.TQ.grow.scan ++ q.TQ.grow.scan ++
                [q.TQ.grow.access k], { q with TQ := q.TQ.grow }) := by
            have hfind : q.TQ.grow.find (lookup node.toUInt32 map) = some k :=
              (find_lookup hgrown).trans hnew
            rw [insertContainer, hfound, hinsert, hins]
            simp only [hfind, ne_eq, not_true_eq_false, if_false]
          have hdata : WorkingCopy.insertContainer v d node trigger message size =
              (0, { d with TQ := some (map.set k
                (((map.getD k v).reset node.toUInt32).put trigger.toNat message size)) }) := by
            rw [WorkingCopy.insertContainer, hins]
            simp only [hnew]
          rw [hrun, hdata]
          refine ⟨?_, fun hcons => ?_⟩
          · refine safe_append.mpr ⟨safe_append.mpr ⟨hsafe.mpr fun _ => hroom, ?_⟩, ?_⟩
            · exact hexact.safe_scan
            · exact safe_singleton.mpr (hexact.inside hk)
          · exact ⟨hcons, ⟨hexact, h.kept.DQ, h.kept.LPQ⟩, hgrown.trans List.length_set.symm,
              h.demand, h.lowPriority⟩

theorem triggerInsert_spec {q : Queues} (h : Sim d q) (ht : trigger.toNat < 64) :
    (Safe (triggerInsert u v d q node trigger).1 ↔ (q.TQ.size = 0 → q.TQ.room = none) ∧
      (Fires v d node trigger → q.DQ.size + 1 < 4294967296)) ∧
      (Safe (triggerInsert u v d q node trigger).1 →
        Sim (WorkingCopy.triggerInsert u v d node trigger message message.length).2
          (triggerInsert u v d q node trigger).2) := by
  have hvalid : Call.Valid (.triggerInsert node trigger message) := ht
  have hcons := (WorkingCopy.serve_spec u v h.consistent hvalid).1
  rw [WorkingCopy.serve] at hcons
  rw [triggerInsert]
  by_cases hsize : q.TQ.size = 0
  · have hnil : d.table = [] := List.length_eq_zero_iff.mp (h.table.symm.trans hsize)
    have hnot : ¬ Fires v d node trigger := by
      rintro ⟨i, hi, -⟩
      rw [hnil] at hi
      cases hi
    obtain ⟨hsafe, hexact⟩ := h.kept.TQ.first_iff hsize
    rw [WorkingCopy.triggerInsert_first hnil] at hcons ⊢
    rw [if_pos hsize]
    refine ⟨hsafe.trans ⟨fun hnone => ⟨fun _ => hnone, fun hfires => absurd hfires hnot⟩,
      fun hroom => hroom.1 hsize⟩, fun hfirst => ?_⟩
    obtain ⟨hexact, hone⟩ := hexact (hsafe.mp hfirst)
    exact ⟨hcons, ⟨hexact, h.kept.DQ, h.kept.LPQ⟩, hone, h.demand, h.lowPriority⟩
  · have hne : d.table ≠ [] := by
      intro hnil
      rw [h.table, hnil] at hsize
      exact hsize rfl
    have hnone : q.TQ.size = 0 → q.TQ.room = none := fun hzero => absurd hzero hsize
    rw [WorkingCopy.triggerInsert_search hne] at hcons ⊢
    rw [if_neg hsize, find_lookup h.table, and_iff_right hnone]
    cases hfound : lookup node.toUInt32 d.table with
    | none =>
        obtain ⟨hsafe, hsim⟩ := insertContainer_spec v node trigger message h message.length
        simp only [hfound] at hcons
        exact ⟨iff_of_true (safe_append.mpr ⟨h.kept.TQ.safe_scan, hsafe⟩) fun hfires =>
          absurd hfires (not_fires_of_none hfound), fun _ => hsim hcons⟩
    | some i =>
        have hscan := h.kept.TQ.safe_found (lookup_lt h.table hfound)
        cases hbit : getBit (d.table.getD i v).bitmap trigger.toNat with
        | false =>
            have hnot := not_fires_of_unarmed hfound hbit
            simp only [hfound, hbit, Bool.false_eq_true, if_false] at hcons ⊢
            refine ⟨iff_of_true hscan fun hfires => absurd hfires hnot, fun _ => ?_⟩
            exact ⟨hcons, h.kept, h.table.trans List.length_set.symm, h.demand, h.lowPriority⟩
        | true =>
            have hfires : Fires v d node trigger := ⟨i, hfound, hbit⟩
            obtain ⟨hexecute, hafter⟩ := @triggerExecute_spec v d node trigger u q h ht
            rcases triggerExecute_fired u hfound hbit with ⟨fired, -, -, hdata⟩
            obtain ⟨d', hdata'⟩ : ∃ d', WorkingCopy.triggerExecute u v d node trigger = (0, d') := by
              rw [hdata]
              split <;> exact ⟨_, rfl⟩
            rw [hdata'] at hafter
            simp only [hfound, hbit, if_true, hdata'] at hcons ⊢
            by_cases hsafe : Safe (triggerExecute v d q node trigger).1
            · obtain ⟨hins, hsim⟩ :=
                insertContainer_spec v node trigger message (hafter hsafe) message.length
              exact ⟨iff_of_true (safe_append.mpr ⟨safe_append.mpr ⟨hscan, hsafe⟩, hins⟩)
                (hexecute.mp hsafe), fun _ => hsim hcons⟩
            · -- What is indexed outside in `triggerExecute` stays outside, whatever follows.
              have hescapes : ∀ l, ¬ Safe (q.TQ.scan ++ [q.TQ.access i] ++
                  (triggerExecute v d q node trigger).1 ++ l) :=
                fun l hall => hsafe (safe_append.mp (safe_append.mp hall).1).2
              refine ⟨iff_of_false (hescapes _) fun hroom => hsafe (hexecute.mpr hroom), fun hall =>
                absurd hall (hescapes _)⟩

theorem serve_spec {q : Queues} (h : Sim d q) {call : Call} (hvalid : call.Valid) :
    (Safe (uses u v d q call).1 ↔ HasRoom v (d, q) call) ∧
      (Safe (uses u v d q call).1 → Sim (WorkingCopy.serve u v d call) (uses u v d q call).2) := by
  have hcons := (WorkingCopy.serve_spec u v h.consistent hvalid).1
  cases call with
  | triggerInsert node trigger message => exact triggerInsert_spec h hvalid
  | demandInsert node message =>
      obtain ⟨hsafe, hgrown⟩ := demandInsert_spec h.kept.DQ false
      have hframe := @WorkingCopy.demandInsert_frame u d node message false message.length
      refine ⟨hsafe, fun hall => ⟨hcons, ⟨h.kept.TQ, (hgrown (hsafe.mp hall)).fits, h.kept.LPQ⟩,
        ?_, ?_, ?_⟩⟩
      · exact h.table.trans (congrArg (fun tq => (tq.getD []).length) hframe.1.symm)
      · exact ((hgrown (hsafe.mp hall)).size.trans (congrArg (· + 1) h.demand)).trans
          (demandInsert_size false _).symm
      · exact h.lowPriority.trans (congrArg Stack.size hframe.2.symm)
  | lowprioInsert node message =>
      obtain ⟨hsafe, hafter⟩ := lowprioInsert_spec h.kept
      have hdata := @WorkingCopy.lowprioInsert_spec u d node message h.consistent
      have hsizes := @lowprioInsert_size u d node message message.length
      refine ⟨hsafe, fun hall => ?_⟩
      obtain ⟨hkept, htq, hdq, hlpq⟩ := hafter (hsafe.mp hall)
      refine ⟨hcons, hkept, ?_, ?_, ?_⟩
      · exact (congrArg Block.size htq).trans
          (h.table.trans (congrArg (fun tq => (tq.getD []).length) hdata.2.1.symm))
      · exact (hdq.trans (by rw [h.demand, h.lowPriority])).trans hsizes.1.symm
      · exact (hlpq.trans (by rw [h.demand, h.lowPriority])).trans hsizes.2.symm
  | triggerExecute node trigger => exact triggerExecute_spec u h hvalid

theorem sim_initial : Sim .initial .initial :=
  ⟨WorkingCopy.consistent_initial, kept_initial, rfl, rfl, rfl⟩

/-- In a sequence of calls on the queues of the tests nothing is indexed outside its block exactly if
every call has room. -/
theorem qtest_capacity (u : MessageContainer) (v : TriggerContainer) {calls : List Call}
    (hvalid : ∀ call ∈ calls, call.Valid) :
    EachCall (serve u v) (fun _ _ l _ => Safe l) (.initial, .initial) calls ↔
      Guarded (serve u v) (HasRoom v) (.initial, .initial) calls := by
  refine eachCall_iff_guarded_within (fun s => Sim s.1 s.2) ?_ ?_ sim_initial
    (guarded_of_mem hvalid _)
  · rintro ⟨d, q⟩ call l t h hcall hroom hrun
    obtain ⟨hiff, hsim⟩ := serve_spec (u := u) (v := v) h hcall
    cases hrun
    exact hsim (hiff.mpr hroom)
  · rintro ⟨d, q⟩ call h hcall
    obtain ⟨hiff, -⟩ := serve_spec (u := u) (v := v) h hcall
    constructor
    · rintro ⟨l, t, hrun, hsafe⟩
      cases hrun
      exact hiff.mp hsafe
    · exact fun hroom => ⟨_, _, rfl, hiff.mpr hroom⟩

end Data

end Tests

/-! ## Both copies -/

/-- **Storage capacity.** For every sequence of calls: the copy of the tests indexes `TQ`, `DQ` and
`LPQ` inside their blocks exactly if every call has room, and so does the copy of the module,
whatever its searches find. -/
theorem storage_capacity_iff (u : MessageContainer) (v : TriggerContainer) {calls : List Call}
    (hvalid : ∀ call ∈ calls, call.Valid) :
    (EachCall (Tests.serve u v) (fun _ _ l _ => Safe l) (.initial, .initial) calls ↔
      Guarded (Tests.serve u v) (Tests.HasRoom v) (.initial, .initial) calls) ∧
    ∀ labelled : List (Call × Outcome), labelled.map Prod.fst = calls →
      (EachCall Module.serve (fun _ _ l _ => Safe l) .initial labelled ↔
        Guarded Module.serve Module.HasRoom .initial labelled) :=
  ⟨Tests.qtest_capacity u v hvalid, fun labelled _ => Module.module_capacity labelled⟩

/-- A demand, a low-priority message behind it, and a trigger. -/
theorem storage_capacity_three :
    EachCall (Tests.serve ⟨0, [], 0⟩ ⟨fun _ => 0, fun _ => none, fun _ => 0, 0⟩)
      (fun _ _ l _ => Safe l) (.initial, .initial)
      [.demandInsert 1 [7], .lowprioInsert 2 [8], .triggerInsert 3 0 [9]] := by
  refine (storage_capacity_iff _ _ (by decide)).1.mpr ?_
  refine ⟨(by decide : 0 + 1 < 4294967296), ?_⟩
  rintro _ _ ⟨⟩
  refine ⟨(by decide : 0 + 1 < 4294967296), ?_⟩
  rintro _ _ ⟨⟩
  refine ⟨⟨fun _ => rfl, ?_⟩, fun _ _ _ => trivial⟩
  rintro ⟨i, ⟨⟩, -⟩

theorem emptied_not_safe {u : MessageContainer} {v : TriggerContainer} {d : WorkingCopy.Queues}
    {q : Queues} {node trigger : UInt8} (hempty : q.TQ = { room := some 0, size := 0 }) :
    ¬ Safe (Tests.triggerInsert u v d q node trigger).1 := by
  have hrun : (Tests.triggerInsert u v d q node trigger).1 = [{ room := some 0, index := 0 }] := by
    rw [Tests.triggerInsert, hempty]
    rfl
  rw [hrun, safe_singleton]
  rintro ⟨n, hn, hlt⟩
  cases hn
  exact Nat.not_lt_zero 0 hlt

/-- The table of the tests is emptied and used again; two low-priority messages come to the module
while its demand queue is empty. -/
theorem storage_capacity_outside :
    ¬ EachCall (Tests.serve ⟨0, [], 0⟩ ⟨fun _ => 0, fun _ => none, fun _ => 0, 0⟩)
        (fun _ _ l _ => Safe l) (.initial, .initial)
        [.triggerInsert 1 0 [], .triggerExecute 1 0, .triggerInsert 1 0 []] ∧
      ¬ EachCall Module.serve (fun _ _ l _ => Safe l) .initial
        [(.lowprioInsert 1 [], ⟨fun _ => none, fun _ => false⟩),
          (.lowprioInsert 2 [], ⟨fun _ => none, fun _ => false⟩)] := by
  constructor
  · rintro ⟨l₁, ⟨d₁, q₁⟩, hrun₁, -, l₂, ⟨d₂, q₂⟩, hrun₂, -, l₃, t₃, hrun₃, hsafe, -⟩
    have hempty : q₂.TQ = { room := some 0, size := 0 } := by
      cases hrun₁
      cases hrun₂
      rfl
    cases hrun₃
    exact emptied_not_safe hempty hsafe
  · rintro ⟨l₁, q₁, hrun₁, -, l₂, q₂, hrun₂, hsafe, -⟩
    cases hrun₁
    cases hrun₂
    rcases hsafe _ (List.mem_append_left _ List.mem_cons_self) with ⟨n, hn, hlt⟩
    cases hn
    exact absurd hlt (by decide)

end Storage
end Queue
end EmbeddedOS
