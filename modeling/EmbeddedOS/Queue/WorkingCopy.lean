import EmbeddedOS.Queue.Framing
import EmbeddedOS.Queue.TriggerSlots

/-!
# The queues of the working copy

The insertion and trigger operations of `tests/qtest/queue.c`, and one lemma for each that says
what the operation does to the armed slots and to the two stacks.
-/

namespace EmbeddedOS
namespace Queue
namespace WorkingCopy

/-! ## State -/

/-- `TQ` is null or points to an array with exactly `TQ_size` containers. -/
structure Queues where
  TQ : Option (List TriggerContainer)
  DQ_stack : Stack
  LPQ_stack : Stack

/-- The initial values of the globals. -/
def Queues.initial : Queues :=
  { TQ := none, DQ_stack := { data := none, size := 0 }, LPQ_stack := { data := none, size := 0 } }

namespace Queues

/-- The first `TQ_size` containers. -/
def table (q : Queues) : List TriggerContainer := q.TQ.getD []

/-- The demand queue. -/
def demand (q : Queues) : List MessageContainer := q.DQ_stack.contents

/-- The low-priority queue. -/
def lowPriority (q : Queues) : List MessageContainer := q.LPQ_stack.contents

end Queues

/-! ## Operations -/

section Operations

variable (uninit : MessageContainer) (uninitT : TriggerContainer)

def demandInsert (q : Queues) (node : UInt8) (message : List UInt8) (tb : Bool)
    (messageSize : Nat) : Queues :=
  if q.DQ_stack.size = 0 then
    { q with DQ_stack := initStack uninit q.DQ_stack node message messageSize }
  else if tb then { q with DQ_stack := push uninit q.DQ_stack node message messageSize }
  else { q with DQ_stack := pushBack uninit q.DQ_stack node message messageSize }

/-- The first `n` rounds of the promotion loop. -/
def promote (q : Queues) : Nat → Queues
  | 0 => q
  | i + 1 =>
      let q := promote q i
      let c := (q.LPQ_stack.data.getD []).getD i uninit
      demandInsert uninit q c.node.toUInt8 c.message false c.messageSize

def lowprioInsert (q : Queues) (node : UInt8) (message : List UInt8) (messageSize : Nat) :
    Queues :=
  let lpq := if q.LPQ_stack.size = 0 then initStack uninit q.LPQ_stack node message messageSize
    else pushBack uninit q.LPQ_stack node message messageSize
  let q := { q with LPQ_stack := lpq }
  if q.DQ_stack.size = 0 then
    let q := promote uninit q q.LPQ_stack.size
    { q with LPQ_stack := { data := some (alt uninit (q.LPQ_stack.data.getD []) 1), size := 0 } }
  else q

def triggerExecute (q : Queues) (node trigger : UInt8) : Int × Queues :=
  match lookup node.toUInt32 q.table with
  | none => (-1, q)
  | some i =>
      let temp := q.table.getD i uninitT
      if getBit temp.bitmap trigger.toNat then
        let q := demandInsert uninit q temp.node.toUInt8
          ((temp.messages trigger.toNat).getD []) true (temp.messageSize trigger.toNat)
        let temp := temp.disarm trigger.toNat
        let map := q.table.set i temp
        if temp.bitmap 0 = 0#32 ∧ temp.bitmap 1 = 0#32 then
          (0, { q with TQ := some (removeNode uninitT map node.toUInt32) })
        else (0, { q with TQ := some map })
      else (-1, q)

/-- The end of `triggerInsert`: a container of its own for the node. -/
def insertContainer (q : Queues) (node trigger : UInt8) (message : List UInt8)
    (messageSize : Nat) : Int × Queues :=
  match insert uninitT q.table node.toUInt32 with
  | (0, map) =>
      match lookup node.toUInt32 map with
      -- `insert` has just put the node into the table.
      | none => (0, q)
      | some i =>
          let container := (map.getD i uninitT).reset node.toUInt32
          (0, { q with TQ := some (map.set i (container.put trigger.toNat message messageSize)) })
  | (ret, _) => (ret, q)

def triggerInsert (q : Queues) (node trigger : UInt8) (message : List UInt8)
    (messageSize : Nat) : Int × Queues :=
  match q.TQ with
  | none | some [] =>
      let container := uninitT.reset node.toUInt32
      (0, { q with TQ := some [container.put trigger.toNat message messageSize] })
  | some (c :: cs) =>
      match lookup node.toUInt32 (c :: cs) with
      | some i =>
          let temp := (c :: cs).getD i uninitT
          if getBit temp.bitmap trigger.toNat then
            match triggerExecute uninit uninitT q node trigger with
            | (0, q) => insertContainer uninitT q node trigger message messageSize
            | (ret, q) => (ret, q)
          else
            (0, { q with
              TQ := some ((c :: cs).set i (temp.put trigger.toNat message messageSize)) })
      | none => insertContainer uninitT q node trigger message messageSize

/-- Serving one call of `getMessage`. -/
def serve (q : Queues) : Call → Queues
  | .triggerInsert node trigger message =>
      (triggerInsert uninit uninitT q node trigger message message.length).2
  | .demandInsert node message => demandInsert uninit q node message false message.length
  | .lowprioInsert node message => lowprioInsert uninit q node message message.length
  | .triggerExecute node trigger => (triggerExecute uninit uninitT q node trigger).2

end Operations

/-! ## Invariant -/

/-- What every operation keeps. -/
structure Consistent (q : Queues) : Prop where
  ordered : Ordered q.table
  loaded : ∀ c ∈ q.table, c.Loaded
  occupied : ∀ c ∈ q.table, ∃ t, t < 64 ∧ getBit c.bitmap t = true
  demandBacked : q.DQ_stack.Backed
  lowPriorityBacked : q.LPQ_stack.Backed
  demandWhole : ∀ c ∈ q.demand, c.Whole
  lowPriorityWhole : ∀ c ∈ q.lowPriority, c.Whole

theorem consistent_initial : Consistent .initial := by
  refine ⟨⟨.nil, ?_⟩, ?_, ?_, Nat.le_refl _, Nat.le_refl _, ?_, ?_⟩ <;>
    simp [Queues.initial, Queues.table, Queues.demand, Queues.lowPriority, Stack.contents]

section Specs

variable {u : MessageContainer} {v : TriggerContainer} {q : Queues} {node trigger : UInt8}
  {message : List UInt8}

/-! ## The stacks -/

theorem demandInsert_spec (h : Consistent q) (tb : Bool) :
    Consistent (demandInsert u q node message tb message.length) ∧
      (demandInsert u q node message tb message.length).demand
        = (if tb then entry node.toUInt32 message :: q.demand
            else q.demand ++ [entry node.toUInt32 message]) := by
  have hwhole := whole_entry (smallNode_toUInt32 node) message
  have keep : ∀ s : Stack, s.Backed →
      s.contents = (if tb then entry node.toUInt32 message :: q.demand
        else q.demand ++ [entry node.toUInt32 message]) →
      Consistent { q with DQ_stack := s } := by
    intro s hs hcontents
    refine ⟨h.ordered, h.loaded, h.occupied, hs, h.lowPriorityBacked, ?_, h.lowPriorityWhole⟩
    intro c hc
    have hc' : c ∈ s.contents := hc
    rw [hcontents] at hc'
    cases tb with
    | true =>
        rcases List.mem_cons.mp hc' with rfl | hc'
        · exact hwhole
        · exact h.demandWhole c hc'
    | false =>
        rcases List.mem_append.mp hc' with hc' | hc'
        · exact h.demandWhole c hc'
        · rw [List.mem_singleton.mp hc']
          exact hwhole
  by_cases hempty : q.DQ_stack.size = 0
  · have hspec := @initStack_spec u q.DQ_stack node message message.length
    rw [container_whole] at hspec
    have hnil : q.demand = [] := contents_nil hempty
    have heq : (initStack u q.DQ_stack node message message.length).contents
        = (if tb then entry node.toUInt32 message :: q.demand
            else q.demand ++ [entry node.toUInt32 message]) := by
      rw [hspec.2, hnil]
      cases tb <;> rfl
    rw [demandInsert, if_pos hempty]
    exact ⟨keep _ hspec.1 heq, heq⟩
  · rw [demandInsert, if_neg hempty]
    cases tb with
    | true =>
        have hspec := @push_spec u q.DQ_stack node message message.length h.demandBacked
        rw [container_whole] at hspec
        exact ⟨keep _ hspec.1 hspec.2, hspec.2⟩
    | false =>
        have hspec := @pushBack_spec u q.DQ_stack node message message.length h.demandBacked
        rw [container_whole] at hspec
        exact ⟨keep _ hspec.1 hspec.2, hspec.2⟩

theorem demandInsert_frame (tb : Bool) (size : Nat) :
    (demandInsert u q node message tb size).TQ = q.TQ ∧
      (demandInsert u q node message tb size).LPQ_stack = q.LPQ_stack := by
  unfold demandInsert
  split
  · exact ⟨rfl, rfl⟩
  · split <;> exact ⟨rfl, rfl⟩

/-- After `i` rounds the first `i` low-priority messages stand at the end of the demand queue. -/
theorem promote_spec (h : Consistent q) {i : Nat} (hi : i ≤ q.LPQ_stack.size) :
    Consistent (promote u q i) ∧ (promote u q i).TQ = q.TQ ∧
      (promote u q i).LPQ_stack = q.LPQ_stack ∧
      (promote u q i).demand = q.demand ++ q.lowPriority.take i := by
  induction i with
  | zero => exact ⟨h, rfl, rfl, by simp [promote]⟩
  | succ i ih =>
      rcases ih (Nat.le_of_succ_le hi) with ⟨hcons, htq, hlpq, hdemand⟩
      have hlen : i < q.lowPriority.length := by
        rw [Queues.lowPriority, contents_length h.lowPriorityBacked]
        exact hi
      have hlen' : i < (q.LPQ_stack.data.getD []).length :=
        Nat.lt_of_lt_of_le hi h.lowPriorityBacked
      -- The loop reads element `i` of the array, which is element `i` of the queue.
      have hread : ((promote u q i).LPQ_stack.data.getD []).getD i u = q.lowPriority[i] := by
        rw [hlpq, List.getD_eq_getElem?_getD, List.getElem?_eq_getElem hlen']
        simp [Queues.lowPriority, Stack.contents]
      have hwhole : q.lowPriority[i].Whole :=
        h.lowPriorityWhole _ (List.getElem_mem hlen)
      have hcopy : entry q.lowPriority[i].node.toUInt8.toUInt32 q.lowPriority[i].message
          = q.lowPriority[i] := by
        rw [← container_whole, ← hwhole.size, hwhole.copy]
      have hspec := @demandInsert_spec u (promote u q i) q.lowPriority[i].node.toUInt8
        q.lowPriority[i].message hcons false
      have hframe := @demandInsert_frame u (promote u q i) q.lowPriority[i].node.toUInt8
        q.lowPriority[i].message false q.lowPriority[i].message.length
      rw [promote, hread, hwhole.size]
      refine ⟨hspec.1, hframe.1.trans htq, hframe.2.trans hlpq, ?_⟩
      rw [hspec.2, hdemand, hcopy, List.take_add_one, List.getElem?_eq_getElem hlen]
      simp

/-- A low-priority message waits, unless the demand queue is empty: then all waiting messages
move there in their order. -/
theorem lowprioInsert_spec (h : Consistent q) :
    Consistent (lowprioInsert u q node message message.length) ∧
      (lowprioInsert u q node message message.length).TQ = q.TQ ∧
      (if q.demand = [] then
        (lowprioInsert u q node message message.length).demand
            = q.lowPriority ++ [entry node.toUInt32 message] ∧
          (lowprioInsert u q node message message.length).lowPriority = []
      else
        (lowprioInsert u q node message message.length).demand = q.demand ∧
          (lowprioInsert u q node message message.length).lowPriority
            = q.lowPriority ++ [entry node.toUInt32 message]) := by
  have hwhole := whole_entry (smallNode_toUInt32 node) message
  -- Both insertion functions append.
  have happend : ∃ lpq : Stack, lpq.Backed ∧
      lpq.contents = q.lowPriority ++ [entry node.toUInt32 message] ∧
      lpq = (if q.LPQ_stack.size = 0 then initStack u q.LPQ_stack node message message.length
        else pushBack u q.LPQ_stack node message message.length) := by
    by_cases hempty : q.LPQ_stack.size = 0
    · have hspec := @initStack_spec u q.LPQ_stack node message message.length
      have hnil : q.lowPriority = [] := contents_nil hempty
      rw [container_whole] at hspec
      rw [if_pos hempty, hnil]
      exact ⟨_, hspec.1, hspec.2, rfl⟩
    · have hspec := @pushBack_spec u q.LPQ_stack node message message.length h.lowPriorityBacked
      rw [container_whole] at hspec
      rw [if_neg hempty]
      exact ⟨_, hspec.1, hspec.2, rfl⟩
  rcases happend with ⟨lpq, hback, hcontents, hlpq⟩
  have hq' : Consistent { q with LPQ_stack := lpq } := by
    refine ⟨h.ordered, h.loaded, h.occupied, h.demandBacked, hback, h.demandWhole, ?_⟩
    intro c hc
    have hc' : c ∈ lpq.contents := hc
    rw [hcontents] at hc'
    rcases List.mem_append.mp hc' with hc' | hc'
    · exact h.lowPriorityWhole c hc'
    · rw [List.mem_singleton.mp hc']
      exact hwhole
  have hdemand : q.demand = [] ↔ q.DQ_stack.size = 0 := by
    rw [← List.length_eq_zero_iff, Queues.demand, contents_length h.demandBacked]
  rw [lowprioInsert, ← hlpq]
  by_cases hempty : q.DQ_stack.size = 0
  · rw [if_pos (hdemand.mpr hempty)]
    simp only [hempty, if_true]
    rcases promote_spec (u := u) hq' (Nat.le_refl lpq.size) with ⟨hcons, htq, hkeep, hmoved⟩
    have hall : (promote u { q with LPQ_stack := lpq } lpq.size).demand
        = q.lowPriority ++ [entry node.toUInt32 message] := by
      have hlen : lpq.contents.length = lpq.size := contents_length hback
      calc
        (promote u { q with LPQ_stack := lpq } lpq.size).demand
            = q.demand ++ lpq.contents.take lpq.size := hmoved
        _ = lpq.contents := by
              rw [hdemand.mpr hempty, ← hlen, List.take_length, List.nil_append]
        _ = q.lowPriority ++ [entry node.toUInt32 message] := hcontents
    refine ⟨⟨hcons.ordered, hcons.loaded, hcons.occupied, hcons.demandBacked, Nat.zero_le _,
      hcons.demandWhole, ?_⟩, htq, hall, ?_⟩
    · intro c hc
      simp [Queues.lowPriority, Stack.contents] at hc
    · simp [Queues.lowPriority, Stack.contents]
  · have hne : q.demand ≠ [] := fun hnil => hempty (hdemand.mp hnil)
    rw [if_neg hne]
    rw [if_neg hempty]
    exact ⟨hq', rfl, rfl, hcontents⟩

/-! ## Triggers -/

/-- The container that a search finds for an unarmed trigger. -/
theorem Consistent.unarmed_at (h : Consistent q) (ht : trigger.toNat < 64)
    (hno : ∀ m, (⟨node.toUInt32, trigger.toNat, m⟩ : Slot) ∉ slots q.table) {i : Nat}
    (hi : lookup node.toUInt32 q.table = some i) :
    ∃ pre c post, q.table = pre ++ c :: post ∧ pre.length = i ∧ c.node = node.toUInt32 ∧
      c ∈ q.table ∧ q.table.getD i v = c ∧ getBit c.bitmap trigger.toNat = false := by
  rcases h.ordered.lookup_some (smallNode_toUInt32 node) hi with ⟨pre, c, post, htable, hlen, hnode⟩
  have hc : c ∈ q.table := by
    rw [htable]
    exact List.mem_append_right _ List.mem_cons_self
  have hget : q.table.getD i v = c := by
    rw [htable, ← hlen]
    simp
  refine ⟨pre, c, post, htable, hlen, hnode, hc, hget, ?_⟩
  rw [Bool.eq_false_iff]
  intro hbit
  rcases (h.loaded c hc).armed_of_getBit ht hbit with ⟨m, harmed, _⟩
  exact hno m (mem_slots.mpr ⟨ht, c, hc, hnode, harmed⟩)

/-- Firing an unarmed trigger does nothing. -/
theorem triggerExecute_unarmed (h : Consistent q) (ht : trigger.toNat < 64)
    (hno : ∀ m, (⟨node.toUInt32, trigger.toNat, m⟩ : Slot) ∉ slots q.table) :
    triggerExecute u v q node trigger = (-1, q) := by
  rw [triggerExecute]
  cases hi : lookup node.toUInt32 q.table with
  | none => rfl
  | some i =>
      rcases h.unarmed_at (v := v) ht hno hi with ⟨_, c, _, -, -, -, -, hget, hbit⟩
      simp only [hget, hbit, Bool.false_eq_true, if_false]

/-- A node of the table has an armed trigger. -/
theorem Consistent.node_iff (h : Consistent q) {n : UInt32} :
    (∃ c ∈ q.table, c.node = n) ↔ ∃ x ∈ slots q.table, x.node = n := by
  constructor
  · rintro ⟨c, hc, hnode⟩
    rcases h.occupied c hc with ⟨t, ht, hbit⟩
    rcases (h.loaded c hc).armed_of_getBit ht hbit with ⟨m, harmed, _⟩
    exact ⟨⟨n, t, m⟩, mem_slots.mpr ⟨ht, c, hc, hnode, harmed⟩, rfl⟩
  · rintro ⟨x, hx, hnode⟩
    rcases mem_slots.mp hx with ⟨_, c, hc, hcn, _⟩
    exact ⟨c, hc, hcn.trans hnode⟩

/-- Another table in place of the old one. -/
theorem Consistent.withTable (h : Consistent q) {table : List TriggerContainer}
    (hord : Ordered table) (hload : ∀ c ∈ table, c.Loaded)
    (hocc : ∀ c ∈ table, ∃ t, t < 64 ∧ getBit c.bitmap t = true) :
    Consistent { q with TQ := some table } :=
  ⟨hord, hload, hocc, h.demandBacked, h.lowPriorityBacked, h.demandWhole, h.lowPriorityWhole⟩

/-- Firing an armed trigger puts its message on top of the demand queue and takes exactly its
slot out of the table. -/
theorem triggerExecute_armed (h : Consistent q) (ht : trigger.toNat < 64)
    (hslot : (⟨node.toUInt32, trigger.toNat, message⟩ : Slot) ∈ slots q.table) :
    ∃ q', triggerExecute u v q node trigger = (0, q') ∧ Consistent q' ∧
      q'.demand = entry node.toUInt32 message :: q.demand ∧ q'.LPQ_stack = q.LPQ_stack ∧
      (slots q.table).Perm (⟨node.toUInt32, trigger.toNat, message⟩ :: slots q'.table) := by
  rcases mem_slots.mp hslot with ⟨_, d, hd, hdnode, hdarmed⟩
  cases hi : lookup node.toUInt32 q.table with
  | none => exact absurd hdnode (h.ordered.lookup_none (smallNode_toUInt32 node) hi d hd)
  | some i =>
      rcases h.ordered.lookup_some (smallNode_toUInt32 node) hi with
        ⟨pre, c, post, htable, hlen, hnode⟩
      have hc : c ∈ q.table := by
        rw [htable]
        exact List.mem_append_right _ List.mem_cons_self
      have hcd : d = c := h.ordered.unique hd hc (hdnode.trans hnode.symm)
      subst hcd
      have hget : q.table.getD i v = d := by
        rw [htable, ← hlen]
        simp
      have hbit : getBit d.bitmap trigger.toNat = true := by
        by_contra hbit
        rw [TriggerContainer.armed_eq_none (Bool.eq_false_iff.mpr hbit)] at hdarmed
        cases hdarmed
      rcases (h.loaded d hd).armed_of_getBit ht hbit with ⟨m, harmed, hmessage, hsize⟩
      have hm : m = message := Option.some.inj (harmed.symm.trans hdarmed)
      subst hm
      have hnode8 : d.node.toUInt8 = node := by
        rw [hnode]
        simp
      have hins := @demandInsert_spec u q node m h true
      have hframe := @demandInsert_frame u q node m true m.length
      have htq : (demandInsert u q node m true m.length).table = q.table := by
        rw [Queues.table, hframe.1]
        rfl
      have hmap : q.table.set i (d.disarm trigger.toNat)
          = pre ++ d.disarm trigger.toNat :: post := by
        rw [htable, ← hlen]
        simp
      have hold : Ordered (pre ++ d :: post) := htable ▸ h.ordered
      have hord : Ordered (pre ++ d.disarm trigger.toNat :: post) := hold.replace rfl
      have hothers : ∀ c ∈ pre ++ post, c ∈ q.table := by
        intro c hc
        rw [htable]
        exact (List.Sublist.append_left (List.sublist_cons_self d post) pre).subset hc
      have hslots : (slots q.table).Perm (⟨node.toUInt32, trigger.toNat, m⟩ ::
          slots (pre ++ d.disarm trigger.toNat :: post)) := by
        have hdis := TriggerContainer.slots_disarm ht harmed
        rw [hnode] at hdis
        calc
          (slots q.table).Perm (d.slots ++ slots (pre ++ post)) := by
            rw [htable]
            exact slots_middle
          (d.slots ++ slots (pre ++ post)).Perm
              ((⟨node.toUInt32, trigger.toNat, m⟩ :: (d.disarm trigger.toNat).slots)
                ++ slots (pre ++ post)) := hdis.append_right _
          (⟨node.toUInt32, trigger.toNat, m⟩ :: ((d.disarm trigger.toNat).slots
              ++ slots (pre ++ post))).Perm
              (⟨node.toUInt32, trigger.toNat, m⟩ ::
                slots (pre ++ d.disarm trigger.toNat :: post)) := slots_middle.symm.cons _
      have hrun : triggerExecute u v q node trigger
          = if (d.disarm trigger.toNat).bitmap 0 = 0#32 ∧ (d.disarm trigger.toNat).bitmap 1 = 0#32
            then (0, { demandInsert u q node m true m.length with
              TQ := some (removeNode v (pre ++ d.disarm trigger.toNat :: post) node.toUInt32) })
            else (0, { demandInsert u q node m true m.length with
              TQ := some (pre ++ d.disarm trigger.toNat :: post) }) := by
        rw [triggerExecute, hi]
        simp only [hget, hbit, if_true, hnode8, hmessage, hsize, Option.getD_some, htq, hmap]
      by_cases hzero : (d.disarm trigger.toNat).bitmap 0 = 0#32 ∧
          (d.disarm trigger.toNat).bitmap 1 = 0#32
      · -- The node's last trigger: its container goes.
        rw [if_pos hzero] at hrun
        have hremove := hord.removeNode_spec v
        have hnode' : (d.disarm trigger.toNat).node = node.toUInt32 := hnode
        rw [hnode'] at hremove
        refine ⟨_, hrun, hins.1.withTable hremove.1 ?_ ?_, hins.2, hframe.2, ?_⟩
        · intro c hc
          exact h.loaded c (hothers c (hremove.2.mem_iff.mp hc))
        · intro c hc
          exact h.occupied c (hothers c (hremove.2.mem_iff.mp hc))
        · have hempty : (d.disarm trigger.toNat).slots = [] := by
            refine TriggerContainer.slots_eq_nil ?_
            intro s hs
            exact TriggerContainer.armed_eq_none ((words_zero_iff _).mp hzero s hs)
          refine hslots.trans (List.Perm.cons _ ?_)
          have hmid := @slots_middle pre post (d.disarm trigger.toNat)
          rw [hempty, List.nil_append] at hmid
          exact hmid.trans (slots_perm hremove.2).symm
      · rw [if_neg hzero] at hrun
        refine ⟨_, hrun, hins.1.withTable hord ?_ ?_, hins.2, hframe.2, hslots⟩
        · intro c hc
          rcases List.mem_cons.mp (List.perm_middle.mem_iff.mp hc) with rfl | hc
          · exact (h.loaded d hd).disarm _
          · exact h.loaded c (hothers c hc)
        · intro c hc
          rcases List.mem_cons.mp (List.perm_middle.mem_iff.mp hc) with rfl | hc
          · by_contra hnone
            refine hzero ((words_zero_iff _).mpr ?_)
            intro t ht
            rw [Bool.eq_false_iff]
            intro hbit
            exact hnone ⟨t, ht, hbit⟩
          · exact h.occupied c (hothers c hc)

/-- A node that is not in the table gets a container with the one trigger armed. -/
theorem insertContainer_spec (h : Consistent q) (ht : trigger.toNat < 64)
    (hno : ∀ c ∈ q.table, c.node ≠ node.toUInt32) :
    ∃ q', insertContainer v q node trigger message message.length = (0, q') ∧ Consistent q' ∧
      q'.demand = q.demand ∧ q'.LPQ_stack = q.LPQ_stack ∧
      (slots q'.table).Perm (⟨node.toUInt32, trigger.toNat, message⟩ :: slots q.table) := by
  have hsmall := smallNode_toUInt32 node
  rcases h.ordered.insert_spec v hsmall hno with ⟨map, hins, hord, hperm⟩
  have hnew : ({ v with node := node.toUInt32 } : TriggerContainer) ∈ map :=
    hperm.mem_iff.mpr List.mem_cons_self
  cases hi : lookup node.toUInt32 map with
  | none => exact absurd rfl (hord.lookup_none hsmall hi _ hnew)
  | some i =>
      rcases hord.lookup_some hsmall hi with ⟨pre, c, post, hmap, hlen, hnode⟩
      subst hmap
      have hc : c ∈ pre ++ c :: post := List.mem_append_right _ List.mem_cons_self
      have hcv : c = { v with node := node.toUInt32 } := hord.unique hc hnew hnode
      have hrest : (pre ++ post).Perm q.table := by
        have hcons : (c :: (pre ++ post)).Perm (c :: q.table) :=
          List.perm_middle.symm.trans (hcv ▸ hperm)
        exact hcons.cons_inv
      have hget : (pre ++ c :: post).getD i v = c := by
        rw [← hlen]
        simp
      have hset : (pre ++ c :: post).set i ((c.reset node.toUInt32).put trigger.toNat message
          message.length) = pre ++ (c.reset node.toUInt32).put trigger.toNat message
            message.length :: post := by
        rw [← hlen]
        simp
      have hput := TriggerContainer.slots_put ht
        (TriggerContainer.armed_reset c node.toUInt32) message
      rw [TriggerContainer.slots_reset] at hput
      refine ⟨_, ?_, h.withTable (hord.replace (d := (c.reset node.toUInt32).put trigger.toNat
        message message.length) hnode.symm) ?_ ?_, rfl, rfl, ?_⟩
      · rw [insertContainer, hins]
        simp only [hi, hget, hset]
      · intro d hd
        rcases List.mem_cons.mp (List.perm_middle.mem_iff.mp hd) with rfl | hd
        · exact (TriggerContainer.loaded_reset c _).put _ _
        · exact h.loaded d (hrest.mem_iff.mp hd)
      · intro d hd
        rcases List.mem_cons.mp (List.perm_middle.mem_iff.mp hd) with rfl | hd
        · exact ⟨trigger.toNat, ht, by simp [TriggerContainer.put, getBit_setBit]⟩
        · exact h.occupied d (hrest.mem_iff.mp hd)
      · exact slots_middle.trans (hput.append (slots_perm hrest))

/-- The table is empty: its first container is written without a search. -/
theorem triggerInsert_first (hnil : q.table = []) (size : Nat) :
    triggerInsert u v q node trigger message size
      = (0, { q with TQ := some [(v.reset node.toUInt32).put trigger.toNat message size] }) := by
  cases q with
  | mk TQ DQ_stack LPQ_stack =>
      cases TQ with
      | none => rfl
      | some table =>
          have htable : table = [] := hnil
          subst htable
          rfl

/-- The table is not empty: it is searched for the node. -/
theorem triggerInsert_search (hne : q.table ≠ []) (size : Nat) :
    triggerInsert u v q node trigger message size
      = match lookup node.toUInt32 q.table with
        | some i =>
            if getBit (q.table.getD i v).bitmap trigger.toNat then
              match triggerExecute u v q node trigger with
              | (0, q) => insertContainer v q node trigger message size
              | (ret, q) => (ret, q)
            else (0, { q with
              TQ := some (q.table.set i ((q.table.getD i v).put trigger.toNat message size)) })
        | none => insertContainer v q node trigger message size := by
  cases q with
  | mk TQ DQ_stack LPQ_stack =>
      cases TQ with
      | none => exact absurd rfl hne
      | some table =>
          cases table with
          | nil => exact absurd rfl hne
          | cons c cs => rfl

/-- A trigger that is not armed is armed with the message; nothing else changes. -/
theorem triggerInsert_unarmed (h : Consistent q) (ht : trigger.toNat < 64)
    (hno : ∀ m, (⟨node.toUInt32, trigger.toNat, m⟩ : Slot) ∉ slots q.table) :
    ∃ q', triggerInsert u v q node trigger message message.length = (0, q') ∧ Consistent q' ∧
      q'.demand = q.demand ∧ q'.LPQ_stack = q.LPQ_stack ∧
      (slots q'.table).Perm (⟨node.toUInt32, trigger.toNat, message⟩ :: slots q.table) := by
  have hsmall := smallNode_toUInt32 node
  have hbitPut : ∀ c : TriggerContainer, ∃ t, t < 64 ∧
      getBit (c.put trigger.toNat message message.length).bitmap t = true :=
    fun c => ⟨trigger.toNat, ht, by simp [TriggerContainer.put, getBit_setBit]⟩
  by_cases hnil : q.table = []
  · have hput : ((v.reset node.toUInt32).put trigger.toNat message message.length).slots.Perm
        [⟨node.toUInt32, trigger.toNat, message⟩] := by
      have h := TriggerContainer.slots_put ht
        (TriggerContainer.armed_reset v node.toUInt32) message
      rw [TriggerContainer.slots_reset] at h
      exact h
    refine ⟨_, triggerInsert_first hnil _, h.withTable ⟨List.pairwise_singleton _ _, ?_⟩ ?_ ?_,
      rfl, rfl, ?_⟩
    · intro c hc
      rw [List.mem_singleton.mp hc]
      exact hsmall
    · intro c hc
      rw [List.mem_singleton.mp hc]
      exact (TriggerContainer.loaded_reset v _).put _ _
    · intro c hc
      rw [List.mem_singleton.mp hc]
      exact hbitPut _
    · have hempty : slots q.table = [] := by
        rw [hnil]
        rfl
      rw [hempty]
      simpa [slots, Queues.table] using hput
  · rw [triggerInsert_search hnil]
    cases hi : lookup node.toUInt32 q.table with
    | none => exact insertContainer_spec h ht (h.ordered.lookup_none hsmall hi)
    | some i =>
        rcases h.unarmed_at (v := v) ht hno hi with
          ⟨pre, c, post, htable, hlen, hnode, hc, hget, hbit⟩
        have hset : q.table.set i (c.put trigger.toNat message message.length)
            = pre ++ c.put trigger.toNat message message.length :: post := by
          rw [htable, ← hlen]
          simp
        have hold : Ordered (pre ++ c :: post) := htable ▸ h.ordered
        have hothers : ∀ d ∈ pre ++ post, d ∈ q.table := by
          intro d hd
          rw [htable]
          exact (List.Sublist.append_left (List.sublist_cons_self c post) pre).subset hd
        have hput := TriggerContainer.slots_put ht (TriggerContainer.armed_eq_none hbit) message
        rw [hnode] at hput
        have hreplace : Ordered (pre ++ c.put trigger.toNat message message.length :: post) :=
          hold.replace rfl
        simp only [hget, hbit, Bool.false_eq_true, if_false, hset]
        refine ⟨_, rfl, h.withTable hreplace ?_ ?_, rfl, rfl, ?_⟩
        · intro d hd
          rcases List.mem_cons.mp (List.perm_middle.mem_iff.mp hd) with rfl | hd
          · exact (h.loaded c hc).put _ _
          · exact h.loaded d (hothers d hd)
        · intro d hd
          rcases List.mem_cons.mp (List.perm_middle.mem_iff.mp hd) with rfl | hd
          · exact hbitPut _
          · exact h.occupied d (hothers d hd)
        · have hmid : (slots (pre ++ c.put trigger.toNat message message.length :: post)).Perm
              ((⟨node.toUInt32, trigger.toNat, message⟩ :: c.slots) ++ slots (pre ++ post)) :=
            slots_middle.trans (hput.append_right _)
          have hback : (c.slots ++ slots (pre ++ post)).Perm (slots q.table) := by
            rw [htable]
            exact slots_middle.symm
          exact hmid.trans (hback.cons _)

/-- Some other trigger of the node is armed as well. -/
def Crowded (q : Queues) (node trigger : UInt8) : Prop :=
  ∃ x ∈ slots q.table, x.node = node.toUInt32 ∧ x.trigger ≠ trigger.toNat

/-- A trigger that is already armed is fired. The new message takes its slot only when the node
has no other armed trigger; otherwise `insert` finds the node, and the message is dropped. -/
theorem triggerInsert_armed (h : Consistent q) (ht : trigger.toNat < 64) {old : List UInt8}
    (hslot : (⟨node.toUInt32, trigger.toNat, old⟩ : Slot) ∈ slots q.table) :
    ∃ ret q' rest, triggerInsert u v q node trigger message message.length = (ret, q') ∧
      Consistent q' ∧ q'.demand = entry node.toUInt32 old :: q.demand ∧
      q'.LPQ_stack = q.LPQ_stack ∧
      (slots q.table).Perm (⟨node.toUInt32, trigger.toNat, old⟩ :: rest) ∧
      (Crowded q node trigger → (slots q'.table).Perm rest) ∧
      (¬ Crowded q node trigger →
        (slots q'.table).Perm (⟨node.toUInt32, trigger.toNat, message⟩ :: rest)) := by
  have hsmall := smallNode_toUInt32 node
  rcases mem_slots.mp hslot with ⟨_, d, hd, hdnode, hdarmed⟩
  have hne : q.table ≠ [] := List.ne_nil_of_mem hd
  rcases triggerExecute_armed (u := u) (v := v) h ht hslot with
    ⟨q', hfire, hq', hdemand, hlpq, hperm⟩
  -- What is left of the node after the shot is what crowds the slot.
  have hnodup : (⟨node.toUInt32, trigger.toNat, old⟩ : Slot) ∉ slots q'.table :=
    (List.nodup_cons.mp (hperm.nodup_iff.mp h.ordered.slots_nodup)).1
  have hcrowd : Crowded q node trigger ↔ ∃ c ∈ q'.table, c.node = node.toUInt32 := by
    rw [hq'.node_iff]
    constructor
    · rintro ⟨x, hx, hnode, htrigger⟩
      rcases List.mem_cons.mp (hperm.mem_iff.mp hx) with rfl | hx
      · exact absurd rfl htrigger
      · exact ⟨x, hx, hnode⟩
    · rintro ⟨x, hx, hnode⟩
      have hxq : x ∈ slots q.table := hperm.mem_iff.mpr (List.mem_cons_of_mem _ hx)
      refine ⟨x, hxq, hnode, ?_⟩
      intro htrigger
      have hmessage : x.message = old := h.ordered.slot_unique hxq hslot hnode htrigger
      refine hnodup ?_
      rw [← hnode, ← htrigger, ← hmessage]
      exact hx
  have hrun : triggerInsert u v q node trigger message message.length
      = insertContainer v q' node trigger message message.length := by
    rw [triggerInsert_search hne]
    cases hi : lookup node.toUInt32 q.table with
    | none => exact absurd hdnode (h.ordered.lookup_none hsmall hi d hd)
    | some i =>
        rcases h.ordered.lookup_some hsmall hi with ⟨pre, c, post, htable, hlen, hnode⟩
        have hc : c ∈ q.table := by
          rw [htable]
          exact List.mem_append_right _ List.mem_cons_self
        have hcd : c = d := h.ordered.unique hc hd (hnode.trans hdnode.symm)
        have hget : q.table.getD i v = d := by
          rw [htable, ← hlen, hcd]
          simp
        have hbit : getBit d.bitmap trigger.toNat = true := by
          by_contra hbit
          rw [TriggerContainer.armed_eq_none (Bool.eq_false_iff.mpr hbit)] at hdarmed
          cases hdarmed
        simp only [hget, hbit, if_true, hfire]
  by_cases hcase : Crowded q node trigger
  · rcases hcrowd.mp hcase with ⟨c, hc, hnode⟩
    have hstay : insertContainer v q' node trigger message message.length = (1, q') := by
      rw [insertContainer, insert]
      cases hi : lookup node.toUInt32 q'.table with
      | none => exact absurd hnode (hq'.ordered.lookup_none hsmall hi c hc)
      | some i => rfl
    exact ⟨1, q', slots q'.table, hrun.trans hstay, hq', hdemand, hlpq, hperm,
      fun _ => List.Perm.refl _, fun hfree => absurd hcase hfree⟩
  · have hno : ∀ c ∈ q'.table, c.node ≠ node.toUInt32 :=
      fun c hc hnode => hcase (hcrowd.mpr ⟨c, hc, hnode⟩)
    rcases @insertContainer_spec v q' node trigger message hq' ht hno with
      ⟨q'', hput, hq'', hdemand', hlpq', hslots⟩
    exact ⟨0, q'', slots q'.table, hrun.trans hput, hq'', hdemand'.trans hdemand,
      hlpq'.trans hlpq, hperm, fun h => absurd h hcase, fun _ => hslots⟩

end Specs

/-! ## One call -/

/-- What a call does, by case: `armed`, `rearmed` and `dropped` for a trigger message, `fired`
and `missed` for a trigger, `waited` and `promoted` for a low-priority message. -/
inductive Served (q q' : Queues) : Call → Prop where
  | armed {node trigger : UInt8} {message : List UInt8} :
      (∀ m, (⟨node.toUInt32, trigger.toNat, m⟩ : Slot) ∉ slots q.table) →
      (slots q'.table).Perm (⟨node.toUInt32, trigger.toNat, message⟩ :: slots q.table) →
      q'.demand = q.demand → q'.lowPriority = q.lowPriority →
      Served q q' (.triggerInsert node trigger message)
  | rearmed {node trigger : UInt8} {message old : List UInt8} {rest : List Slot} :
      (slots q.table).Perm (⟨node.toUInt32, trigger.toNat, old⟩ :: rest) →
      ¬ Crowded q node trigger →
      (slots q'.table).Perm (⟨node.toUInt32, trigger.toNat, message⟩ :: rest) →
      q'.demand = entry node.toUInt32 old :: q.demand → q'.lowPriority = q.lowPriority →
      Served q q' (.triggerInsert node trigger message)
  | dropped {node trigger : UInt8} {message old : List UInt8} {rest : List Slot} :
      (slots q.table).Perm (⟨node.toUInt32, trigger.toNat, old⟩ :: rest) →
      Crowded q node trigger → (slots q'.table).Perm rest →
      q'.demand = entry node.toUInt32 old :: q.demand → q'.lowPriority = q.lowPriority →
      Served q q' (.triggerInsert node trigger message)
  | demanded {node : UInt8} {message : List UInt8} :
      q'.table = q.table → q'.demand = q.demand ++ [entry node.toUInt32 message] →
      q'.lowPriority = q.lowPriority → Served q q' (.demandInsert node message)
  | waited {node : UInt8} {message : List UInt8} :
      q.demand ≠ [] → q'.table = q.table → q'.demand = q.demand →
      q'.lowPriority = q.lowPriority ++ [entry node.toUInt32 message] →
      Served q q' (.lowprioInsert node message)
  | promoted {node : UInt8} {message : List UInt8} :
      q.demand = [] → q'.table = q.table →
      q'.demand = q.lowPriority ++ [entry node.toUInt32 message] → q'.lowPriority = [] →
      Served q q' (.lowprioInsert node message)
  | fired {node trigger : UInt8} {message : List UInt8} :
      (slots q.table).Perm (⟨node.toUInt32, trigger.toNat, message⟩ :: slots q'.table) →
      q'.demand = entry node.toUInt32 message :: q.demand → q'.lowPriority = q.lowPriority →
      Served q q' (.triggerExecute node trigger)
  | missed {node trigger : UInt8} :
      (∀ m, (⟨node.toUInt32, trigger.toNat, m⟩ : Slot) ∉ slots q.table) → q' = q →
      Served q q' (.triggerExecute node trigger)

theorem serve_spec (u : MessageContainer) (v : TriggerContainer) {q : Queues} (h : Consistent q)
    {call : Call} (hvalid : call.Valid) :
    Consistent (serve u v q call) ∧ Served q (serve u v q call) call := by
  cases call with
  | triggerInsert node trigger message =>
      by_cases harmed : ∃ old, (⟨node.toUInt32, trigger.toNat, old⟩ : Slot) ∈ slots q.table
      · rcases harmed with ⟨old, hslot⟩
        rcases triggerInsert_armed (u := u) (v := v) h hvalid hslot with
          ⟨ret, q', rest, hrun, hq', hdemand, hlpq, hperm, hcrowded, hfree⟩
        have hlow : q'.lowPriority = q.lowPriority := congrArg Stack.contents hlpq
        rw [serve, hrun]
        by_cases hcase : Crowded q node trigger
        · exact ⟨hq', .dropped hperm hcase (hcrowded hcase) hdemand hlow⟩
        · exact ⟨hq', .rearmed hperm hcase (hfree hcase) hdemand hlow⟩
      · have hno : ∀ m, (⟨node.toUInt32, trigger.toNat, m⟩ : Slot) ∉ slots q.table :=
          fun m hm => harmed ⟨m, hm⟩
        rcases triggerInsert_unarmed (u := u) (v := v) h hvalid hno with
          ⟨q', hrun, hq', hdemand, hlpq, hperm⟩
        rw [serve, hrun]
        exact ⟨hq', .armed hno hperm hdemand (congrArg Stack.contents hlpq)⟩
  | demandInsert node message =>
      have hspec := @demandInsert_spec u q node message h false
      have hframe := @demandInsert_frame u q node message false message.length
      exact ⟨hspec.1, .demanded (congrArg (Option.getD · []) hframe.1) hspec.2
        (congrArg Stack.contents hframe.2)⟩
  | lowprioInsert node message =>
      rcases @lowprioInsert_spec u q node message h with
        ⟨hq', htq, hcase⟩
      have htable : (serve u v q (.lowprioInsert node message)).table = q.table :=
        congrArg (Option.getD · []) htq
      by_cases hempty : q.demand = []
      · rw [if_pos hempty] at hcase
        exact ⟨hq', .promoted hempty htable hcase.1 hcase.2⟩
      · rw [if_neg hempty] at hcase
        exact ⟨hq', .waited hempty htable hcase.1 hcase.2⟩
  | triggerExecute node trigger =>
      by_cases harmed : ∃ m, (⟨node.toUInt32, trigger.toNat, m⟩ : Slot) ∈ slots q.table
      · rcases harmed with ⟨m, hslot⟩
        rcases triggerExecute_armed (u := u) (v := v) h hvalid hslot with
          ⟨q', hrun, hq', hdemand, hlpq, hperm⟩
        rw [serve, hrun]
        exact ⟨hq', .fired hperm hdemand (congrArg Stack.contents hlpq)⟩
      · have hno : ∀ m, (⟨node.toUInt32, trigger.toNat, m⟩ : Slot) ∉ slots q.table :=
          fun m hm => harmed ⟨m, hm⟩
        have hrun := triggerExecute_unarmed (u := u) (v := v) h hvalid hno
        rw [serve, hrun]
        exact ⟨h, .missed hno rfl⟩

end WorkingCopy
end Queue
end EmbeddedOS
