import EmbeddedOS.Queue.TriggerTable

/-!
# The armed triggers of a table

A table as the collection of its armed slots (node, trigger, payload), and what the two updates
of a container, arming a trigger and clearing one, do to this collection.
-/

namespace EmbeddedOS
namespace Queue

/-! ## Collecting by index -/

/-- A new value at one index of a duplicate-free list of indices is one more collected value. -/
theorem filterMap_perm_cons {β : Type} {f g : Nat → Option β} {t : Nat} {x : β} {l : List Nat}
    (hf : f t = none) (hg : g t = some x) (hrest : ∀ s, s ≠ t → f s = g s) (ht : t ∈ l)
    (hl : l.Nodup) : (l.filterMap g).Perm (x :: l.filterMap f) := by
  induction l with
  | nil => cases ht
  | cons s l ih =>
      rcases List.nodup_cons.mp hl with ⟨hs, hl⟩
      by_cases hst : s = t
      · subst hst
        have hsame : l.filterMap g = l.filterMap f := by
          refine List.filterMap_congr ?_
          intro r hr
          refine (hrest r ?_).symm
          intro hrs
          exact hs (hrs ▸ hr)
        rw [List.filterMap_cons_some hg, List.filterMap_cons_none hf, hsame]
      · have hmem : t ∈ l := (List.mem_cons.mp ht).resolve_left (Ne.symm hst)
        have hih := ih hmem hl
        cases hgs : g s with
        | none =>
            rw [List.filterMap_cons_none hgs, List.filterMap_cons_none ((hrest s hst).trans hgs)]
            exact hih
        | some y =>
            rw [List.filterMap_cons_some hgs, List.filterMap_cons_some ((hrest s hst).trans hgs)]
            exact (hih.cons y).trans (List.Perm.swap x y _)

/-! ## Slots -/

/-- An armed trigger with its message. -/
structure Slot where
  node : UInt32
  trigger : Nat
  message : List UInt8
  deriving DecidableEq

/-- The message of an armed trigger. -/
def TriggerContainer.armed (c : TriggerContainer) (t : Nat) : Option (List UInt8) :=
  if getBit c.bitmap t then c.messages t else none

def TriggerContainer.slot (c : TriggerContainer) (t : Nat) : Option Slot :=
  (c.armed t).map fun message => { node := c.node, trigger := t, message := message }

def TriggerContainer.slots (c : TriggerContainer) : List Slot :=
  (List.range 64).filterMap c.slot

def slots (table : List TriggerContainer) : List Slot :=
  table.flatMap TriggerContainer.slots

/-- Every set bit has its message and its size. -/
def TriggerContainer.Loaded (c : TriggerContainer) : Prop :=
  ∀ t, t < 64 → getBit c.bitmap t = true →
    ∃ message, c.messages t = some message ∧ c.messageSize t = message.length

/-- Storing a message for a trigger. -/
def TriggerContainer.put (c : TriggerContainer) (t : Nat) (message : List UInt8)
    (messageSize : Nat) : TriggerContainer :=
  { c with
    bitmap := setBit c.bitmap t
    messages := fun i => if i = t then some (message.take messageSize) else c.messages i
    messageSize := fun i => if i = t then messageSize else c.messageSize i }

/-- Both bitmap words and all message pointers zeroed, for `node`. -/
def TriggerContainer.reset (c : TriggerContainer) (node : UInt32) : TriggerContainer :=
  { c with bitmap := fun _ => 0#32, messages := fun _ => none, node := node }

/-- Clearing a trigger's bit; its message pointer stays. -/
def TriggerContainer.disarm (c : TriggerContainer) (t : Nat) : TriggerContainer :=
  { c with bitmap := clearBit c.bitmap t }

namespace TriggerContainer

variable {c : TriggerContainer} {s t : Nat} {message : List UInt8} {x : Slot}

theorem armed_put (c : TriggerContainer) (t s : Nat) (message : List UInt8) :
    (c.put t message message.length).armed s = if s = t then some message else c.armed s := by
  simp only [armed, put, getBit_setBit, List.take_length]
  by_cases h : s = t
  · simp [h]
  · simp [h]

theorem armed_disarm (c : TriggerContainer) (t s : Nat) :
    (c.disarm t).armed s = if s = t then none else c.armed s := by
  simp only [armed, disarm, getBit_clearBit]
  by_cases h : s = t
  · simp [h]
  · simp [h]

theorem armed_reset (c : TriggerContainer) (node : UInt32) : (c.reset node).armed s = none := by
  simp [armed, reset, getBit]

theorem mem_slots : x ∈ c.slots ↔
    x.trigger < 64 ∧ x.node = c.node ∧ c.armed x.trigger = some x.message := by
  simp only [slots, List.mem_filterMap, List.mem_range, slot, Option.map_eq_some_iff]
  constructor
  · rintro ⟨t, ht, message, hmessage, rfl⟩
    exact ⟨ht, rfl, hmessage⟩
  · rintro ⟨ht, hnode, hmessage⟩
    refine ⟨x.trigger, ht, x.message, hmessage, ?_⟩
    rw [← hnode]

theorem slots_put (ht : t < 64) (h : c.armed t = none) (message : List UInt8) :
    (c.put t message message.length).slots.Perm (⟨c.node, t, message⟩ :: c.slots) := by
  refine filterMap_perm_cons ?_ ?_ ?_ (List.mem_range.mpr ht) List.nodup_range
  · simp [slot, h]
  · simp [slot, armed_put]
    rfl
  · intro s hs
    simp only [slot, armed_put, if_neg hs]
    rfl

theorem slots_disarm (ht : t < 64) (h : c.armed t = some message) :
    c.slots.Perm (⟨c.node, t, message⟩ :: (c.disarm t).slots) := by
  refine filterMap_perm_cons ?_ ?_ ?_ (List.mem_range.mpr ht) List.nodup_range
  · simp [slot, armed_disarm]
  · simp [slot, h]
  · intro s hs
    simp only [slot, armed_disarm, if_neg hs]
    rfl

theorem slots_eq_nil (h : ∀ s, s < 64 → c.armed s = none) : c.slots = [] := by
  refine List.filterMap_eq_nil_iff.mpr ?_
  intro s hs
  simp [slot, h s (List.mem_range.mp hs)]

theorem slots_reset (c : TriggerContainer) (node : UInt32) : (c.reset node).slots = [] :=
  slots_eq_nil fun _ _ => armed_reset c node

theorem Loaded.put (h : c.Loaded) (t : Nat) (message : List UInt8) :
    (c.put t message message.length).Loaded := by
  intro s hs hbit
  simp only [TriggerContainer.put, getBit_setBit] at hbit ⊢
  by_cases hst : s = t
  · exact ⟨message, by simp [hst], by simp [hst]⟩
  · rcases h s hs (by simpa [hst] using hbit) with ⟨p, hp, hsize⟩
    exact ⟨p, by simp [hst, hp], by simp [hst, hsize]⟩

theorem Loaded.disarm (h : c.Loaded) (t : Nat) : (c.disarm t).Loaded := by
  intro s hs hbit
  simp only [TriggerContainer.disarm, getBit_clearBit, Bool.and_eq_true] at hbit
  exact h s hs hbit.1

theorem loaded_reset (c : TriggerContainer) (node : UInt32) : (c.reset node).Loaded := by
  intro s _ hbit
  simp [reset, getBit] at hbit

theorem Loaded.armed_of_getBit (h : c.Loaded) (ht : t < 64) (hbit : getBit c.bitmap t = true) :
    ∃ message, c.armed t = some message ∧ c.messages t = some message ∧
      c.messageSize t = message.length := by
  rcases h t ht hbit with ⟨message, hmessage, hsize⟩
  exact ⟨message, by rw [armed, if_pos hbit, hmessage], hmessage, hsize⟩

theorem armed_eq_none (hbit : getBit c.bitmap t = false) : c.armed t = none := by
  simp [armed, hbit]

end TriggerContainer

/-! ## Slots of a table -/

section Table

variable {table table' pre post : List TriggerContainer} {c : TriggerContainer} {x y : Slot}

theorem slots_perm (h : table.Perm table') : (slots table).Perm (slots table') :=
  h.flatMap_right _

theorem slots_middle : (slots (pre ++ c :: post)).Perm (c.slots ++ slots (pre ++ post)) := by
  have h : (slots (pre ++ c :: post)).Perm (slots (c :: (pre ++ post))) :=
    slots_perm List.perm_middle
  simpa [slots] using h

theorem mem_slots : x ∈ slots table ↔
    x.trigger < 64 ∧ ∃ c ∈ table, c.node = x.node ∧ c.armed x.trigger = some x.message := by
  simp only [slots, List.mem_flatMap, TriggerContainer.mem_slots]
  constructor
  · rintro ⟨c, hc, ht, hnode, harmed⟩
    exact ⟨ht, c, hc, hnode.symm, harmed⟩
  · rintro ⟨ht, c, hc, hnode, harmed⟩
    exact ⟨c, hc, ht, hnode.symm, harmed⟩

/-- A slot holds one message. -/
theorem Ordered.slot_unique (h : Ordered table) (hx : x ∈ slots table) (hy : y ∈ slots table)
    (hnode : x.node = y.node) (htrigger : x.trigger = y.trigger) : x.message = y.message := by
  rcases mem_slots.mp hx with ⟨_, c, hc, hcn, hcm⟩
  rcases mem_slots.mp hy with ⟨_, d, hd, hdn, hdm⟩
  have hcd : c = d := h.unique hc hd (hcn.trans (hnode.trans hdn.symm))
  subst hcd
  rw [htrigger, hdm] at hcm
  exact (Option.some.inj hcm).symm

theorem TriggerContainer.slots_nodup (c : TriggerContainer) : c.slots.Nodup := by
  refine List.Nodup.filterMap ?_ List.nodup_range
  intro s t x hs ht
  rcases Option.map_eq_some_iff.mp hs with ⟨_, _, rfl⟩
  rcases Option.map_eq_some_iff.mp ht with ⟨_, _, heq⟩
  exact (congrArg Slot.trigger heq).symm

theorem Ordered.slots_nodup (h : Ordered table) : (slots table).Nodup := by
  rw [slots, List.nodup_flatMap]
  refine ⟨fun c _ => c.slots_nodup, h.ascending.imp ?_⟩
  intro c d hlt x hc hd
  have hnode : c.node = d.node :=
    (TriggerContainer.mem_slots.mp hc).2.1.symm.trans (TriggerContainer.mem_slots.mp hd).2.1
  rw [hnode] at hlt
  exact absurd hlt (Nat.lt_irrefl _)

/-- Without its one slot for a trigger the table has none for it. -/
theorem Ordered.rest_free (h : Ordered table) {rest : List Slot}
    (hperm : (slots table).Perm (x :: rest)) (m : List UInt8) :
    (⟨x.node, x.trigger, m⟩ : Slot) ∉ rest := by
  intro hm
  have hx : x ∈ slots table := hperm.mem_iff.mpr List.mem_cons_self
  have hmem : (⟨x.node, x.trigger, m⟩ : Slot) ∈ slots table :=
    hperm.mem_iff.mpr (List.mem_cons_of_mem x hm)
  have hmessage : m = x.message := h.slot_unique hmem hx rfl rfl
  subst hmessage
  exact (List.nodup_cons.mp (hperm.nodup_iff.mp h.slots_nodup)).1 hm

end Table

end Queue
end EmbeddedOS
