import EmbeddedOS.Base.Runs
import EmbeddedOS.Queue.ModuleCopy
import Mathlib.Data.Finset.Card

/-!
# The node map

`insert` and `remove` of the module's `message.h` as calls on one array, beside `insert` and
`remove_node` of the copy in `tests/qtest`. Here an element that was just inserted has its node, and
what its memory held in the other fields.
-/

namespace EmbeddedOS
namespace Queue

open Base

/-! ## Maps -/

/-- A call on the map. -/
inductive MapCall where
  | insert (node : UInt32)
  | remove (node : UInt32)

/-- The nodes inserted and not since removed. -/
def MapCall.nodes (nodes : Finset UInt32) : MapCall → Finset UInt32
  | .insert node => Insert.insert node nodes
  | .remove node => nodes.erase node

/-- The call leaves the containers of this node alone. -/
def MapCall.Spares : MapCall → UInt32 → Prop
  | .insert _, _ => True
  | .remove node, other => other ≠ node

section IsMap

variable {α : Type} (node : α → UInt32) (find : UInt32 → List α → Option (Option Nat))

/-- The array is sorted by node, has one container for each node of the set, and a search finds the
container of a node of the set and of no other. -/
structure IsMap (table : List α) (size : Nat) (nodes : Finset UInt32) : Prop where
  ascending : table.Pairwise fun x y => (node x).toNat < (node y).toNat
  length : table.length = size
  card : size = nodes.card
  finds : ∀ n, ∃ r, find n table = some r ∧ (r.isSome ↔ n ∈ nodes) ∧
    ∀ i, r = some i → ∃ c, table[i]? = some c ∧ node c = n

/-- After the call the array is a map of the nodes, and the other containers are as before. -/
def MapGood (before : List α) (c : MapCall) (after : List α) (size : Nat) (nodes : Finset UInt32) :
    Prop :=
  IsMap node find after size nodes ∧ ∀ x ∈ before, c.Spares (node x) → x ∈ after

theorem isMap_nil (hfind : ∀ n, find n [] = some none) : IsMap node find [] 0 ∅ := by
  refine ⟨.nil, rfl, rfl, fun n => ⟨none, hfind n, ?_, nofun⟩⟩
  exact iff_of_false Bool.false_ne_true (Finset.notMem_empty n)

end IsMap

/-! ## The copy of the tests -/

section Tests

variable (uninit : TriggerContainer)

/-- A call, with the array and the nodes that are in it. -/
def mapStep (s : List TriggerContainer × Finset UInt32) (c : MapCall) :
    Option (Int × List TriggerContainer × Finset UInt32) :=
  match c with
  | .insert node =>
      let (ret, map) := insert uninit s.1 node
      some (ret, map, c.nodes s.2)
  | .remove node => some (0, removeNode uninit s.1 node, c.nodes s.2)

/-- The nodes that the queue passes, and for `remove_node` one that is in the map. -/
def MapAllowed (s : List TriggerContainer × Finset UInt32) : MapCall → Prop
  | .insert node => SmallNode node
  | .remove node => node ∈ s.2

/-- The array as a map: ordered, with these nodes. -/
def MapInv (s : List TriggerContainer × Finset UInt32) : Prop :=
  Ordered s.1 ∧ ∀ n, n ∈ s.2 ↔ ∃ c ∈ s.1, c.node = n

variable {uninit} {s : List TriggerContainer × Finset UInt32} {table : List TriggerContainer}
variable {nodes : Finset UInt32} {node : UInt32}

theorem cmp_eq_zero_iff {a b : UInt32} : cmp a b = 0 ↔ a = b := by
  have ha := a.toNat_lt
  have hb := b.toNat_lt
  rw [cmp, i32_eq, ← UInt32.toNat_inj]
  omega

theorem MapInv.isMap (h : MapInv (table, nodes)) :
    IsMap TriggerContainer.node (fun n table => some (lookup n table)) table table.length nodes := by
  have hnodes : nodes = (table.map TriggerContainer.node).toFinset := by
    ext n
    rw [h.2 n, List.mem_toFinset, List.mem_map]
  have hnodup : (table.map TriggerContainer.node).Nodup := by
    refine .of_map UInt32.toNat ?_
    rw [List.map_map]
    exact h.1.nodup
  refine ⟨h.1.ascending, rfl, ?_, fun n => ⟨lookup n table, rfl, ?_, ?_⟩⟩
  · rw [hnodes, List.toFinset_card_of_nodup hnodup, List.length_map]
  · constructor
    · intro hsome
      rcases Option.isSome_iff_exists.mp hsome with ⟨i, hi⟩
      rcases bsearch_sound hi with ⟨c, hc, hcmp⟩
      exact (h.2 n).mpr ⟨c, List.mem_of_getElem? hc, (cmp_eq_zero_iff.mp hcmp).symm⟩
    · intro hmem
      rcases (h.2 n).mp hmem with ⟨c, hc, rfl⟩
      rw [Option.isSome_iff_ne_none]
      exact fun hnone => h.1.lookup_none (h.1.small c hc) hnone c hc rfl
  · intro i hi
    rcases bsearch_sound hi with ⟨c, hc, hcmp⟩
    exact ⟨c, hc, (cmp_eq_zero_iff.mp hcmp).symm⟩

/-- Inserting a node that is there changes nothing; any other becomes a new container. -/
theorem MapInv.insert (h : MapInv (table, nodes)) (hn : SmallNode node) (u : TriggerContainer) :
    MapInv ((Queue.insert u table node).2, (MapCall.insert node).nodes nodes) ∧
      ∀ x ∈ table, x ∈ (Queue.insert u table node).2 := by
  cases hlook : lookup node table with
  | some i =>
      have hmem : node ∈ nodes := by
        rcases h.1.lookup_some hn hlook with ⟨pre, c, post, htable, -, hc⟩
        refine (h.2 node).mpr ⟨c, ?_, hc⟩
        rw [htable]
        exact List.mem_append_right _ List.mem_cons_self
      have hsame : Queue.insert u table node = (1, table) := by rw [Queue.insert, hlook]
      rw [hsame, MapCall.nodes, Finset.insert_eq_of_mem hmem]
      exact ⟨h, fun _ hx => hx⟩
  | none =>
      rcases h.1.insert_spec u hn (h.1.lookup_none hn hlook) with ⟨map, hrun, hordered, hperm⟩
      rw [hrun]
      refine ⟨⟨hordered, fun n => ?_⟩, fun x hx => hperm.mem_iff.mpr (List.mem_cons_of_mem _ hx)⟩
      rw [MapCall.nodes, Finset.mem_insert, h.2 n]
      constructor
      · rintro (rfl | ⟨c, hc, hnode⟩)
        · exact ⟨_, hperm.mem_iff.mpr List.mem_cons_self, rfl⟩
        · exact ⟨c, hperm.mem_iff.mpr (List.mem_cons_of_mem _ hc), hnode⟩
      · rintro ⟨c, hc, hnode⟩
        rcases List.mem_cons.mp (hperm.mem_iff.mp hc) with rfl | hold
        · exact .inl hnode.symm
        · exact .inr ⟨c, hold, hnode⟩

/-- Removing a node of the map takes its container and no other. -/
theorem MapInv.remove (h : MapInv (table, nodes)) (hn : node ∈ nodes) (u : TriggerContainer) :
    MapInv (removeNode u table node, (MapCall.remove node).nodes nodes) ∧
      ∀ x ∈ table, x.node ≠ node → x ∈ removeNode u table node := by
  rcases (h.2 node).mp hn with ⟨c, hc, rfl⟩
  obtain ⟨pre, post, rfl⟩ := List.append_of_mem hc
  obtain ⟨hordered, hperm⟩ := h.1.removeNode_spec u
  have hkept : ∀ x, x ∈ removeNode u (pre ++ c :: post) c.node ↔
      x ∈ pre ++ c :: post ∧ x.node ≠ c.node := by
    intro x
    rw [hperm.mem_iff]
    have hnodup : (pre ++ c :: post).Nodup := .of_map _ h.1.nodup
    have hout : c ∉ pre ++ post := (List.nodup_cons.mp (List.nodup_middle.mp hnodup)).1
    rw [List.perm_middle.mem_iff, List.mem_cons]
    constructor
    · intro hx
      refine ⟨.inr hx, fun heq => hout ?_⟩
      have hmem : x ∈ pre ++ c :: post := List.perm_middle.mem_iff.mpr (List.mem_cons_of_mem _ hx)
      exact h.1.unique hmem hc heq ▸ hx
    · rintro ⟨rfl | hx, hne⟩
      · exact absurd rfl hne
      · exact hx
  refine ⟨⟨hordered, fun n => ?_⟩, fun x hx hne => (hkept x).mpr ⟨hx, hne⟩⟩
  rw [MapCall.nodes, Finset.mem_erase, h.2 n]
  constructor
  · rintro ⟨hne, d, hd, rfl⟩
    exact ⟨d, (hkept d).mpr ⟨hd, hne⟩, rfl⟩
  · rintro ⟨d, hd, rfl⟩
    obtain ⟨hmem, hne⟩ := (hkept d).mp hd
    exact ⟨hne, d, hmem, rfl⟩

/-- The copy of the tests keeps the map over every sequence of calls. -/
theorem qtest_map (u : TriggerContainer) {calls : List MapCall}
    (hcalls : Guarded (mapStep u) MapAllowed ([], ∅) calls) :
    EachCall (mapStep u) (fun s c _ t => MapGood TriggerContainer.node
      (fun n table => some (lookup n table)) s.1 c t.1 t.1.length t.2) ([], ∅) calls := by
  have hempty : MapInv ([], ∅) := by
    refine ⟨⟨.nil, nofun⟩, fun n => ?_⟩
    exact iff_of_false (Finset.notMem_empty n) (by rintro ⟨c, ⟨⟩, -⟩)
  refine eachCall_of_allowed MapInv ?_ hempty hcalls
  rintro ⟨table, nodes⟩ c h hallowed
  cases c with
  | insert node =>
      obtain ⟨hinv, hkept⟩ := MapInv.insert h hallowed u
      exact ⟨_, _, rfl, ⟨hinv.isMap, fun x hx _ => hkept x hx⟩, hinv⟩
  | remove node =>
      obtain ⟨hinv, hkept⟩ := MapInv.remove h hallowed u
      exact ⟨_, _, rfl, ⟨hinv.isMap, hkept⟩, hinv⟩

end Tests

/-! ## The copy of the module -/

namespace Module

/-- The array and its size. -/
structure NodeMap where
  table : List Armed
  size : Nat

namespace NodeMap

def lookup (_node : UInt32) (_table : List Armed) (size : Nat) : Option (Option Nat) :=
  searchPointer size

/-- `insert`, which sets no more than the node of the new element. -/
def insert (uninit : Armed) (map : NodeMap) (node : UInt32) : Option (Int × NodeMap) := do
  match ← lookup node map.table map.size with
  | some _ => some (1, map)
  | none =>
      let size := map.size + 1
      let table := alt uninit map.table size
      let table := table.set (size - 1) { table.getD (size - 1) uninit with node := node }
      some (0, { table := qsort (fun x y => cmp x.node y.node) table, size := size })

/-- What `remove` does with the element it has found: the last element is overwritten first, and
then copied to where `scan` points. -/
def swapOut (map : NodeMap) (scan : Nat) : Option NodeMap := do
  let table := map.table.set (map.size - 1) (← map.table[scan]?)
  let temp ← table[map.size - 1]?
  let table := table.set scan temp
  some { table := table.take (map.size - 1), size := map.size - 1 }

def remove (map : NodeMap) (node : UInt32) : Option NodeMap := do
  let _ ← lookup node map.table map.size
  match ← searchPointer map.size with
  | none => some map
  | some scan => swapOut map scan

/-- A call, with the map and the nodes that are in it. -/
def step (uninit : Armed) (s : NodeMap × Finset UInt32) (c : MapCall) :
    Option (Int × NodeMap × Finset UInt32) :=
  match c with
  | .insert node => (insert uninit s.1 node).map fun (ret, map) => (ret, map, c.nodes s.2)
  | .remove node => (remove s.1 node).map fun map => (0, map, c.nodes s.2)

def empty : NodeMap := { table := [], size := 0 }

/-- After the call the array is the map that is meant. -/
def Good (s : NodeMap × Finset UInt32) (c : MapCall) (_ret : Int) (t : NodeMap × Finset UInt32) :
    Prop :=
  MapGood Armed.node (fun n table => lookup n table table.length) s.1.table c t.1.table t.1.size t.2

section Calls

variable (uninit : Armed) (map : NodeMap) (node : UInt32)

/-! The functions of the queues, for which a new element is not a container yet, go the same way. -/

theorem insert_queues (table : List (Option Armed)) (hlen : table.length = map.table.length) :
    (Module.insert table node map.size).map (fun r => (r.1, r.2.1.length, r.2.2)) =
      (insert uninit map node).map fun r => (r.1, r.2.table.length, r.2.size) := by
  have hlook : Module.lookup node table map.size = lookup node map.table map.size := rfl
  rw [Module.insert, hlook, insert]
  cases lookup node map.table map.size with
  | none => rfl
  | some found =>
      cases found with
      | some i => exact congrArg (fun n => some ((1 : Int), n, map.size)) hlen
      | none =>
          refine congrArg (fun n => some ((0 : Int), n, map.size + 1)) ?_
          rw [(qsort_perm _ _).length_eq, List.length_set, resize, alt, alt, List.length_append,
            List.length_append, List.length_take, List.length_take, List.length_replicate,
            List.length_replicate, hlen]

/-- The search has no result but for an empty array, and finds nothing there. -/
theorem lookup_cases (table : List Armed) (size : Nat) :
    (size = 0 ∧ lookup node table size = some none) ∨
      (size ≠ 0 ∧ lookup node table size = none) := by
  by_cases hsize : size = 0
  · exact .inl ⟨hsize, if_pos hsize⟩
  · exact .inr ⟨hsize, if_neg hsize⟩

/-- Whichever element was found, it is the last one that goes. -/
theorem swapOut_dropLast {scan : Nat} (hsize : map.size = map.table.length)
    (hscan : scan < map.size) :
    swapOut map scan = some { table := map.table.dropLast, size := map.size - 1 } := by
  have hlast : map.size - 1 < map.table.length := by omega
  have hbound : scan < map.table.length := hsize ▸ hscan
  have hget : map.table[scan]? = some map.table[scan] := List.getElem?_eq_getElem hbound
  simp only [swapOut, hget, Option.bind_eq_bind, Option.bind_some, List.getElem?_set_self hlast]
  refine congrArg (fun table => some (NodeMap.mk table (map.size - 1))) ?_
  rw [List.dropLast_eq_take, hsize]
  refine List.ext_getElem? fun j => ?_
  rw [List.getElem?_take, List.getElem?_take]
  split
  · rename_i hj
    by_cases hjs : j = scan
    · subst hjs
      rw [List.getElem?_set_self (by rw [List.length_set]; omega), hget]
    · rw [List.getElem?_set_ne (Ne.symm hjs), List.getElem?_set_ne (by omega)]
  · rfl

theorem remove_empty : remove empty node = some empty := rfl

/-- The first element makes the map one that cannot be searched. -/
theorem not_good_insert (nodes : Finset UInt32) {ret : Int} {t : NodeMap × Finset UInt32}
    (hrun : step uninit (empty, nodes) (.insert node) = some (ret, t)) :
    ¬ Good (empty, nodes) (.insert node) ret t := by
  rintro ⟨hmap, -⟩
  rcases hmap.finds node with ⟨r, hr, -⟩
  have hsize : t.1.size = 1 := by
    cases hrun
    rfl
  have hlen : t.1.table.length ≠ 0 := by
    rw [hmap.length, hsize]
    decide
  rcases lookup_cases node t.1.table t.1.table.length with ⟨hzero, -⟩ | ⟨-, hundefined⟩
  · exact hlen hzero
  · cases hundefined.symm.trans hr

end Calls

/-- **The node map.** Over a sequence of calls on the empty map, every call leaves the map that is
meant exactly if none of them is an insertion. -/
theorem node_map_iff (uninit : Armed) (calls : List MapCall) :
    EachCall (step uninit) Good (empty, ∅) calls ↔ ∀ c ∈ calls, ∃ node, c = .remove node := by
  induction calls with
  | nil => exact iff_of_true trivial nofun
  | cons c calls ih =>
      cases c with
      | insert node =>
          refine iff_of_false ?_ fun h => ?_
          · rintro ⟨ret, t, hrun, hgood, -⟩
            exact not_good_insert uninit node ∅ hrun hgood
          · rcases h _ List.mem_cons_self with ⟨_, hremove⟩
            cases hremove
      | remove node =>
          have hrun : step uninit (empty, ∅) (.remove node) = some (0, empty, ∅) := by
            rw [step, remove_empty]
            exact congrArg (fun nodes => some ((0 : Int), empty, nodes)) (Finset.erase_empty node)
          have hgood : Good (empty, ∅) (.remove node) 0 (empty, ∅) :=
            ⟨isMap_nil _ _ fun _ => rfl, nofun⟩
          rw [List.forall_mem_cons, and_iff_right ⟨node, rfl⟩, ← ih]
          constructor
          · rintro ⟨ret, t, hrun', -, htail⟩
            cases hrun.symm.trans hrun'
            exact htail
          · exact fun htail => ⟨0, _, hrun, hgood, htail⟩

/-- One insertion, and no node can be looked up, inserted or removed any more. -/
theorem node_map_stuck :
    ¬ EachCall (step ⟨fun _ => 0, fun _ => none, 0⟩) Good (empty, ∅) [.insert 5] ∧
      step ⟨fun _ => 0, fun _ => none, 0⟩ (⟨[⟨fun _ => 0, fun _ => none, 5⟩], 1⟩, {5}) (.insert 7) =
        none ∧
      step ⟨fun _ => 0, fun _ => none, 0⟩ (⟨[⟨fun _ => 0, fun _ => none, 5⟩], 1⟩, {5}) (.remove 5) =
        none := by
  refine ⟨?_, rfl, rfl⟩
  rintro ⟨ret, t, hrun, hgood, -⟩
  exact not_good_insert _ 5 ∅ hrun hgood

end NodeMap
end Module

end Queue
end EmbeddedOS
