import Mathlib.Data.Finset.Card
import EmbeddedOS.Base.Runs
import EmbeddedOS.Stdlib.RbtreeWalk

/-!
# Runs of tree calls

A tree stands for the ordered list of its nodes. Each call does to the list what it should, and
leaves a balanced tree, so that no loop goes round more often than twice the logarithm of the number
of nodes. Addresses bound that number, and so 125 passes are enough for every tree.
-/

namespace EmbeddedOS
namespace Stdlib

set_option linter.style.nameCheck false

open Base
open Base.RedBlack
open Base.RedBlack.BinTree (BlackBalanced toList_node postorder)

/-! ## Calls -/

/-- A call. Those that look something up compare with a key of their own. -/
inductive RbCall where
  | add (node : BitVec 64)
  | findAdd (node : BitVec 64)
  | erase (node : BitVec 64)
  | replace (victim new : BitVec 64)
  | find (key : BitVec 64 → Int)
  | findFirst (key : BitVec 64 → Int)
  | nextMatch (key : BitVec 64 → Int) (node : BitVec 64)
  | forEach (key : BitVec 64 → Int)
  | first
  | last
  | next (node : BitVec 64)
  | prev (node : BitVec 64)

/-- Nothing, a node or `NULL`, or the nodes of a traversal. -/
inductive RbAnswer where
  | unit
  | node (p : BitVec 64)
  | nodes (ps : List (BitVec 64))

/-- The call, with at most `fuel` passes of a loop along a path and `rounds` rounds of
`rb_for_each`. -/
def rbCall (fuel rounds : Nat) (less : BitVec 64 → BitVec 64 → Bool)
    (cmp : BitVec 64 → BitVec 64 → Int) (m : RbMem) : RbCall → Option (RbAnswer × RbMem)
  | .add a => (rb_add fuel less m a).map fun m' => (.unit, m')
  | .findAdd a => (rb_find_add fuel cmp m a).map fun r => (.node r.2, r.1)
  | .erase a => (rb_erase fuel m a).map fun m' => (.unit, m')
  | .replace a b => (rb_replace_node m a b).map fun m' => (.unit, m')
  | .find key => (rb_find fuel key m).map fun p => (.node p, m)
  | .findFirst key => (rb_find_first fuel key m).map fun p => (.node p, m)
  | .nextMatch key a => (rb_next_match fuel key m a).map fun p => (.node p, m)
  | .forEach key => (rb_for_each fuel rounds key m).map fun ps => (.nodes ps, m)
  | .first => (rb_first fuel m).map fun p => (.node p, m)
  | .last => (rb_last fuel m).map fun p => (.node p, m)
  | .next a => (rb_next fuel m a).map fun p => (.node p, m)
  | .prev a => (rb_prev fuel m a).map fun p => (.node p, m)

/-- Nodes are added that are not in the tree, and only nodes of the tree are taken out, replaced or
stepped from. A replacement has the place of its victim in the order, and keys are in order too. -/
def RbAllowed (less : BitVec 64 → BitVec 64 → Bool) (m : RbMem) (xs : List (BitVec 64)) :
    RbCall → Prop
  | .add a => Fresh m xs a
  | .findAdd a => Fresh m xs a
  | .erase a => a ∈ xs
  | .replace a b => a ∈ xs ∧ Fresh m xs b ∧ less a b = false ∧ less b a = false
  | .find key => SortedFor key xs
  | .findFirst key => SortedFor key xs
  | .nextMatch _ a => a ∈ xs
  | .forEach key => SortedFor key xs
  | .first => True
  | .last => True
  | .next a => a ∈ xs
  | .prev a => a ∈ xs

/-- What a call on an ordered list of nodes returns, and the list after it. -/
inductive RbMeaning (less : BitVec 64 → BitVec 64 → Bool) (cmp : BitVec 64 → BitVec 64 → Int)
    (xs : List (BitVec 64)) : RbCall → RbAnswer → List (BitVec 64) → Prop where
  | add (a : BitVec 64) : RbMeaning less cmp xs (.add a) .unit (insertInto less a xs)
  | findAdd {a p : BitVec 64} :
      p ∈ xs → cmp a p = 0 → RbMeaning less cmp xs (.findAdd a) (.node p) xs
  | findAddNew {a : BitVec 64} :
      (∀ x ∈ xs, cmp a x ≠ 0) →
        RbMeaning less cmp xs (.findAdd a) (.node 0#64) (insertInto less a xs)
  | erase (a : BitVec 64) : RbMeaning less cmp xs (.erase a) .unit (xs.erase a)
  | replace (a b : BitVec 64) :
      RbMeaning less cmp xs (.replace a b) .unit (xs.map fun x => if x = a then b else x)
  | find {key : BitVec 64 → Int} {p : BitVec 64} :
      p ∈ xs → key p = 0 → RbMeaning less cmp xs (.find key) (.node p) xs
  | findNone {key : BitVec 64 → Int} :
      (∀ x ∈ xs, key x ≠ 0) → RbMeaning less cmp xs (.find key) (.node 0#64) xs
  | findFirst (key : BitVec 64 → Int) :
      RbMeaning less cmp xs (.findFirst key)
        (.node ((xs.find? fun x => key x = 0).getD 0#64)) xs
  | nextMatch (key : BitVec 64 → Int) (a : BitVec 64) :
      RbMeaning less cmp xs (.nextMatch key a)
        (.node (if key (following a xs) = 0 then following a xs else 0#64)) xs
  | forEach (key : BitVec 64 → Int) :
      RbMeaning less cmp xs (.forEach key) (.nodes (xs.filter fun x => key x = 0)) xs
  | first : RbMeaning less cmp xs .first (.node (xs.head?.getD 0#64)) xs
  | last : RbMeaning less cmp xs .last (.node (xs.getLast?.getD 0#64)) xs
  | next (a : BitVec 64) : RbMeaning less cmp xs (.next a) (.node (following a xs)) xs
  | prev (a : BitVec 64) : RbMeaning less cmp xs (.prev a) (.node (following a xs.reverse)) xs

/-- The memory holds the ordered list as a balanced tree. -/
structure RbRepresents (less : BitVec 64 → BitVec 64 → Bool) (m : RbMem) (xs : List (BitVec 64)) :
    Prop where
  holds : HoldsTree m xs
  ordered : Ordered less xs

/-- The call returns what it means for the list, and only nodes of the new list are written. -/
structure RbRight (less : BitVec 64 → BitVec 64 → Bool) (cmp : BitVec 64 → BitVec 64 → Int)
    (m : RbMem) (xs : List (BitVec 64)) (c : RbCall) (r : RbAnswer) (m' : RbMem)
    (xs' : List (BitVec 64)) : Prop where
  meaning : RbMeaning less cmp xs c r xs'
  after : RbRepresents less m' xs'
  frame : ∀ b ∉ xs', m'.nodes b = m.nodes b

/-! ## One call -/

section Call

variable {less : BitVec 64 → BitVec 64 → Bool} {cmp : BitVec 64 → BitVec 64 → Int}
  {m m' : RbMem} {xs xs' ys : List (BitVec 64)} {c : RbCall} {r : RbAnswer} {a b : BitVec 64}
  {fuel rounds : Nat}

theorem mem_insertInto : b ∈ insertInto less a xs ↔ b ∈ a :: xs :=
  perm_insertInto.mem_iff

/-- A node that is equal in the order may stand for another one. -/
theorem Ordered.replace (hless : StrictWeak less) (hxs : Ordered less xs)
    (hab : less a b = false) (hba : less b a = false) :
    Ordered less (xs.map fun x => if x = a then b else x) := by
  refine List.pairwise_map.mpr (hxs.imp fun {x y} hyx => ?_)
  by_cases hx : x = a
  · subst hx
    rw [if_pos rfl]
    by_cases hy : y = x
    -- Both are the node that is replaced.
    · rw [if_pos hy]
      cases hbb : less b b with
      | false => rfl
      | true => exact hbb.symm.trans (hless.asymm b b hbb)
    · rw [if_neg hy]
      exact hless.trans_false hyx hab
  · rw [if_neg hx]
    by_cases hy : y = a
    · subst hy
      rw [if_pos rfl]
      exact hless.trans_false hba hyx
    · rw [if_neg hy]
      exact hyx

theorem RbMeaning.ordered (hless : StrictWeak less) (h : RbMeaning less cmp xs c r xs')
    (hc : RbAllowed less m xs c) (hxs : Ordered less xs) : Ordered less xs' := by
  cases h with
  | add a => exact hxs.insertInto hless
  | findAddNew _ => exact hxs.insertInto hless
  | erase a => exact hxs.erase
  | replace a b => exact Ordered.replace hless hxs hc.2.2.1 hc.2.2.2
  | findAdd _ _ | find _ _ | findNone _ | findFirst _ | nextMatch _ _ | forEach _ | first | last
  | next _ | prev _ => exact hxs

/-- A call that writes. -/
theorem RbRight.write (hless : StrictWeak less) (hm : RbRepresents less m xs)
    (hc : RbAllowed less m xs c) (h : RbMeaning less cmp xs c r xs') (hholds : HoldsTree m' xs')
    (hframe : ∀ b ∉ xs', m'.nodes b = m.nodes b) : RbRight less cmp m xs c r m' xs' :=
  ⟨h, ⟨hholds, h.ordered hless hc hm.ordered⟩, hframe⟩

/-- A call that only reads. -/
theorem RbRight.read (hm : RbRepresents less m xs) (h : RbMeaning less cmp xs c r xs) :
    RbRight less cmp m xs c r m xs :=
  ⟨h, hm, fun _ _ => rfl⟩

theorem HoldsTree.length_height (h : HoldsTree m xs) (hfuel : 2 * Nat.log 2 (xs.length + 1) < fuel) :
    ∃ t k, Held m t [] ∧ t.toList = xs ∧ BlackBalanced t .black k ∧ t.height < fuel := by
  obtain ⟨t, k, hheld, hlist, hbal⟩ := h
  refine ⟨t, k, hheld, hlist, hbal, ?_⟩
  have hheight := hbal.height_le_log
  rw [← BinTree.length_toList, hlist] at hheight
  omega

/-- **One call.** On a balanced tree every call returns, with no more passes along a path than the
logarithm allows, and what it returns and leaves is right for the ordered list of nodes. -/
theorem rb_call_run (hless : StrictWeak less) (hcmp : Compares less cmp) (hm : RbRepresents less m xs)
    (hc : RbAllowed less m xs c) (hfuel : 2 * Nat.log 2 (xs.length + 1) < fuel)
    (hrounds : xs.length < rounds) :
    ∃ r m' xs', rbCall fuel rounds less cmp m c = some (r, m') ∧
      RbRight less cmp m xs c r m' xs' := by
  -- The loops are bounded by the height, and that by the logarithm of the number of nodes.
  obtain ⟨t, k, hheld, rfl, hbal, hheight⟩ := hm.holds.length_height hfuel
  cases c with
  | add a =>
      obtain ⟨m', hrun, hholds, hframe⟩ := rb_add_run hless hheld hbal hm.ordered hc hheight
      refine ⟨_, m', _, ?_, .write hless hm hc (.add a) hholds ?_⟩
      · rw [rbCall, hrun, Option.map_some]
      · exact fun b hb => hframe b (mt mem_insertInto.mpr hb)
  | findAdd a =>
      rcases rb_find_add_run hless hcmp hheld hbal hm.ordered hc hheight with
        ⟨p, hp, hzero, hrun⟩ | ⟨hnone, m', hrun, hholds, hframe⟩
      · refine ⟨_, m, _, ?_, .read hm (.findAdd hp hzero)⟩
        rw [rbCall, hrun, Option.map_some]
      · refine ⟨_, m', _, ?_, .write hless hm hc (.findAddNew hnone) hholds ?_⟩
        · rw [rbCall, hrun, Option.map_some]
        · exact fun b hb => hframe b (mt mem_insertInto.mpr hb)
  | erase a =>
      obtain ⟨m', hrun, hholds, hframe⟩ := rb_erase_holds hheld hbal hc hheight
      refine ⟨_, m', _, ?_, .write hless hm hc (.erase a) hholds hframe⟩
      rw [rbCall, hrun, Option.map_some]
  | replace a b =>
      obtain ⟨m', hrun, hholds, hframe⟩ := rb_replace_node_holds hheld hbal hc.1 hc.2.1
      refine ⟨_, m', _, ?_, .write hless hm hc (.replace a b) hholds hframe⟩
      rw [rbCall, hrun, Option.map_some]
  | find key =>
      have hrun : rb_find fuel key m = some ((seek key t).getD 0#64) := rb_find_run hheld hheight
      cases hseek : seek key t with
      | some p =>
          obtain ⟨hp, hzero⟩ := seek_sound hseek
          refine ⟨_, m, _, ?_, .read hm (.find hp hzero)⟩
          rw [rbCall, hrun, hseek, Option.map_some, Option.getD_some]
      | none =>
          refine ⟨_, m, _, ?_, .read hm (.findNone (seek_none hc hseek))⟩
          rw [rbCall, hrun, hseek, Option.map_some, Option.getD_none]
  | findFirst key =>
      have hrun := rb_find_first_run hheld hc hheight
      refine ⟨_, m, _, ?_, .read hm (.findFirst key)⟩
      rw [rbCall, hrun, Option.map_some]
  | nextMatch key a =>
      have hrun : rb_next_match fuel key m a = _ := rb_next_match_run hheld hc hheight
      refine ⟨_, m, _, ?_, .read hm (.nextMatch key a)⟩
      rw [rbCall, hrun, Option.map_some]
  | forEach key =>
      have hrun := rb_for_each_run hheld hc hheight hrounds
      refine ⟨_, m, _, ?_, .read hm (.forEach key)⟩
      rw [rbCall, hrun, Option.map_some]
  | first =>
      have hrun := rb_first_run hheld (Nat.le_of_lt hheight)
      refine ⟨_, m, _, ?_, .read hm .first⟩
      rw [rbCall, hrun, Option.map_some]
  | last =>
      have hrun := rb_last_run hheld (Nat.le_of_lt hheight)
      refine ⟨_, m, _, ?_, .read hm .last⟩
      rw [rbCall, hrun, Option.map_some]
  | next a =>
      have hrun := rb_next_run hheld hc hheight
      refine ⟨_, m, _, ?_, .read hm (.next a)⟩
      rw [rbCall, hrun, Option.map_some]
  | prev a =>
      have hrun := rb_prev_run hheld hc hheight
      refine ⟨_, m, _, ?_, .read hm (.prev a)⟩
      rw [rbCall, hrun, Option.map_some]

end Call

/-! ## Nodes compared by their addresses -/

/-- The sign of a difference of addresses. -/
def byAddress (a b : BitVec 64) : Int := a.toNat - b.toNat

theorem strictWeak_ult : StrictWeak (BitVec.ult (n := 64)) := by
  refine ⟨fun x y h => ?_, fun x y z h => ?_⟩
  · rw [BitVec.ult, decide_eq_true_eq] at h
    rw [BitVec.ult, decide_eq_false_iff_not]
    omega
  · simp only [BitVec.ult, decide_eq_true_eq] at h ⊢
    omega

theorem compares_byAddress : Compares BitVec.ult byAddress := by
  intro x y
  simp only [BitVec.ult, byAddress, decide_eq_true_eq]
  constructor <;> omega

/-- A black root at address 8. -/
def oneNode : RbMem := ⟨fun _ => some (nodeCell .left 0#64 .black 0#64 0#64), 8#64⟩

theorem represents_oneNode : RbRepresents BitVec.ult oneNode [8#64] := by
  refine ⟨⟨.node .black .nil 8#64 .nil, 1, ⟨⟨by decide, rfl, trivial, trivial⟩, rfl, ?_⟩, rfl, ?_⟩, ?_⟩
  · exact List.nodup_singleton _
  · exact .black .nil .nil
  · exact List.pairwise_singleton _ _

example : ∃ r m' xs',
    rbCall 3 2 BitVec.ult byAddress oneNode (.findAdd 4#64) = some (r, m') ∧
      RbRight BitVec.ult byAddress oneNode [8#64] (.findAdd 4#64) r m' xs' :=
  rb_call_run strictWeak_ult compares_byAddress represents_oneNode
    ⟨by decide, rfl, by decide⟩ (by decide) (by decide)

/-! ## The number of nodes -/

section Capacity

variable {m : RbMem} {t u : RbTree} {xs ys : List (BitVec 64)} {p : BitVec 64}

theorem nodeIndex_injective {a b : BitVec 64} (ha : Aligned a) (hb : Aligned b)
    (h : a.toNat / 4 = b.toNat / 4) : a = b := by
  have hmod : ∀ c : BitVec 64, Aligned c → c.toNat % 4 = 0 := by
    intro c hc
    have hand : (c &&& 3#64).toNat = 0 := by
      rw [hc]
      rfl
    rwa [BitVec.toNat_and, show (3#64).toNat = 2 ^ 2 - 1 from rfl, Nat.and_two_pow_sub_one_eq_mod]
      at hand
  have hamod := hmod a ha
  have hbmod := hmod b hb
  exact BitVec.eq_of_toNat_eq (by omega)

/-- There are fewer than `2 ^ 62` addresses of nodes. -/
theorem length_lt_of_isNode (hnd : xs.Nodup) (hxs : ∀ a ∈ xs, IsNode a) : xs.length < 2 ^ 62 := by
  -- Four addresses share an index, and only one of them is that of a node.
  have hmaps : ∀ a ∈ xs.toFinset, a.toNat / 4 ∈ (Finset.range (2 ^ 62)).erase 0 := by
    intro a ha
    have hnode := hxs a (List.mem_toFinset.mp ha)
    have hpos : a.toNat / 4 ≠ 0 := fun hzero =>
      hnode.1 (nodeIndex_injective hnode.2 (by decide) (hzero.trans (by decide)))
    rw [Finset.mem_erase, Finset.mem_range]
    have hlt := a.isLt
    exact ⟨hpos, by omega⟩
  have hinj : Set.InjOn (fun a : BitVec 64 => a.toNat / 4) xs.toFinset := by
    intro a ha b hb hab
    rw [Finset.mem_coe, List.mem_toFinset] at ha hb
    exact nodeIndex_injective (hxs a ha).2 (hxs b hb).2 hab
  have hcard := Finset.card_le_card_of_injOn _ hmaps hinj
  rw [List.toFinset_card_of_nodup hnd, Finset.card_erase_of_mem (Finset.mem_range.mpr (by omega)),
    Finset.card_range] at hcard
  omega

/-- Every tree in memory is small enough. -/
theorem HoldsTree.length_lt (h : HoldsTree m xs) : xs.length < 2 ^ 62 := by
  obtain ⟨t, k, hheld, rfl, -⟩ := h
  exact length_lt_of_isNode hheld.nodup fun a ha => hheld.tree.isNode ha

theorem HoldsTree.passes_lt (h : HoldsTree m xs) : 2 * Nat.log 2 (xs.length + 1) < 125 := by
  have hlen := h.length_lt
  have hlog : Nat.log 2 (xs.length + 1) ≤ 62 :=
    (Nat.log_mono_right (show xs.length + 1 ≤ 2 ^ 62 by omega)).trans (Nat.log_pow (by decide) 62).le
  omega

theorem colour_of_pack {c d : Colour} (hp : Aligned p) (h : p ||| colourBit c = p ||| colourBit d) :
    c = d := by
  have hcolour : colourBit c = colourBit d := by
    rw [← rb_color_pack (c := c) hp, h, rb_color_pack hp]
  cases c <;> cases d <;> first | rfl | cases hcolour

/-- The memory determines the tree. -/
theorem Shaped.unique (hp : Aligned p) (ht : Shaped m t p) (hu : Shaped m u p)
    (haddr : treeAddr t = treeAddr u) : t = u := by
  induction t generalizing u p with
  | nil => exact ((hu.addr_eq_zero).mp haddr.symm).symm
  | node c l a r ihl ihr =>
      cases u with
      | nil => exact ht.addr_eq_zero.mp haddr
      | node d l' b r' =>
          obtain rfl : a = b := haddr
          obtain ⟨ha, hcell, hl, hr⟩ := ht
          obtain ⟨-, hcell', hl', hr'⟩ := hu
          -- One cell holds the colour and the addresses of both children.
          have hsame := Option.some.inj (hcell.symm.trans hcell')
          simp only [nodeCell, Side.pick, RbNode.mk.injEq] at hsame
          obtain ⟨hpc, hright, hleft⟩ := hsame
          rw [colour_of_pack hp hpc, ihl ha.2 hl hl' hleft, ihr ha.2 hr hr' hright]

/-- **A memory holds one list.** -/
theorem HoldsTree.unique (h : HoldsTree m xs) (h' : HoldsTree m ys) : xs = ys := by
  obtain ⟨t, k, ht, rfl, -⟩ := h
  obtain ⟨u, k', hu, rfl, -⟩ := h'
  have hroot : m.root = treeAddr t := ht.frames
  have hroot' : m.root = treeAddr u := hu.frames
  rw [ht.tree.unique (by decide) hu.tree (hroot.symm.trans hroot')]

end Capacity

/-! ## Runs -/

section Runs

variable {less : BitVec 64 → BitVec 64 → Bool} {cmp : BitVec 64 → BitVec 64 → Int}

/-- A call on what the memory holds. -/
def RbCallable (less : BitVec 64 → BitVec 64 → Bool) (m : RbMem) (c : RbCall) : Prop :=
  ∀ xs, HoldsTree m xs → RbAllowed less m xs c

/-- The memory holds lists before and after, and the call does right to them. -/
def RbStep (less : BitVec 64 → BitVec 64 → Bool) (cmp : BitVec 64 → BitVec 64 → Int) (m : RbMem)
    (c : RbCall) (r : RbAnswer) (m' : RbMem) : Prop :=
  ∃ xs xs', RbRepresents less m xs ∧ RbRight less cmp m xs c r m' xs'

theorem represents_empty (nodes : BitVec 64 → Option RbNode) :
    RbRepresents less ⟨nodes, 0#64⟩ [] :=
  ⟨⟨.nil, 0, ⟨trivial, rfl, List.nodup_nil⟩, rfl, .nil⟩, List.Pairwise.nil⟩

/-- **Runs.** From an empty tree on, every call of every run returns after at most 125 passes along
a path, and does to the ordered list of nodes what it means. -/
theorem rb_runs (hless : StrictWeak less) (hcmp : Compares less cmp)
    (nodes : BitVec 64 → Option RbNode) (calls : List RbCall)
    (hcalls : Guarded (rbCall 125 (2 ^ 62) less cmp) (RbCallable less) ⟨nodes, 0#64⟩ calls) :
    EachCall (rbCall 125 (2 ^ 62) less cmp) (RbStep less cmp) ⟨nodes, 0#64⟩ calls := by
  -- The invariant of the run: the memory holds some ordered list.
  refine eachCall_of_allowed (fun m => ∃ xs, RbRepresents less m xs) ?_
    ⟨[], represents_empty nodes⟩ hcalls
  rintro m c ⟨xs, hm⟩ hc
  obtain ⟨r, m', xs', hrun, hright⟩ := rb_call_run hless hcmp hm (hc xs hm.holds)
    hm.holds.passes_lt hm.holds.length_lt
  exact ⟨r, m', hrun, ⟨xs, xs', hm, hright⟩, xs', hright.after⟩

/-- The rest of a run is allowed if it is after whatever the first call means. -/
theorem guarded_cons (hless : StrictWeak less) (hcmp : Compares less cmp) {m : RbMem}
    {xs : List (BitVec 64)} {c : RbCall} {cs : List RbCall} (hm : RbRepresents less m xs)
    (hc : RbAllowed less m xs c)
    (hcs : ∀ r m' xs', RbRight less cmp m xs c r m' xs' →
      Guarded (rbCall 125 (2 ^ 62) less cmp) (RbCallable less) m' cs) :
    Guarded (rbCall 125 (2 ^ 62) less cmp) (RbCallable less) m (c :: cs) := by
  refine ⟨fun ys hys => hys.unique hm.holds ▸ hc, ?_⟩
  intro r m' hrun
  obtain ⟨r', m'', xs', hrun', hright⟩ := rb_call_run hless hcmp hm hc hm.holds.passes_lt
    hm.holds.length_lt
  cases hrun.symm.trans hrun'
  exact hcs r m' xs' hright

theorem rb_runs_three :
    EachCall (rbCall 125 (2 ^ 62) BitVec.ult byAddress) (RbStep BitVec.ult byAddress)
      ⟨oneNode.nodes, 0#64⟩ [.add 8#64, .add 4#64, .erase 8#64] := by
  refine rb_runs strictWeak_ult compares_byAddress _ _
    (guarded_cons strictWeak_ult compares_byAddress (represents_empty _)
      ⟨by decide, rfl, by decide⟩ ?_)
  rintro r m xs ⟨hmean, hm, hframe⟩
  cases hmean
  refine guarded_cons strictWeak_ult compares_byAddress hm ⟨by decide, ?_, by decide⟩ ?_
  · rw [hframe 4#64 (by decide)]
    rfl
  · rintro r m xs ⟨hmean, hm, -⟩
    cases hmean
    exact guarded_cons strictWeak_ult compares_byAddress hm (show 8#64 ∈ _ by decide)
      fun _ _ _ _ => trivial

end Runs

/-! ## Postorder -/

end Stdlib
end EmbeddedOS
