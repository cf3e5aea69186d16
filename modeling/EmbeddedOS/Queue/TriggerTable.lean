import EmbeddedOS.Base.MachineInt
import EmbeddedOS.Base.Sorting
import EmbeddedOS.Queue.Stack

/-!
# The trigger table of `message.h`

One container per node, sorted by node: a bitmap of armed triggers and a message for each. The
table is searched with `bsearch` and kept in order with `qsort`. The copy is that of
`tests/qtest`.
-/

namespace EmbeddedOS
namespace Queue

open Base

/-! ## The bitmap macros -/

/-- `uint32_t bitmap[2]`, by word. -/
abbrev Bitmap := Nat → BitVec 32

/-- `1 << (n & 31)`. -/
def bit (n : Nat) : BitVec 32 := 1#32 <<< (n % 32)

def setBit (words : Bitmap) (n : Nat) : Bitmap :=
  fun i => if i = n / 32 then words i ||| bit n else words i

def clearBit (words : Bitmap) (n : Nat) : Bitmap :=
  fun i => if i = n / 32 then words i &&& ~~~bit n else words i

def getBit (words : Bitmap) (n : Nat) : Bool :=
  words (n / 32) &&& bit n != 0#32

section Bits

variable (words : Bitmap) (n k : Nat)

theorem getLsbD_bit (i : Nat) : (bit n).getLsbD i = decide (i < 32 ∧ i = n % 32) := by
  have hlt : n % 32 < 32 := Nat.mod_lt n (by decide)
  simp only [bit, BitVec.getLsbD_shiftLeft, BitVec.getLsbD_one]
  by_cases h : i = n % 32
  · subst h
    simp [hlt]
  · by_cases hi : i < n % 32
    · simp [h, hi]
    · have hne : i - n % 32 ≠ 0 := by omega
      simp [h, hne]

theorem getBit_eq : getBit words n = (words (n / 32)).getLsbD (n % 32) := by
  have hlt : n % 32 < 32 := Nat.mod_lt n (by decide)
  rw [getBit, Bool.eq_iff_iff, bne_iff_ne, ne_eq, BitVec.eq_of_getLsbD_eq_iff]
  constructor
  · intro h
    by_contra hbit
    refine h ?_
    intro i hi
    rw [BitVec.getLsbD_and, getLsbD_bit, BitVec.getLsbD_zero]
    by_cases hin : i = n % 32
    · subst hin
      simp [Bool.eq_false_iff.mpr hbit]
    · simp [hin]
  · intro hbit h
    have := h (n % 32) hlt
    rw [BitVec.getLsbD_and, getLsbD_bit, hbit] at this
    simp [hlt] at this

theorem getBit_setBit : getBit (setBit words n) k = (getBit words k || decide (k = n)) := by
  have hk : k % 32 < 32 := Nat.mod_lt k (by decide)
  rw [getBit_eq, getBit_eq, setBit]
  by_cases hw : k / 32 = n / 32
  · rw [if_pos hw, BitVec.getLsbD_or, getLsbD_bit]
    congr 1
    exact decide_eq_decide.mpr (by omega)
  · have hne : k ≠ n := by
      intro h
      exact hw (by rw [h])
    rw [if_neg hw]
    simp [hne]

theorem getBit_clearBit : getBit (clearBit words n) k = (getBit words k && decide (k ≠ n)) := by
  have hk : k % 32 < 32 := Nat.mod_lt k (by decide)
  rw [getBit_eq, getBit_eq, clearBit]
  by_cases hw : k / 32 = n / 32
  · rw [if_pos hw, BitVec.getLsbD_and, BitVec.getLsbD_not, getLsbD_bit]
    congr 1
    by_cases hkn : k = n
    · simp [hkn]
    · have hmod : k % 32 ≠ n % 32 := by omega
      simp [hkn, hmod, hk]
  · have hne : k ≠ n := by
      intro h
      exact hw (by rw [h])
    rw [if_neg hw]
    simp [hne]

/-- A bitmap whose two words are zero has no bit below 64, and conversely. -/
theorem words_zero_iff :
    (words 0 = 0#32 ∧ words 1 = 0#32) ↔ ∀ t, t < 64 → getBit words t = false := by
  constructor
  · intro h t ht
    rw [getBit_eq]
    rcases (show t / 32 = 0 ∨ t / 32 = 1 by omega) with hw | hw
    · rw [hw, h.1, BitVec.getLsbD_zero]
    · rw [hw, h.2, BitVec.getLsbD_zero]
  · intro h
    constructor
    · refine BitVec.eq_of_getLsbD_eq ?_
      intro i hi
      have := h i (by omega)
      rwa [getBit_eq, Nat.div_eq_of_lt hi, Nat.mod_eq_of_lt hi, ← BitVec.getLsbD_zero] at this
    · refine BitVec.eq_of_getLsbD_eq ?_
      intro i hi
      have := h (32 + i) (by omega)
      rwa [getBit_eq, show (32 + i) / 32 = 1 by omega, show (32 + i) % 32 = i by omega,
        ← BitVec.getLsbD_zero] at this

end Bits

/-! ## Containers and their order -/

structure TriggerContainer where
  bitmap : Bitmap
  /-- `none` is a null pointer. -/
  messages : Nat → Option (List UInt8)
  messageSize : Nat → Nat
  node : UInt32

/-- `(int)(a->node - b->node)`. -/
def cmp (a b : UInt32) : Int := i32 ((a.toNat : Int) - b.toNat)

/-- Between two small nodes the subtraction cannot wrap. -/
theorem cmp_eq {a b : UInt32} (ha : SmallNode a) (hb : SmallNode b) :
    cmp a b = (a.toNat : Int) - b.toNat := by
  unfold SmallNode at ha hb
  exact i32_of_range (by omega) (by omega)

/-- Index of the container of `node`. -/
def lookup (node : UInt32) (table : List TriggerContainer) : Option Nat :=
  bsearch (fun x => cmp node x.node) table

def qsortTable (table : List TriggerContainer) : List TriggerContainer :=
  qsort (fun x y => cmp x.node y.node) table

section Changes

variable (uninit : TriggerContainer)

/-- `insert`: return code and table. -/
def insert (map : List TriggerContainer) (node : UInt32) : Int × List TriggerContainer :=
  match lookup node map with
  | some _ => (1, map)
  | none => (0, qsortTable (map ++ [{ uninit with node := node }]))

/-- `remove_node`, called for a node of the table. -/
def removeNode (map : List TriggerContainer) (node : UInt32) : List TriggerContainer :=
  match lookup node map with
  -- The null pointer of a failed search would be the key of the second one.
  | none => map
  | some i =>
      let scan := map.getD i uninit
      let rt := map.getD (map.length - 1) uninit
      let map := (map.set (map.length - 1) scan).set i rt
      qsortTable (map.take (map.length - 1))

end Changes

/-! ## Ordered tables -/

/-- What searching relies on: nodes strictly ascend and are small. -/
structure Ordered (table : List TriggerContainer) : Prop where
  ascending : table.Pairwise fun x y => x.node.toNat < y.node.toNat
  small : ∀ x ∈ table, SmallNode x.node

namespace Ordered

variable {table table' pre post : List TriggerContainer} {c d : TriggerContainer} {node : UInt32}
  {i : Nat}

theorem orderedFor (h : Ordered table) (hn : SmallNode node) :
    OrderedFor (fun x => cmp node x.node) table := by
  refine h.ascending.imp_of_mem ?_
  intro x y hx hy hlt hle
  have hle' : cmp node x.node ≤ 0 := hle
  have hy' : cmp node y.node = (node.toNat : Int) - y.node.toNat := cmp_eq hn (h.small y hy)
  rw [cmp_eq hn (h.small x hx)] at hle'
  calc
    cmp node y.node = (node.toNat : Int) - y.node.toNat := hy'
    _ < 0 := by omega

theorem lookup_some (h : Ordered table) (hn : SmallNode node) (hi : lookup node table = some i) :
    ∃ pre c post, table = pre ++ c :: post ∧ pre.length = i ∧ c.node = node := by
  rcases bsearch_sound hi with ⟨c, hc, hcmp⟩
  rcases List.getElem?_eq_some_iff.mp hc with ⟨hlt, hget⟩
  refine ⟨table.take i, c, table.drop (i + 1), ?_, List.length_take_of_le (Nat.le_of_lt hlt), ?_⟩
  · rw [← hget]
    simp
  · have hmem : c ∈ table := List.mem_of_getElem? hc
    have hcmp' : cmp node c.node = 0 := hcmp
    rw [cmp_eq hn (h.small c hmem)] at hcmp'
    exact UInt32.toNat_inj.mp (by omega)

theorem lookup_none (h : Ordered table) (hn : SmallNode node) (hi : lookup node table = none) :
    ∀ c ∈ table, c.node ≠ node := by
  intro c hc heq
  refine bsearch_none (h.orderedFor hn) hi c hc ?_
  rw [cmp_eq hn (h.small c hc), heq]
  omega

theorem nodup (h : Ordered table) : (table.map fun x => x.node.toNat).Nodup := by
  rw [List.Nodup, List.pairwise_map]
  exact h.ascending.imp fun hlt => Nat.ne_of_lt hlt

/-- Two containers of one node are one container. -/
theorem unique (h : Ordered table) (hc : c ∈ table) (hd : d ∈ table) (hnode : c.node = d.node) :
    c = d :=
  List.inj_on_of_nodup_map h.nodup hc hd (congrArg UInt32.toNat hnode)

/-- Sorting a table without duplicate nodes orders it. -/
theorem of_qsort (hnodup : (table.map fun x => x.node.toNat).Nodup)
    (hsmall : ∀ x ∈ table, SmallNode x.node) :
    Ordered (qsortTable table) ∧ (qsortTable table).Perm table := by
  have hperm : (qsortTable table).Perm table := qsort_perm _ table
  refine ⟨⟨?_, ?_⟩, hperm⟩
  · refine qsort_ascending (fun x : TriggerContainer => x.node.toNat) ?_ hnodup
    intro x hx y hy
    rw [cmp_eq (hsmall x hx) (hsmall y hy)]
    omega
  · intro x hx
    exact hsmall x (hperm.mem_iff.mp hx)

/-- Changing a container's triggers and not its node keeps the order. -/
theorem replace (h : Ordered (pre ++ c :: post)) (hnode : d.node = c.node) :
    Ordered (pre ++ d :: post) := by
  have hasc := h.ascending
  rw [List.pairwise_append, List.pairwise_cons] at hasc
  rcases hasc with ⟨hpre, ⟨hc, hpost⟩, hcross⟩
  refine ⟨?_, ?_⟩
  · rw [List.pairwise_append, List.pairwise_cons]
    refine ⟨hpre, ⟨?_, hpost⟩, ?_⟩
    · intro y hy
      rw [hnode]
      exact hc y hy
    · intro x hx y hy
      rcases List.mem_cons.mp hy with rfl | hy
      · rw [hnode]
        exact hcross x hx c List.mem_cons_self
      · exact hcross x hx y (List.mem_cons_of_mem c hy)
  · intro x hx
    rcases List.mem_append.mp hx with hx | hx
    · exact h.small x (List.mem_append_left _ hx)
    · rcases List.mem_cons.mp hx with rfl | hx
      · rw [hnode]
        exact h.small c (List.mem_append_right _ List.mem_cons_self)
      · exact h.small x (List.mem_append_right _ (List.mem_cons_of_mem c hx))

theorem insert_spec (u : TriggerContainer) (h : Ordered table) (hn : SmallNode node)
    (hno : ∀ c ∈ table, c.node ≠ node) :
    ∃ map, insert u table node = (0, map) ∧ Ordered map ∧
      map.Perm ({ u with node := node } :: table) := by
  have hlook : lookup node table = none := by
    cases hi : lookup node table with
    | none => rfl
    | some i =>
        rcases h.lookup_some hn hi with ⟨pre, c, post, htable, _, hc⟩
        exact absurd hc (hno c (by rw [htable]; exact List.mem_append_right _ List.mem_cons_self))
  have hperm : (table ++ [{ u with node := node }]).Perm ({ u with node := node } :: table) :=
    List.perm_append_singleton _ _
  have hnodup : ((table ++ [{ u with node := node }]).map
      fun x : TriggerContainer => x.node.toNat).Nodup := by
    rw [(hperm.map _).nodup_iff, List.map_cons, List.nodup_cons]
    refine ⟨?_, h.nodup⟩
    intro hmem
    rcases List.mem_map.mp hmem with ⟨c, hc, heq⟩
    exact hno c hc (UInt32.toNat_inj.mp heq)
  have hsort := of_qsort hnodup (by
    intro x hx
    rcases List.mem_cons.mp (hperm.mem_iff.mp hx) with rfl | hx
    · exact hn
    · exact h.small x hx)
  refine ⟨_, ?_, hsort.1, hsort.2.trans hperm⟩
  rw [insert, hlook]

/-- The last element takes the place of element `i`, and the array loses its last element. -/
theorem swapLast_perm (pre post : List TriggerContainer) (c u : TriggerContainer) :
    (((pre ++ c :: post).set ((pre ++ c :: post).length - 1) c).set pre.length
        ((pre ++ c :: post).getD ((pre ++ c :: post).length - 1) u)).take
      ((pre ++ c :: post).length - 1) |>.Perm (pre ++ post) := by
  rcases List.eq_nil_or_concat' post with rfl | ⟨mid, z, rfl⟩
  · simp
  · have hlen : (pre ++ c :: (mid ++ [z])).length - 1 = (pre ++ c :: mid).length := by
      simp
    have happ : pre ++ c :: (mid ++ [z]) = (pre ++ c :: mid) ++ [z] := by simp
    have hlast : (pre ++ c :: (mid ++ [z])).getD (pre ++ c :: mid).length u = z := by
      rw [happ]
      simp
    have hset : ((pre ++ c :: (mid ++ [z])).set (pre ++ c :: mid).length c)
        = (pre ++ c :: mid) ++ [c] := by
      rw [happ]
      simp
    have hput : ((pre ++ c :: mid) ++ [c]).set pre.length z = (pre ++ z :: mid) ++ [c] := by
      simp
    have htake : ((pre ++ z :: mid) ++ [c]).take (pre ++ c :: mid).length = pre ++ z :: mid := by
      rw [show (pre ++ c :: mid).length = (pre ++ z :: mid).length by simp, List.take_left]
    rw [hlen, hlast, hset, hput, htake]
    exact List.Perm.append_left pre (List.perm_append_singleton z mid).symm

theorem removeNode_spec (u : TriggerContainer) (h : Ordered (pre ++ c :: post)) :
    Ordered (removeNode u (pre ++ c :: post) c.node) ∧
      (removeNode u (pre ++ c :: post) c.node).Perm (pre ++ post) := by
  have hc : c ∈ pre ++ c :: post := List.mem_append_right _ List.mem_cons_self
  have hn : SmallNode c.node := h.small c hc
  cases hi : lookup c.node (pre ++ c :: post) with
  | none => exact absurd rfl (h.lookup_none hn hi c hc)
  | some i =>
      rcases h.lookup_some hn hi with ⟨pre', c', post', htable, hlen, hnode⟩
      have hc' : c' ∈ pre ++ c :: post := by
        rw [htable]
        exact List.mem_append_right _ List.mem_cons_self
      have hcc : c' = c := h.unique hc' hc hnode
      subst hcc
      have hrest : (pre' ++ post').Perm (pre ++ post) := by
        have hcons : (c' :: (pre' ++ post')).Perm (c' :: (pre ++ post)) :=
          calc
            (c' :: (pre' ++ post')).Perm (pre' ++ c' :: post') := List.perm_middle.symm
            _ = pre ++ c' :: post := htable.symm
            (pre ++ c' :: post).Perm (c' :: (pre ++ post)) := List.perm_middle
        exact hcons.cons_inv
      have hswap := (swapLast_perm pre' post' c' u).trans hrest
      have hget : (pre' ++ c' :: post').getD pre'.length u = c' := by simp
      have hsub : (pre ++ post).Sublist (pre ++ c' :: post) :=
        List.Sublist.append_left (List.sublist_cons_self c' post) pre
      have hsort := of_qsort
        ((hswap.map fun x => x.node.toNat).nodup_iff.mpr ((hsub.map _).nodup h.nodup))
        (fun x hx => h.small x (hsub.subset (hswap.mem_iff.mp hx)))
      have hresult : removeNode u (pre ++ c' :: post) c'.node = qsortTable
          (((pre' ++ c' :: post').set ((pre' ++ c' :: post').length - 1) c').set pre'.length
            ((pre' ++ c' :: post').getD ((pre' ++ c' :: post').length - 1) u)
              |>.take ((pre' ++ c' :: post').length - 1)) := by
        rw [removeNode, hi, htable, ← hlen]
        simp only [hget, List.length_set]
      rw [hresult]
      exact ⟨hsort.1, hsort.2.trans hswap⟩

end Ordered

end Queue
end EmbeddedOS
