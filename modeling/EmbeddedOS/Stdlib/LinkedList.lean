import EmbeddedOS.Base.Chains
import EmbeddedOS.Base.Runs

/-!
# Linked lists

The mutators of `list.c`. A node comes from the heap with the contents that its block had before.
`list_insert_front` never sets `prev` of its node, `list_insert_back` never sets `next`, and a
removal resets the end of the list that it takes a node from only. Runs of calls are compared with
the lists they are meant to build.
-/

namespace EmbeddedOS
namespace Stdlib

open Base

/-- `list_t` -/
structure ListHead where
  head : Nat
  tail : Nat
  size : Nat
  deriving DecidableEq, Repr

/-- The live nodes, and one list. -/
structure ListState where
  nodes : Cells Nat
  list : ListHead

namespace ListState

/-- `*p`, for a live node only. -/
def node (s : ListState) (p : Nat) : Option (Cell Nat) :=
  if p = 0 then none else s.nodes p

def modify (s : ListState) (p : Nat) (f : Cell Nat → Cell Nat) : Option ListState :=
  (s.node p).map fun n => { s with nodes := Function.update s.nodes p (some (f n)) }

def del (s : ListState) (p : Nat) : Option ListState :=
  (s.node p).map fun _ => { s with nodes := Function.update s.nodes p none }

/-- The block that `new` returns, with what it held before. -/
def new (s : ListState) (t : Nat) (old : Cell Nat) : ListState :=
  { s with nodes := Function.update s.nodes t (some old) }

end ListState

/-- `size++` -/
def sizeUp (size : Nat) : Nat := (size + 1) % 4294967296

/-- `size--` -/
def sizeDown (size : Nat) : Nat := (size + 4294967295) % 4294967296

/-! ## The code -/

/-- `cell` is what `new` returns, if anything. -/
def list_insert_front (s : ListState) (val : Nat) (cell : Option (Nat × Cell Nat)) :
    Option (Nat × ListState) :=
  match cell with
  | none => some (0, s)
  | some (t, old) => do
      let ⟨head, tail, size⟩ := s.list
      let s ← (s.new t old).modify head fun n => { n with prev := t }
      let s ← s.modify t fun n => { n with next := head, value := val }
      let tail := if head = 0 then t else tail
      some (t, { s with list := ⟨t, tail, sizeUp size⟩ })

def list_insert_back (s : ListState) (val : Nat) (cell : Option (Nat × Cell Nat)) :
    Option (Nat × ListState) :=
  match cell with
  | none => some (0, s)
  | some (t, old) => do
      let ⟨head, tail, size⟩ := s.list
      let s ← (s.new t old).modify t fun n => { n with prev := tail }
      let s ← if tail ≠ 0 then s.modify tail fun n => { n with next := t } else some s
      let s ← s.modify t fun n => { n with value := val }
      let head := if head = 0 then t else head
      some (0, { s with list := ⟨head, t, sizeUp size⟩ })

def list_remove_front (s : ListState) : Option (Nat × ListState) :=
  if s.list.head = 0 then some (0, s)
  else do
    let t := s.list.head
    let n ← s.node t
    let head := n.next
    let s ← if head ≠ 0 then s.modify head fun n => { n with prev := 0 } else some s
    let s ← s.del t
    some (n.value, { s with list := ⟨head, s.list.tail, sizeDown s.list.size⟩ })

def list_remove_back (s : ListState) : Option (Nat × ListState) :=
  if s.list.head = 0 then some (0, s)
  else do
    let t := s.list.tail
    let n ← s.node t
    let tail := n.prev
    let s ← if tail ≠ 0 then s.modify tail fun n => { n with next := 0 } else some s
    let s ← s.del t
    some (n.value, { s with list := ⟨s.list.head, tail, sizeDown s.list.size⟩ })

def list_remove_node (s : ListState) (node : Nat) : Option (Nat × ListState) := do
  let n ← s.node node
  if s.list.head = node then list_remove_front s
  else if s.list.tail = node then list_remove_back s
  else
    let s ← s.modify n.next fun m => { m with prev := n.prev }
    let n' ← s.node node
    let s ← s.modify n'.prev fun m => { m with next := n'.next }
    let s ← s.del node
    some (n.value, { s with list := { s.list with size := sizeDown s.list.size } })

/-- The node goes to the caller. -/
def list_pop (s : ListState) : Option (Nat × ListState) :=
  if s.list.head = 0 then some (0, s)
  else do
    let t := s.list.tail
    let n ← s.node t
    let tail := n.prev
    let s ← if tail ≠ 0 then s.modify tail fun n => { n with next := 0 } else some s
    some (t, { s with list := ⟨s.list.head, tail, sizeDown s.list.size⟩ })

def list_dequeue (s : ListState) : Option (Nat × ListState) := list_pop s

/-! ## Calls -/

inductive ListCall where
  | insertFront (val : Nat) (cell : Option (Nat × Cell Nat))
  | insertBack (val : Nat) (cell : Option (Nat × Cell Nat))
  | removeFront
  | removeBack
  | removeNode (node : Nat)
  | pop
  | dequeue
  deriving DecidableEq, Repr

def listStep (s : ListState) : ListCall → Option (Nat × ListState)
  | .insertFront val cell => list_insert_front s val cell
  | .insertBack val cell => list_insert_back s val cell
  | .removeFront => list_remove_front s
  | .removeBack => list_remove_back s
  | .removeNode node => list_remove_node s node
  | .pop => list_pop s
  | .dequeue => list_dequeue s

/-- A list as it is meant: its nodes in order, each with its value. -/
abbrev Entries := List (Nat × Nat)

/-- What a call is to do to the list, and to return. -/
def prescribed (es : Entries) : ListCall → Nat × Entries
  | .insertFront val (some (t, _)) => (t, (t, val) :: es)
  | .insertBack val (some (t, _)) => (0, es ++ [(t, val)])
  | .insertFront _ none => (0, es)
  | .insertBack _ none => (0, es)
  | .removeFront => ((es.head?.map Prod.snd).getD 0, es.tail)
  | .removeBack => ((es.getLast?.map Prod.snd).getD 0, es.dropLast)
  | .removeNode node => ((es.lookup node).getD 0, es.filter fun e => e.1 ≠ node)
  | .pop => ((es.getLast?.map Prod.fst).getD 0, es.dropLast)
  | .dequeue => ((es.getLast?.map Prod.fst).getD 0, es.dropLast)

/-- The code and what is meant, side by side. -/
def pairStep : ListState × Entries → ListCall → Option (Nat × ListState × Entries)
  | (s, es), c => (listStep s c).map fun (r, s') => (r, s', (prescribed es c).2)

/-- The list in memory is the one that is meant. -/
structure Represents (s : ListState) (es : Entries) : Prop where
  null : (s.list.head = 0 ↔ s.list.tail = 0) ∧ (s.list.tail = 0 ↔ s.list.size = 0)
  size : s.list.size = es.length
  forward : Follows Cell.next s.nodes s.list.head (addresses es)
  backward : Follows Cell.prev s.nodes s.list.tail (addresses es).reverse
  values : ∀ e ∈ es, ∃ n, s.nodes e.1 = some n ∧ n.value = e.2

/-- `new` returns a block that is not in use, and a node to be removed is one of the list. -/
def Allowed : ListState × Entries → ListCall → Prop
  | (s, _), .insertFront _ (some (t, _)) => t ≠ 0 ∧ s.nodes t = none
  | (s, _), .insertBack _ (some (t, _)) => t ≠ 0 ∧ s.nodes t = none
  | (_, es), .removeNode node => node ∈ addresses es
  | _, _ => True

/-- The call returns what it is to return, and leaves the list that is meant. -/
def ListGood : ListState × Entries → ListCall → Nat → ListState × Entries → Prop
  | (_, es), c, r, (s', es') => r = (prescribed es c).1 ∧ Represents s' es'

/-- The calls that the code gets right: it inserts at the front of a list that is not empty, it
finds null in the field of the node that it leaves, the size does not wrap, and a removal does not
take the last node. -/
def ListGuard : ListState × Entries → ListCall → Prop
  | (s, _), .insertFront _ (some (_, old)) =>
      s.list.head ≠ 0 ∧ old.prev = 0 ∧ s.list.size ≠ 4294967295
  | (s, _), .insertBack _ (some (_, old)) => old.next = 0 ∧ s.list.size ≠ 4294967295
  | _, .insertFront _ none => True
  | _, .insertBack _ none => True
  | (s, _), _ => s.list.size ≠ 1

def emptyList (nodes : Cells Nat) : ListState × Entries := (⟨nodes, ⟨0, 0, 0⟩⟩, [])

namespace ListState

variable {s : ListState} {p : Nat} {n : Cell Nat}

theorem node_eq (hp : p ≠ 0) (h : s.nodes p = some n) : s.node p = some n := by
  rw [node, if_neg hp, h]

theorem modify_eq (hp : p ≠ 0) (h : s.nodes p = some n) (f : Cell Nat → Cell Nat) :
    s.modify p f = some { s with nodes := Function.update s.nodes p (some (f n)) } := by
  rw [modify, node_eq hp h, Option.map_some]

theorem modify_null (f : Cell Nat → Cell Nat) : s.modify 0 f = none := rfl

theorem del_eq (hp : p ≠ 0) (h : s.nodes p = some n) :
    s.del p = some { s with nodes := Function.update s.nodes p none } := by
  rw [del, node_eq hp h, Option.map_some]

end ListState

open ListState

/-- The list in memory is chained up in both directions. -/
structure ListInv (s : ListState) (es : Entries) : Prop where
  chain : Chain s.nodes s.list.head 0 es s.list.tail 0
  nodup : (addresses es).Nodup
  size : s.list.size = es.length
  small : es.length < 4294967296

variable {s : ListState} {es : Entries} {t val : Nat} {old : Cell Nat}

namespace ListInv

theorem represents (h : ListInv s es) : Represents s es where
  null := by
    rw [h.chain.first_eq_zero, h.chain.last_eq_zero, h.size, List.length_eq_zero_iff]
    simp
  size := h.size
  forward := h.chain.forward
  backward := h.chain.backward
  values := h.chain.values

theorem fresh (h : ListInv s es) (hfree : s.nodes t = none) : t ∉ addresses es := by
  intro hmem
  rcases (h.chain.live hmem).2 with ⟨c, hc⟩
  rw [hfree] at hc
  cases hc

theorem sizeUp_eq {size : Nat} (h : size < 4294967296) (hmax : size ≠ 4294967295) :
    sizeUp size = size + 1 := by
  unfold sizeUp
  omega

theorem sizeDown_eq {size : Nat} (h : size + 1 < 4294967296) : sizeDown (size + 1) = size := by
  unfold sizeDown
  omega

/-- In front of another node the new one is chained up, with what it found in `prev`. -/
theorem insertFront_chain (h : ListInv s es) (ht : t ≠ 0) (hfree : s.nodes t = none)
    (hhead : s.list.head ≠ 0) (val : Nat) (old : Cell Nat) :
    ∃ nodes, list_insert_front s val (some (t, old)) =
        some (t, ⟨nodes, ⟨t, s.list.tail, sizeUp s.list.size⟩⟩) ∧
      Chain nodes t old.prev ((t, val) :: es) s.list.tail 0 := by
  have hnew := h.fresh hfree
  rcases s with ⟨nodes, head, tail, size⟩
  rcases h with ⟨hchain, hnodup, hlen, hsmall⟩
  simp only at hchain hhead hfree ⊢
  cases es with
  | nil => exact absurd hchain.1 hhead
  | cons e es =>
      obtain ⟨a, v⟩ := e
      obtain rfl : head = a := hchain.1
      have hne : t ≠ head := fun heq => hnew (heq ▸ List.mem_cons_self)
      rcases (hchain.frame_update hnew (some old)).setPrev (List.nodup_cons.mp hnodup).1 t with
        ⟨c, hc, hchain₂⟩
      -- First `prev` of the old head is set, then the new node is filled in.
      generalize hnodes₂ : Function.update (Function.update nodes t (some old)) head
        (some { c with prev := t }) = nodes₂ at hchain₂
      have ht₂ : nodes₂ t = some old := by
        rw [← hnodes₂, Function.update_of_ne hne, Function.update_self]
      let node : Cell Nat := { old with next := head, value := val }
      refine ⟨Function.update nodes₂ t (some node), ?_, rfl, ht, head, Function.update_self _ _ _,
        hchain₂.frame_update hnew _⟩
      simp only [list_insert_front, new, Option.bind_eq_bind]
      rw [modify_eq hhead hc, Option.bind_some]
      simp only [hnodes₂]
      rw [modify_eq ht ht₂, Option.bind_some, if_neg hhead]

/-- Behind the last node the new one is chained up, with what it found in `next`. -/
theorem insertBack_chain (h : ListInv s es) (ht : t ≠ 0) (hfree : s.nodes t = none) (val : Nat)
    (old : Cell Nat) :
    ∃ nodes head, list_insert_back s val (some (t, old)) =
        some (0, ⟨nodes, ⟨head, t, sizeUp s.list.size⟩⟩) ∧
      Chain nodes head 0 (es ++ [(t, val)]) t old.next := by
  have hnew := h.fresh hfree
  rcases s with ⟨nodes, head, tail, size⟩
  rcases h with ⟨hchain, hnodup, hlen, hsmall⟩
  simp only at hchain hfree ⊢
  let node : Cell Nat := { old with prev := tail, value := val }
  -- The list is empty, or the new node comes behind its last one.
  rcases List.eq_nil_or_concat es with rfl | ⟨es, e, rfl⟩
  · rcases hchain with ⟨rfl, rfl⟩
    let nodes₁ := Function.update nodes t (some { old with prev := 0 })
    have ht₁ : nodes₁ t = some { old with prev := 0 } := Function.update_self _ _ _
    refine ⟨Function.update nodes₁ t (some node), t, ?_, rfl, ht, old.next,
      Function.update_self _ _ _, rfl, rfl⟩
    simp only [list_insert_back, new, Option.bind_eq_bind]
    rw [modify_eq ht (Function.update_self _ _ _), Option.bind_some]
    simp only [Function.update_idem]
    rw [if_neg (by simp), Option.bind_some, modify_eq ht ht₁, Option.bind_some]
    rfl
  · obtain ⟨l, w⟩ := e
    rw [List.concat_eq_append] at hchain hnodup hnew ⊢
    have hhead : head ≠ 0 := by
      rw [Ne, hchain.first_eq_zero]
      simp
    have hlast := (nodup_concat.mp hnodup).1
    obtain ⟨_, _, htail, _, rfl⟩ := chain_concat.mp hchain
    have hne : t ≠ tail := fun heq => hnew (by simp [heq])
    rcases (hchain.frame_update hnew (some { old with prev := tail })).setNext hlast t with
      ⟨c, hc, hchain₂⟩
    -- `next` of the old tail is set between the two writes to the new node.
    generalize hnodes₂ : Function.update (Function.update nodes t (some { old with prev := tail })) tail
      (some { c with next := t }) = nodes₂ at hchain₂
    have ht₂ : nodes₂ t = some { old with prev := tail } := by
      rw [← hnodes₂, Function.update_of_ne hne, Function.update_self]
    refine ⟨Function.update nodes₂ t (some node), head, ?_, chain_concat.mpr
      ⟨tail, hchain₂.frame_update hnew _, ht, Function.update_self _ _ _, rfl⟩⟩
    simp only [list_insert_back, new, Option.bind_eq_bind]
    rw [modify_eq ht (Function.update_self _ _ _), Option.bind_some, if_pos htail]
    simp only [Function.update_idem]
    rw [modify_eq htail hc, Option.bind_some]
    simp only [hnodes₂]
    rw [modify_eq ht ht₂, Option.bind_some, if_neg hhead]

/-! ### Removals -/

/-- What a removal at the front does, unless it takes the last node. -/
theorem removeFront {a v : Nat} (h : ListInv s ((a, v) :: es)) (hmany : es ≠ []) :
    ∃ s', list_remove_front s = some (v, s') ∧ ListInv s' es := by
  rcases s with ⟨nodes, head, tail, size⟩
  rcases h with ⟨hchain, hnodup, hlen, hsmall⟩
  simp only at hchain hlen
  -- The next node becomes the head and loses its `prev`.
  obtain ⟨⟨b, w⟩, es, rfl⟩ := List.exists_cons_of_ne_nil hmany
  obtain ⟨rfl, hhead, next, hcell, hrest⟩ := hchain
  have hb := (List.nodup_cons.mp hnodup).2
  rcases hrest.setPrev (List.nodup_cons.mp hb).1 0 with ⟨c, hc, hchain₂⟩
  obtain rfl : next = b := hrest.1
  have hnext : next ≠ 0 := hrest.2.1
  have hne : head ≠ next := fun heq => (List.nodup_cons.mp hnodup).1 (by simp [heq])
  generalize hnodes₂ : Function.update nodes next (some { c with prev := 0 }) = nodes₂ at hchain₂
  have hhead₂ : nodes₂ head = some ⟨0, next, v⟩ := by
    rw [← hnodes₂, Function.update_of_ne hne, hcell]
  refine ⟨⟨Function.update nodes₂ head none, ⟨next, tail, sizeDown size⟩⟩, ?_,
    hchain₂.frame_update (List.nodup_cons.mp hnodup).1 _, hb, ?_, ?_⟩
  · simp only [list_remove_front, Option.bind_eq_bind]
    rw [if_neg hhead, node_eq hhead hcell, Option.bind_some]
    simp only
    rw [if_pos hnext, modify_eq hnext hc, Option.bind_some]
    simp only [hnodes₂]
    rw [del_eq hhead hhead₂, Option.bind_some]
  · simp only [hlen, List.length_cons] at hsmall ⊢
    exact sizeDown_eq hsmall
  · simp only [List.length_cons] at hsmall ⊢
    omega

/-- The last node is cut off: what `list_remove_back` and `list_pop` share. -/
theorem cutBack {nodes : Cells Nat} {head tail : Nat} {b w l v : Nat}
    (hchain : Chain nodes head 0 (es ++ [(b, w)] ++ [(l, v)]) tail 0)
    (hnodup : (addresses (es ++ [(b, w)] ++ [(l, v)])).Nodup) :
    head ≠ 0 ∧ tail = l ∧ l ≠ 0 ∧ b ≠ 0 ∧ nodes l = some ⟨b, 0, v⟩ ∧
      ∃ c, nodes b = some c ∧ l ≠ b ∧
        Chain (Function.update nodes b (some { c with next := 0 })) head 0 (es ++ [(b, w)]) b 0 := by
  have hhead : head ≠ 0 := by
    rw [Ne, hchain.first_eq_zero]
    simp
  have hlast := (nodup_concat.mp hnodup).1
  have hrest := (nodup_concat.mp hnodup).2
  obtain ⟨back, hfront, hl, hcell, rfl⟩ := chain_concat.mp hchain
  obtain ⟨_, _, hb, _, rfl⟩ := chain_concat.mp hfront
  rcases hfront.setNext (nodup_concat.mp hrest).1 0 with ⟨c, hc, hchain₂⟩
  exact ⟨hhead, rfl, hl, hb, hcell, c, hc, fun heq => hlast (by simp [heq]), hchain₂⟩

theorem sizeDown_concat {size l v : Nat} (hlen : size = (es ++ [(l, v)]).length)
    (hsmall : (es ++ [(l, v)]).length < 4294967296) :
    sizeDown size = es.length ∧ es.length < 4294967296 := by
  rw [List.length_append, List.length_singleton] at hlen hsmall
  exact ⟨hlen ▸ sizeDown_eq hsmall, by omega⟩

theorem removeBack {l v : Nat} (h : ListInv s (es ++ [(l, v)])) (hmany : es ≠ []) :
    ∃ s', list_remove_back s = some (v, s') ∧ ListInv s' es := by
  rcases s with ⟨nodes, head, tail, size⟩
  rcases h with ⟨hchain, hnodup, hlen, hsmall⟩
  obtain ⟨es, ⟨b, w⟩, rfl⟩ := (List.eq_nil_or_concat es).resolve_left hmany
  rw [List.concat_eq_append] at hchain hnodup hlen hsmall ⊢
  simp only at hchain hlen
  obtain ⟨hhead, rfl, htail, hb, hcell, c, hc, hne, hchain₂⟩ := cutBack hchain hnodup
  generalize hnodes₂ : Function.update nodes b (some { c with next := 0 }) = nodes₂ at hchain₂
  have htail₂ : nodes₂ tail = some ⟨b, 0, v⟩ := by
    rw [← hnodes₂, Function.update_of_ne hne, hcell]
  refine ⟨⟨Function.update nodes₂ tail none, ⟨head, b, sizeDown size⟩⟩, ?_,
    hchain₂.frame_update (nodup_concat.mp hnodup).1 _, (nodup_concat.mp hnodup).2,
    (sizeDown_concat hlen hsmall).1, (sizeDown_concat hlen hsmall).2⟩
  simp only [list_remove_back, Option.bind_eq_bind]
  rw [if_neg hhead, node_eq htail hcell, Option.bind_some]
  simp only
  rw [if_pos hb, modify_eq hb hc, Option.bind_some]
  simp only [hnodes₂]
  rw [del_eq htail htail₂, Option.bind_some]

theorem pop {l v : Nat} (h : ListInv s (es ++ [(l, v)])) (hmany : es ≠ []) :
    ∃ s', list_pop s = some (l, s') ∧ ListInv s' es := by
  rcases s with ⟨nodes, head, tail, size⟩
  rcases h with ⟨hchain, hnodup, hlen, hsmall⟩
  obtain ⟨es, ⟨b, w⟩, rfl⟩ := (List.eq_nil_or_concat es).resolve_left hmany
  rw [List.concat_eq_append] at hchain hnodup hlen hsmall ⊢
  simp only at hchain hlen
  obtain ⟨hhead, rfl, htail, hb, hcell, c, hc, hne, hchain₂⟩ := cutBack hchain hnodup
  refine ⟨⟨Function.update nodes b (some { c with next := 0 }), ⟨head, b, sizeDown size⟩⟩, ?_,
    hchain₂, (nodup_concat.mp hnodup).2, (sizeDown_concat hlen hsmall).1,
    (sizeDown_concat hlen hsmall).2⟩
  simp only [list_pop, Option.bind_eq_bind]
  rw [if_neg hhead, node_eq htail hcell, Option.bind_some]
  simp only
  rw [if_pos hb, modify_eq hb hc, Option.bind_some]

/-- A node between two others is unlinked. -/
theorem unlink {b w q v d x : Nat} {front back : Entries}
    (h : ListInv s ((front ++ [(b, w)]) ++ (q, v) :: (d, x) :: back)) :
    ∃ s', list_remove_node s q = some (v, s') ∧
      ListInv s' ((front ++ [(b, w)]) ++ (d, x) :: back) := by
  rcases s with ⟨nodes, head, tail, size⟩
  rcases h with ⟨hchain, hnodup, hlen, hsmall⟩
  simp only at hchain hlen
  have hparts := hnodup
  rw [addresses, List.map_append, List.nodup_append] at hparts
  obtain ⟨hfront, hback, hapart⟩ := hparts
  have hq := (List.nodup_cons.mp hback).1
  have hrest := (List.nodup_cons.mp hback).2
  have hbmem : b ∈ addresses (front ++ [(b, w)]) := by simp
  obtain ⟨q, k, hchainF, rfl, hqnull, next, hcell, hchainB⟩ := chain_append.mp hchain
  obtain ⟨_, _, hbnull, _, rfl⟩ := chain_concat.mp hchainF
  obtain rfl : next = d := hchainB.1
  have hnextnull : next ≠ 0 := hchainB.2.1
  have hqF : q ∉ addresses (front ++ [(k, w)]) := fun h => hapart q h q List.mem_cons_self rfl
  have hnextF : next ∉ addresses (front ++ [(k, w)]) := fun h => hapart next h next (by simp) rfl
  have hkB : k ∉ addresses ((next, x) :: back) := fun h =>
    hapart k hbmem k (List.mem_cons_of_mem _ h) rfl
  have hne : q ≠ next := fun h => hq (by simp [h])
  have hnek : q ≠ k := fun h => hqF (h ▸ hbmem)
  have hheadq : head ≠ q := fun h => hqF (h ▸ hchainF.first_mem (by simp))
  have htailq : tail ≠ q := fun h => hq (h ▸ hchainB.last_mem (by simp))
  -- The node behind is joined to the one in front, and then the other way around.
  rcases hchainB.setPrev (List.nodup_cons.mp hrest).1 k with ⟨c, hc, hchainB₁⟩
  have hchainF₁ := hchainF.frame_update hnextF (some { c with prev := k })
  generalize hnodes₁ : Function.update nodes next (some { c with prev := k }) = nodes₁
    at hchainB₁ hchainF₁
  have hq₁ : nodes₁ q = some ⟨k, next, v⟩ := by
    rw [← hnodes₁, Function.update_of_ne hne, hcell]
  rcases hchainF₁.setNext (nodup_concat.mp hfront).1 next with ⟨c', hc', hchainF₂⟩
  have hchainB₂ := hchainB₁.frame_update hkB (some { c' with next := next })
  generalize hnodes₂ : Function.update nodes₁ k (some { c' with next := next }) = nodes₂
    at hchainB₂ hchainF₂
  have hq₂ : nodes₂ q = some ⟨k, next, v⟩ := by
    rw [← hnodes₂, Function.update_of_ne hnek, hq₁]
  have hjoined : (addresses ((front ++ [(k, w)]) ++ (next, x) :: back)).Nodup := by
    rw [addresses, List.map_append, List.nodup_append]
    exact ⟨hfront, hrest, fun a ha a' ha' => hapart a ha a' (List.mem_cons_of_mem _ ha')⟩
  refine ⟨⟨Function.update nodes₂ q none, ⟨head, tail, sizeDown size⟩⟩, ?_,
    chain_append.mpr ⟨next, k, hchainF₂.frame_update hqF _, hchainB₂.frame_update hq _⟩, hjoined,
    ?_, ?_⟩
  · simp only [list_remove_node, Option.bind_eq_bind]
    rw [node_eq hqnull hcell, Option.bind_some, if_neg hheadq, if_neg htailq, modify_eq hnextnull hc,
      Option.bind_some]
    simp only [hnodes₁]
    rw [node_eq hqnull hq₁, Option.bind_some, modify_eq hbnull hc', Option.bind_some]
    simp only [hnodes₂]
    rw [del_eq hqnull hq₂, Option.bind_some]
  · simp only [List.length_append, List.length_cons] at hlen hsmall ⊢
    rw [hlen]
    exact sizeDown_eq hsmall
  · simp only [List.length_append, List.length_cons] at hsmall ⊢
    omega

end ListInv

/-! ## One call -/

theorem lookup_between {q v : Nat} {front back : Entries} (hq : q ∉ addresses front) :
    (front ++ (q, v) :: back).lookup q = some v := by
  induction front with
  | nil => simp
  | cons e front ih =>
      obtain ⟨a, w⟩ := e
      rw [addresses, List.map_cons, List.mem_cons, not_or] at hq
      have hne : (q == a) = false := by simpa using hq.1
      rw [List.cons_append, List.lookup_cons, hne]
      exact ih hq.2

theorem filter_between {q v : Nat} {front back : Entries} (hfront : q ∉ addresses front)
    (hback : q ∉ addresses back) :
    (front ++ (q, v) :: back).filter (fun e => e.1 ≠ q) = front ++ back := by
  have hkeep : ∀ es : Entries, q ∉ addresses es → es.filter (fun e => e.1 ≠ q) = es := by
    intro es hes
    refine List.filter_eq_self.mpr fun e he => ?_
    have hne : e.1 ≠ q := fun heq => hes (heq ▸ List.mem_map_of_mem he)
    simpa using hne
  rw [List.filter_append, List.filter_cons_of_neg (by simp), hkeep front hfront, hkeep back hback]

/-- A node of a list of several is removed wherever it stands. -/
theorem ListInv.removeNode {q : Nat} (h : ListInv s es) (hq : q ∈ addresses es)
    (hsize : s.list.size ≠ 1) :
    ∃ s', list_remove_node s q = some ((es.lookup q).getD 0, s') ∧
      ListInv s' (es.filter fun e => e.1 ≠ q) := by
  obtain ⟨⟨q', v⟩, he, rfl⟩ := List.mem_map.mp hq
  obtain ⟨front, back, rfl⟩ := List.append_of_mem he
  have hparts := h.nodup
  rw [addresses, List.map_append, List.nodup_append] at hparts
  have hfront : q' ∉ addresses front := fun hmem =>
    hparts.2.2 q' hmem q' List.mem_cons_self rfl
  have hback := (List.nodup_cons.mp hparts.2.1).1
  have hlen := h.size
  rw [List.length_append, List.length_cons] at hlen
  rw [lookup_between hfront, filter_between hfront hback, Option.getD_some]
  have hnode : ∃ n, s.node q' = some n := by
    rcases h.chain.live hq with ⟨hnull, n, hn⟩
    exact ⟨n, node_eq hnull hn⟩
  rcases hnode with ⟨n, hn⟩
  -- The node is the first, the last, or between two others.
  rcases List.eq_nil_or_concat front with rfl | ⟨front, ⟨b, w⟩, rfl⟩
  · have hhead : s.list.head = q' := h.chain.1
    rw [list_remove_node, hn, Option.bind_eq_bind, Option.bind_some, if_pos hhead]
    refine h.removeFront ?_
    rintro rfl
    exact hsize hlen
  · rw [List.concat_eq_append] at h hfront ⊢
    cases back with
    | nil =>
        obtain ⟨_, hchain, -, -, htail⟩ := chain_concat.mp h.chain
        have hhead : s.list.head ≠ q' := fun heq => hfront (heq ▸ hchain.first_mem (by simp))
        rw [list_remove_node, hn, Option.bind_eq_bind, Option.bind_some, if_neg hhead, if_pos htail,
          List.append_nil]
        exact h.removeBack (by simp)
    | cons e back => exact h.unlink

theorem ListInv.insertFront (h : ListInv s es) (ht : t ≠ 0) (hfree : s.nodes t = none)
    (hguard : s.list.head ≠ 0 ∧ old.prev = 0 ∧ s.list.size ≠ 4294967295) :
    ∃ s', list_insert_front s val (some (t, old)) = some (t, s') ∧ ListInv s' ((t, val) :: es) := by
  rcases h.insertFront_chain ht hfree hguard.1 val old with ⟨nodes, hrun, hchain⟩
  have hlen := h.size
  have hsmall := h.small
  rw [hguard.2.1] at hchain
  refine ⟨_, hrun, hchain, List.nodup_cons.mpr ⟨h.fresh hfree, h.nodup⟩, ?_, ?_⟩
  · rw [List.length_cons, ← hlen]
    exact ListInv.sizeUp_eq (by omega) hguard.2.2
  · rw [List.length_cons]
    omega

theorem ListInv.insertBack (h : ListInv s es) (ht : t ≠ 0) (hfree : s.nodes t = none)
    (hguard : old.next = 0 ∧ s.list.size ≠ 4294967295) :
    ∃ s', list_insert_back s val (some (t, old)) = some (0, s') ∧ ListInv s' (es ++ [(t, val)]) := by
  rcases h.insertBack_chain ht hfree val old with ⟨nodes, head, hrun, hchain⟩
  have hlen := h.size
  have hsmall := h.small
  rw [hguard.1] at hchain
  refine ⟨_, hrun, hchain, nodup_concat.mpr ⟨h.fresh hfree, h.nodup⟩, ?_, ?_⟩
  · rw [List.length_append, List.length_singleton, ← hlen]
    exact ListInv.sizeUp_eq (by omega) hguard.2
  · rw [List.length_append, List.length_singleton]
    omega

/-- Nothing is removed from an empty list. -/
theorem ListInv.empty (h : ListInv s []) :
    list_remove_front s = some (0, s) ∧ list_remove_back s = some (0, s) ∧
      list_pop s = some (0, s) := by
  have hhead : s.list.head = 0 := h.chain.1
  refine ⟨?_, ?_, ?_⟩
  · rw [list_remove_front, if_pos hhead]
  · rw [list_remove_back, if_pos hhead]
  · rw [list_pop, if_pos hhead]

/-- **What a guarded call does**: it returns what it is to return, and the list is the one that is
meant. -/
theorem ListInv.call (h : ListInv s es) {c : ListCall} (hallowed : Allowed (s, es) c)
    (hguard : ListGuard (s, es) c) :
    ∃ s', listStep s c = some ((prescribed es c).1, s') ∧ ListInv s' (prescribed es c).2 := by
  have hlen := h.size
  have hback : ∀ hsize : s.list.size ≠ 1, es ≠ [] → ∃ front l v, front ≠ [] ∧
      es = front ++ [(l, v)] := by
    intro hsize hne
    obtain ⟨front, ⟨l, v⟩, rfl⟩ := (List.eq_nil_or_concat es).resolve_left hne
    refine ⟨front, l, v, ?_, List.concat_eq_append⟩
    rintro rfl
    exact hsize hlen
  have hpop : s.list.size ≠ 1 → ∃ s', list_pop s = some ((es.getLast?.map Prod.fst).getD 0, s') ∧
      ListInv s' es.dropLast := by
    intro hsize
    by_cases hne : es = []
    · subst hne
      exact ⟨s, h.empty.2.2, h⟩
    · obtain ⟨front, l, v, hfront, rfl⟩ := hback hsize hne
      rw [List.getLast?_concat, List.dropLast_concat]
      exact h.pop hfront
  cases c with
  | insertFront val cell =>
      cases cell with
      | none => exact ⟨s, rfl, h⟩
      | some cell => exact h.insertFront hallowed.1 hallowed.2 hguard
  | insertBack val cell =>
      cases cell with
      | none => exact ⟨s, rfl, h⟩
      | some cell => exact h.insertBack hallowed.1 hallowed.2 hguard
  | removeFront =>
      cases es with
      | nil => exact ⟨s, h.empty.1, h⟩
      | cons e es =>
          refine h.removeFront ?_
          rintro rfl
          exact hguard hlen
  | removeBack =>
      by_cases hne : es = []
      · subst hne
        exact ⟨s, h.empty.2.1, h⟩
      · obtain ⟨front, l, v, hfront, rfl⟩ := hback hguard hne
        simp only [listStep, prescribed]
        rw [List.getLast?_concat, List.dropLast_concat]
        exact h.removeBack hfront
  | removeNode node => exact h.removeNode hallowed hguard
  | pop => exact hpop hguard
  | dequeue => exact hpop hguard

/-! ### What the code leaves alone -/

theorem modify_list {p : Nat} {f : Cell Nat → Cell Nat} {s' : ListState}
    (h : s.modify p f = some s') : s'.list = s.list := by
  rw [ListState.modify, Option.map_eq_some_iff] at h
  rcases h with ⟨n, -, rfl⟩
  rfl

theorem del_list {p : Nat} {s' : ListState} (h : s.del p = some s') : s'.list = s.list := by
  rw [ListState.del, Option.map_eq_some_iff] at h
  rcases h with ⟨n, -, rfl⟩
  rfl

/-- The neighbour that a removal cuts off, if there is one, is written before the rest is done. -/
theorem neighbour_cases {α : Type} {p : Nat} {f : Cell Nat → Cell Nat} {k : ListState → Option α}
    {r : α} (h : (if p ≠ 0 then (s.modify p f).bind k else (some s).bind k) = some r) :
    ∃ s₁, s₁.list = s.list ∧ k s₁ = some r := by
  by_cases hp : p ≠ 0
  · rw [if_pos hp, Option.bind_eq_some_iff] at h
    rcases h with ⟨s₁, hs₁, h⟩
    exact ⟨s₁, modify_list hs₁, h⟩
  · rw [if_neg hp, Option.bind_some] at h
    exact ⟨s, rfl, h⟩

/-- A removal at the front leaves `tail` alone. -/
theorem list_remove_front_tail {r : Nat} {s' : ListState} (h : list_remove_front s = some (r, s')) :
    s'.list.tail = s.list.tail := by
  rw [list_remove_front] at h
  split at h
  · cases h
    rfl
  · obtain ⟨n, -, h⟩ := Option.bind_eq_some_iff.mp h
    obtain ⟨s₁, hs₁, h⟩ := neighbour_cases h
    obtain ⟨s₂, hs₂, h⟩ := Option.bind_eq_some_iff.mp h
    cases h
    simp only [del_list hs₂, hs₁]

/-- A removal at the back leaves `head` alone. -/
theorem list_remove_back_head {r : Nat} {s' : ListState} (h : list_remove_back s = some (r, s')) :
    s'.list.head = s.list.head := by
  rw [list_remove_back] at h
  split at h
  · cases h
    rfl
  · obtain ⟨n, -, h⟩ := Option.bind_eq_some_iff.mp h
    obtain ⟨s₁, hs₁, h⟩ := neighbour_cases h
    obtain ⟨s₂, hs₂, h⟩ := Option.bind_eq_some_iff.mp h
    cases h
    simp only [del_list hs₂, hs₁]

theorem list_pop_head {r : Nat} {s' : ListState} (h : list_pop s = some (r, s')) :
    s'.list.head = s.list.head := by
  rw [list_pop] at h
  split at h
  · cases h
    rfl
  · obtain ⟨n, -, h⟩ := Option.bind_eq_some_iff.mp h
    obtain ⟨s₁, hs₁, h⟩ := neighbour_cases h
    cases h
    simp only [hs₁]

theorem sizeUp_max : sizeUp 4294967295 = 0 := rfl

theorem Represents.tail_eq_zero (h : Represents s []) : s.list.tail = 0 := h.backward

theorem Represents.head_eq_zero (h : Represents s []) : s.list.head = 0 := h.forward

/-- **A call that leaves the list that is meant is guarded.** -/
theorem ListInv.guard_of_represents (h : ListInv s es) {c : ListCall} (hallowed : Allowed (s, es) c)
    {r : Nat} {s' : ListState} (hrun : listStep s c = some (r, s'))
    (hrep : Represents s' (prescribed es c).2) : ListGuard (s, es) c := by
  have hlen := h.size
  have hone : s.list.size = 1 → ∃ a v, es = [(a, v)] ∧ s.list.head ≠ 0 ∧ s.list.tail ≠ 0 := by
    intro hsize
    obtain ⟨⟨a, v⟩, rfl⟩ := List.length_eq_one_iff.mp (hlen.symm.trans hsize)
    refine ⟨a, v, rfl, ?_, ?_⟩
    · rw [Ne, h.chain.first_eq_zero]
      simp
    · rw [Ne, h.chain.last_eq_zero]
      simp
  have hpop : list_pop s = some (r, s') → Represents s' es.dropLast → s.list.size ≠ 1 := by
    intro hrun hrep hsize
    rcases hone hsize with ⟨a, v, rfl, hhead, -⟩
    exact hhead (list_pop_head hrun ▸ hrep.head_eq_zero)
  cases c with
  | insertFront val cell =>
      cases cell with
      | none => trivial
      | some cell =>
          rcases cell with ⟨t, old⟩
          have hhead : s.list.head ≠ 0 := by
            intro hnull
            simp only [listStep, list_insert_front, hnull, modify_null, Option.bind_eq_bind,
              Option.bind_none] at hrun
            cases hrun
          rcases h.insertFront_chain hallowed.1 hallowed.2 hhead val old with ⟨nodes, hfront, hchain⟩
          cases hrun.symm.trans hfront
          -- What the node has in `prev` is where the chain of `prev` ends.
          have hback := hrep.backward
          simp only [prescribed, addresses, List.map_cons, List.reverse_cons] at hback
          rcases hback.ends with ⟨cell, hcell, hprev⟩
          obtain ⟨-, -, next, hcell', -⟩ := hchain
          cases hcell.symm.trans hcell'
          refine ⟨hhead, hprev, ?_⟩
          intro hmax
          have hsize := hrep.size
          simp only [prescribed, hmax, sizeUp_max, List.length_cons] at hsize
          omega
  | insertBack val cell =>
      cases cell with
      | none => trivial
      | some cell =>
          rcases cell with ⟨t, old⟩
          rcases h.insertBack_chain hallowed.1 hallowed.2 val old with ⟨nodes, head, hback, hchain⟩
          cases hrun.symm.trans hback
          -- What the node has in `next` is where the chain of `next` ends.
          have hfront := hrep.forward
          simp only [prescribed, addresses, List.map_append] at hfront
          rcases hfront.ends with ⟨cell, hcell, hnext⟩
          obtain ⟨_, -, -, hcell', -⟩ := chain_concat.mp hchain
          cases hcell.symm.trans hcell'
          refine ⟨hnext, ?_⟩
          intro hmax
          have hsize := hrep.size
          simp only [prescribed, hmax, sizeUp_max, List.length_append, List.length_singleton] at hsize
          omega
  | removeFront =>
      intro hsize
      -- With the only node gone `tail` should be null, but it stays.
      rcases hone hsize with ⟨a, v, rfl, -, htail⟩
      exact htail (list_remove_front_tail hrun ▸ hrep.tail_eq_zero)
  | removeBack =>
      intro hsize
      rcases hone hsize with ⟨a, v, rfl, hhead, -⟩
      exact hhead (list_remove_back_head hrun ▸ hrep.head_eq_zero)
  | removeNode node =>
      intro hsize
      rcases hone hsize with ⟨a, v, rfl, hhead, htail⟩
      obtain rfl : node = a := List.mem_singleton.mp hallowed
      have hfirst : s.list.head = node := h.chain.1
      simp only [listStep, list_remove_node, Option.bind_eq_bind, Option.bind_eq_some_iff] at hrun
      rcases hrun with ⟨n, -, hrun⟩
      rw [if_pos hfirst] at hrun
      simp only [prescribed, ne_eq, not_true_eq_false, decide_false, Bool.false_eq_true,
        not_false_eq_true, List.filter_cons_of_neg, List.filter_nil] at hrep
      exact htail (list_remove_front_tail hrun ▸ hrep.tail_eq_zero)
  | pop => exact hpop hrun hrep
  | dequeue => exact hpop hrun hrep

/-- **Which sequences of calls build the list that is meant.** From an empty list, every call leaves
the list that is meant, returns what it is to return and touches live nodes only, exactly if every
call is one that the code gets right. -/
theorem list_represents_iff (nodes : Cells Nat) (calls : List ListCall)
    (hallowed : Guarded pairStep Allowed (emptyList nodes) calls) :
    EachCall pairStep ListGood (emptyList nodes) calls ↔
      Guarded pairStep ListGuard (emptyList nodes) calls := by
  refine eachCall_iff_guarded_within (fun p => ListInv p.1 p.2) ?_ ?_ ?_ hallowed
  · rintro ⟨s, es⟩ c r ⟨s', es'⟩ hinv hall hguard hrun
    rcases hinv.call hall hguard with ⟨s₁, hs₁, hinv₁⟩
    simp only [pairStep, hs₁, Option.map_some] at hrun
    cases hrun
    exact hinv₁
  · rintro ⟨s, es⟩ c hinv hall
    constructor
    · rintro ⟨r, ⟨s', es'⟩, hrun, -, hrep⟩
      rw [pairStep, Option.map_eq_some_iff] at hrun
      rcases hrun with ⟨⟨r₁, s₁⟩, hs₁, heq⟩
      cases heq
      exact hinv.guard_of_represents hall hs₁ hrep
    · intro hguard
      rcases hinv.call hall hguard with ⟨s₁, hs₁, hinv₁⟩
      refine ⟨_, (s₁, (prescribed es c).2), ?_, rfl, hinv₁.represents⟩
      rw [pairStep, hs₁, Option.map_some]
  · exact ⟨⟨rfl, rfl⟩, List.nodup_nil, rfl, by simp [emptyList]⟩

/-- A value at the back, another in front of it, and out again at the back. -/
theorem list_represents_deque :
    EachCall pairStep ListGood (emptyList fun _ => none)
      [.insertBack 7 (some (4096, ⟨9, 0, 9⟩)), .insertFront 8 (some (8192, ⟨0, 9, 9⟩)),
        .removeBack] := by
  refine (list_represents_iff (fun _ => none) _ ?_).mpr ?_
  · refine ⟨⟨by decide, rfl⟩, ?_⟩
    rintro _ _ ⟨⟩
    refine ⟨⟨by decide, rfl⟩, ?_⟩
    rintro _ _ ⟨⟩
    exact ⟨trivial, fun _ _ _ => trivial⟩
  · refine ⟨⟨rfl, by decide⟩, ?_⟩
    rintro _ _ ⟨⟩
    refine ⟨⟨by decide, rfl, by decide⟩, ?_⟩
    rintro _ _ ⟨⟩
    exact ⟨(by decide : 2 ≠ 1), fun _ _ _ => trivial⟩

/-- The first insertion at the front writes through null. -/
theorem list_insert_front_empty :
    ¬ EachCall pairStep ListGood (emptyList fun _ => none)
      [.insertFront 7 (some (4096, ⟨0, 0, 0⟩))] := by
  rintro ⟨r, t, hrun, _⟩
  cases hrun

end Stdlib
end EmbeddedOS
