import Mathlib.Data.List.Basic

/-!
# The message stacks of `stack.c`

An array of message containers with a size. Storage beyond the size is kept and holds whatever
was there; a fresh element is `uninit`. Every array is treated as having room for its elements,
and an allocation gives a block of its own, so that a payload is the bytes copied into it.
-/

namespace EmbeddedOS
namespace Queue

/-! ## Arrays -/

/-- `data[i] = x` in an array with room for it. -/
def storeAt {α : Type} (data : List α) (i : Nat) (x : α) : List α :=
  data.take i ++ x :: data.drop (i + 1)

/-- `alt(data, n, ..)`: the array keeps what fits into `n` elements. -/
def alt {α : Type} (uninit : α) (data : List α) (n : Nat) : List α :=
  data.take n ++ List.replicate (n - data.length) uninit

section Arrays

variable {α : Type} {data : List α} {i n : Nat} {x u : α}

theorem take_storeAt_succ (h : i ≤ data.length) :
    (storeAt data i x).take (i + 1) = data.take i ++ [x] := by
  have hlen : (data.take i).length = i := List.length_take_of_le h
  rw [storeAt, List.take_append, hlen, List.take_of_length_le (by rw [hlen]; exact Nat.le_succ i)]
  simp

theorem storeAt_length (h : i ≤ data.length) :
    (storeAt data i x).length = max data.length (i + 1) := by
  simp [storeAt]
  omega

theorem storeAt_eq_set (h : i < data.length) : storeAt data i x = data.set i x := by
  rw [storeAt, List.set_eq_take_append_cons_drop, if_pos h]

theorem alt_length : (alt u data n).length = n := by
  simp [alt]
  omega

theorem take_alt {k : Nat} (hk : k ≤ data.length) (hn : k ≤ n) :
    (alt u data n).take k = data.take k := by
  rw [alt, List.take_append_of_le_length (by simp; omega), List.take_take, Nat.min_eq_left hn]

end Arrays

/-! ## Containers -/

/-- A queued message: its node and its own copy of the payload. -/
structure MessageContainer where
  node : UInt32
  message : List UInt8
  messageSize : Nat
  deriving DecidableEq

/-- What the insertion functions write: `memcpy` of `messageSize` bytes into a fresh block. -/
def container (node : UInt8) (message : List UInt8) (messageSize : Nat) : MessageContainer :=
  { node := node.toUInt32, message := message.take messageSize, messageSize := messageSize }

/-- The container of a whole payload. -/
def entry (node : UInt32) (message : List UInt8) : MessageContainer :=
  { node := node, message := message, messageSize := message.length }

theorem container_whole (node : UInt8) (message : List UInt8) :
    container node message message.length = entry node.toUInt32 message := by
  simp [container, entry]

/-- Node numbers come from a `uint8_t`. -/
def SmallNode (n : UInt32) : Prop := n.toNat < 256

theorem smallNode_toUInt32 (node : UInt8) : SmallNode node.toUInt32 := by
  simpa [SmallNode] using node.toNat_lt

theorem toUInt32_toUInt8 {n : UInt32} (h : SmallNode n) : n.toUInt8.toUInt32 = n := by
  refine UInt32.toNat_inj.mp ?_
  simpa using Nat.mod_eq_of_lt h

/-- A container that holds a whole payload for a node. -/
structure MessageContainer.Whole (c : MessageContainer) : Prop where
  small : SmallNode c.node
  size : c.messageSize = c.message.length

theorem whole_entry {node : UInt32} (h : SmallNode node) (message : List UInt8) :
    (entry node message).Whole :=
  ⟨h, rfl⟩

/-- Passing such a container on copies it. -/
theorem MessageContainer.Whole.copy {c : MessageContainer} (h : c.Whole) :
    container c.node.toUInt8 c.message c.messageSize = c := by
  cases c with
  | mk node message messageSize =>
      have hsize : messageSize = message.length := h.size
      subst hsize
      rw [container_whole, toUInt32_toUInt8 h.small]
      rfl

/-! ## The stack -/

structure Stack where
  data : Option (List MessageContainer)
  size : Nat

namespace Stack

/-- The queued messages, first to be served first. -/
def contents (s : Stack) : List MessageContainer :=
  (s.data.getD []).take s.size

/-- The array holds at least `size` elements, and is there when one is needed. -/
def Backed (s : Stack) : Prop :=
  s.size ≤ (s.data.getD []).length

end Stack

section Operations

variable (uninit : MessageContainer)

def initStack (stack : Stack) (node : UInt8) (message : List UInt8) (messageSize : Nat) : Stack :=
  let data := match stack.data with
    | none => [uninit]
    | some data => data
  { data := some (storeAt data 0 (container node message messageSize)), size := 1 }

def pushBack (stack : Stack) (node : UInt8) (message : List UInt8) (messageSize : Nat) : Stack :=
  let size := stack.size + 1
  let data := alt uninit (stack.data.getD []) size
  { data := some (storeAt data (size - 1) (container node message messageSize)), size := size }

/-- `for (i = size; i > 1; i--) data[i-1] = data[i-2];` -/
def shiftUp (data : List MessageContainer) : Nat → List MessageContainer
  | 0 => data
  | 1 => data
  | i + 2 => shiftUp (storeAt data (i + 1) (data.getD i uninit)) (i + 1)

def push (stack : Stack) (node : UInt8) (message : List UInt8) (messageSize : Nat) : Stack :=
  let size := stack.size + 1
  let data := alt uninit (stack.data.getD []) size
  let data := shiftUp uninit data size
  { data := some (storeAt data 0 (container node message messageSize)), size := size }

end Operations

section Contents

variable {u : MessageContainer} {s : Stack} {node : UInt8} {message : List UInt8}
  {messageSize : Nat}

theorem contents_length (h : s.Backed) : s.contents.length = s.size :=
  List.length_take_of_le h

theorem contents_nil (h : s.size = 0) : s.contents = [] := by
  rw [Stack.contents, h, List.take_zero]

theorem initStack_spec :
    (initStack u s node message messageSize).Backed ∧
      (initStack u s node message messageSize).contents
        = [container node message messageSize] := by
  constructor
  · simp [Stack.Backed, initStack, storeAt]
  · simp [Stack.contents, initStack, storeAt]

theorem pushBack_spec (h : s.Backed) :
    (pushBack u s node message messageSize).Backed ∧
      (pushBack u s node message messageSize).contents
        = s.contents ++ [container node message messageSize] := by
  have hroom : s.size ≤ (alt u (s.data.getD []) (s.size + 1)).length := by
    rw [alt_length]
    exact Nat.le_succ _
  constructor
  · simp only [Stack.Backed, pushBack, Option.getD_some, Nat.add_sub_cancel]
    rw [storeAt_length hroom, alt_length]
    exact Nat.le_max_left _ _
  · simp only [Stack.contents, pushBack, Option.getD_some, Nat.add_sub_cancel]
    rw [take_storeAt_succ hroom, take_alt h (Nat.le_succ _)]

/-- The loop moves the first `i - 1` elements up by one and leaves the first where it was. -/
theorem shiftUp_spec {data : List MessageContainer} {i : Nat} (h : i ≤ data.length) :
    (shiftUp u data i).length = data.length ∧
      ∀ j, j < data.length → (shiftUp u data i)[j]?
        = if j = 0 ∨ i ≤ j then data[j]? else data[j - 1]? := by
  induction i using Nat.strongRecOn generalizing data with
  | ind i ih =>
      match i with
      | 0 => simp [shiftUp]
      | 1 =>
          refine ⟨rfl, ?_⟩
          intro j _
          rw [if_pos (by omega)]
          rfl
      | k + 2 =>
          have hset : storeAt data (k + 1) (data.getD k u) = data.set (k + 1) (data.getD k u) :=
            storeAt_eq_set (by omega)
          have hroom : k + 1 ≤ (data.set (k + 1) (data.getD k u)).length := by
            rw [List.length_set]
            omega
          have hrec := ih (k + 1) (Nat.lt_succ_self _) hroom
          rw [shiftUp, hset]
          refine ⟨by rw [hrec.1, List.length_set], ?_⟩
          intro j hj
          rw [hrec.2 j (by rw [List.length_set]; exact hj)]
          by_cases hlow : j = 0 ∨ k + 1 ≤ j
          · rw [if_pos hlow]
            by_cases hat : j = k + 1
            · subst hat
              rw [if_neg (by omega), List.getElem?_set_self (by omega), Nat.add_sub_cancel,
                List.getD_eq_getElem?_getD, List.getElem?_eq_getElem (by omega)]
              rfl
            · rw [if_pos (by omega), List.getElem?_set_ne (by omega)]
          · rw [if_neg hlow, if_neg (by omega), List.getElem?_set_ne (by omega)]

theorem push_spec (h : s.Backed) :
    (push u s node message messageSize).Backed ∧
      (push u s node message messageSize).contents
        = container node message messageSize :: s.contents := by
  have hback : s.size ≤ (s.data.getD []).length := h
  have hlen : (alt u (s.data.getD []) (s.size + 1)).length = s.size + 1 := alt_length
  have hshift := shiftUp_spec (u := u) (Nat.le_of_eq hlen.symm)
  rw [hlen] at hshift
  constructor
  · simp only [Stack.Backed, push, Option.getD_some]
    rw [storeAt_length (Nat.zero_le _), hshift.1]
    exact Nat.le_max_left _ _
  · simp only [Stack.contents, push, Option.getD_some, storeAt, List.take_zero, List.nil_append,
      List.take_succ_cons, List.cons.injEq, true_and, Nat.zero_add]
    -- Element `j` of the tail is element `j` of the old contents, one place further up.
    refine List.ext_getElem? ?_
    intro j
    by_cases hj : j < s.size
    · rw [List.getElem?_take_of_lt hj, List.getElem?_take_of_lt hj, List.getElem?_drop,
        hshift.2 (1 + j) (by omega), if_neg (by omega), Nat.add_sub_cancel_left, alt,
        List.getElem?_append_left (by rw [List.length_take]; omega),
        List.getElem?_take_of_lt (Nat.lt_succ_of_lt hj)]
    · rw [List.getElem?_eq_none (by rw [List.length_take]; omega),
        List.getElem?_eq_none (by rw [List.length_take]; omega)]

end Contents

end Queue
end EmbeddedOS
