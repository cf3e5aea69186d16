import EmbeddedOS.Stdlib.RbtreeCalls

/-!
# Finding and walking

What `rb_find`, `rb_find_first` and the steps of a traversal return, for a tree that stands in
memory.
-/

namespace EmbeddedOS
namespace Stdlib

set_option linter.style.nameCheck false

open Base
open Base.RedBlack
open Base.RedBlack.BinTree (BlackBalanced nodeOn toList_node postorder)

/-! ## Finding -/

section Find

variable {cmp : BitVec 64 → Int} {m : RbMem} {t : RbTree} {p : BitVec 64} {fuel : Nat}

theorem rbFind_loop (h : Shaped m t p) (hfuel : t.height < fuel) :
    loop (rbFindPass cmp m) fuel (treeAddr t) = some ((seek cmp t).getD 0#64) := by
  induction t generalizing p fuel with
  | nil =>
      obtain ⟨fuel, rfl⟩ : ∃ k, fuel = k + 1 := ⟨fuel - 1, by omega⟩
      exact loop_done rfl
  | node c l a r ihl ihr =>
      rw [BinTree.height] at hfuel
      obtain ⟨fuel, rfl⟩ : ∃ k, fuel = k + 1 := ⟨fuel - 1, by omega⟩
      have hload := Shaped.load (s := .left) h
      obtain ⟨ha, -, hl, hr⟩ := h
      have hpass : rbFindPass cmp m a =
          if cmp a < 0 then some (.again (treeAddr l))
          else if cmp a > 0 then some (.again (treeAddr r))
          else some (.done a) := by
        rw [rbFindPass, if_neg ha.1, hload]
        rfl
      rw [treeAddr_node, seek]
      by_cases hneg : cmp a < 0
      · rw [if_pos hneg] at hpass ⊢
        exact (loop_again hpass).trans (ihl hl (by omega))
      · rw [if_neg hneg] at hpass ⊢
        by_cases hpos : cmp a > 0
        · rw [if_pos hpos] at hpass ⊢
          exact (loop_again hpass).trans (ihr hr (by omega))
        · rw [if_neg hpos] at hpass ⊢
          exact loop_done hpass

theorem rbFindFirst_loop (h : Shaped m t p) (hfuel : t.height < fuel) (found : Option (BitVec 64)) :
    loop (rbFindFirstPass cmp m) fuel (treeAddr t, found.getD 0#64) =
      some ((seekFirst cmp t found).getD 0#64) := by
  induction t generalizing p fuel found with
  | nil =>
      obtain ⟨fuel, rfl⟩ : ∃ k, fuel = k + 1 := ⟨fuel - 1, by omega⟩
      exact loop_done rfl
  | node c l a r ihl ihr =>
      rw [BinTree.height] at hfuel
      obtain ⟨fuel, rfl⟩ : ∃ k, fuel = k + 1 := ⟨fuel - 1, by omega⟩
      have hload := Shaped.load (s := .left) h
      obtain ⟨ha, -, hl, hr⟩ := h
      have hpass : rbFindFirstPass cmp m (a, found.getD 0#64) =
          if cmp a ≤ 0 then
            some (.again (treeAddr l, (if cmp a = 0 then some a else found).getD 0#64))
          else some (.again (treeAddr r, found.getD 0#64)) := by
        rw [rbFindFirstPass, if_neg ha.1, hload]
        by_cases hzero : cmp a = 0
        · simp only [hzero, if_true]
          rfl
        · simp only [hzero, if_false]
          rfl
      rw [treeAddr_node, seekFirst]
      by_cases hle : cmp a ≤ 0
      · rw [if_pos hle] at hpass ⊢
        exact (loop_again hpass).trans (ihl hl (by omega) _)
      · rw [if_neg hle] at hpass ⊢
        exact (loop_again hpass).trans (ihr hr (by omega) _)

theorem rb_find_run (h : Held m t []) (hfuel : t.height < fuel) :
    rb_find fuel cmp m = some ((seek cmp t).getD 0#64) := by
  have hroot : m.root = treeAddr t := h.frames
  rw [rb_find, hroot]
  exact rbFind_loop h.tree hfuel

/-- **`rb_find_first`** returns the first match in order. -/
theorem rb_find_first_run (h : Held m t []) (hord : SortedFor cmp t.toList)
    (hfuel : t.height < fuel) :
    rb_find_first fuel cmp m = some ((t.toList.find? fun x => cmp x = 0).getD 0#64) := by
  have hroot : m.root = treeAddr t := h.frames
  rw [rb_find_first, hroot]
  refine (rbFindFirst_loop h.tree hfuel none).trans ?_
  rw [seekFirst_eq hord, Option.or_none]

end Find

/-! ## Steps in order -/

/-- The first element, or the last. -/
def endOf (s : Side) (xs : List (BitVec 64)) : Option (BitVec 64) :=
  s.pick xs.head? xs.getLast?

/-- What lies beyond the hole on side `s`. -/
def beyond (s : Side) (fs : RbFrames) : List (BitVec 64) :=
  s.pick (before fs) (after fs)

section Steps

variable {m : RbMem} {t near far : RbTree} {fs : RbFrames} {s : Side} {c : Colour} {a p : BitVec 64}
  {fuel : Nat}

theorem endOf_nodeOn (hnear : near = .nil) : endOf s (nodeOn s c near a far).toList = some a := by
  subst hnear
  cases s <;> simp [endOf, Side.pick, nodeOn]

theorem endOf_nodeOn_near (hnear : near ≠ .nil) :
    endOf s (nodeOn s c near a far).toList = endOf s near.toList := by
  have hne : near.toList ≠ [] := List.ne_nil_of_mem (treeAddr_mem hnear)
  cases s with
  | left =>
      simp only [endOf, Side.pick, nodeOn, toList_node]
      rw [List.head?_append_of_ne_nil _ hne]
  | right =>
      simp only [endOf, Side.pick, nodeOn, toList_node]
      rw [List.getLast?_append_of_ne_nil _ (List.cons_ne_nil _ _),
        List.getLast?_cons_of_ne_nil hne]

/-- The loop goes down to the end of the tree on side `s`. -/
theorem rbDeep_loop (h : Shaped m t p) (hne : t ≠ .nil) (hfuel : t.height ≤ fuel) :
    ∃ x, endOf s t.toList = some x ∧ loop (rbDeepPass s m) fuel (treeAddr t) = some x := by
  induction t generalizing p fuel with
  | nil => exact absurd rfl hne
  | node c l a r ihl ihr =>
      rw [BinTree.height] at hfuel
      obtain ⟨fuel, rfl⟩ : ∃ k, fuel = k + 1 := ⟨fuel - 1, by omega⟩
      have ih : ∀ q, Shaped m (s.pick l r) q → s.pick l r ≠ .nil →
          ∃ x, endOf s (s.pick l r).toList = some x ∧
            loop (rbDeepPass s m) fuel (treeAddr (s.pick l r)) = some x := by
        intro q hq hqne
        cases s with
        | left => exact ihl hq hqne (by omega)
        | right => exact ihr hq hqne (by omega)
      -- Seen from side `s` both directions are one.
      rw [BinTree.node_eq_nodeOn s] at h ⊢
      have hload := h.load
      obtain ⟨ha, -, hnear, -⟩ := shaped_nodeOn.mp h
      have hpass : rbDeepPass s m a =
          if treeAddr (s.pick l r) ≠ 0#64 then some (.again (treeAddr (s.pick l r)))
          else some (.done a) := by
        rw [rbDeepPass, hload]
        simp only [Option.bind_eq_bind, Option.bind_some, nodeCell_child]
      rw [treeAddr_nodeOn]
      by_cases hnil : s.pick l r = .nil
      · rw [if_neg (not_not_intro (hnear.addr_eq_zero.mpr hnil))] at hpass
        exact ⟨a, endOf_nodeOn hnil, loop_done hpass⟩
      · rw [if_pos fun hzero => hnil (hnear.addr_eq_zero.mp hzero)] at hpass
        obtain ⟨x, hend, hloop⟩ := ih a hnear hnil
        exact ⟨x, (endOf_nodeOn_near hnil).trans hend, (loop_again hpass).trans hloop⟩

/-- The loop goes up until it leaves a subtree on the other side. -/
theorem rbClimb_loop (h : Held m t fs) (hne : t ≠ .nil) (hfuel : fs.length < fuel) :
    loop (rbClimbPass s m) fuel (treeAddr t) = some ((endOf s.other (beyond s fs)).getD 0#64) := by
  induction fs generalizing t fuel with
  -- The root has no parent: nothing lies beyond.
  | nil =>
      obtain ⟨fuel, rfl⟩ : ∃ k, fuel = k + 1 := ⟨fuel - 1, by omega⟩
      obtain ⟨c, l, a, r, rfl⟩ := BinTree.exists_nodeOn .left hne
      have hload := h.tree.load
      have hpass : rbClimbPass s m a = some (.done 0#64) := by
        rw [rbClimbPass, hload]
        simp only [Option.bind_eq_bind, Option.bind_some, nodeCell_parent h.frames.aligned]
        rfl
      rw [treeAddr_nodeOn, loop_done hpass]
      cases s <;> rfl
  | cons f fs ih =>
      obtain ⟨fuel, rfl⟩ : ∃ k, fuel = k + 1 := ⟨fuel - 1, by omega⟩
      obtain ⟨c, l, a, r, rfl⟩ := BinTree.exists_nodeOn .left hne
      have hload := h.tree.load
      have hf := h.frames.load
      have hfn : IsNode f.elem := h.frames.1
      have hpass : rbClimbPass s m a =
          if a = (nodeCell f.side (parentAddr fs) f.colour a (treeAddr f.sibling)).child s then
            some (.again f.elem)
          else some (.done f.elem) := by
        rw [treeAddr_nodeOn] at hf
        rw [rbClimbPass, hload]
        simp only [Option.bind_eq_bind, Option.bind_some, parentAddr_cons, nodeCell_parent hfn.2,
          if_neg hfn.1, hf]
      have hmem : a ∈ (nodeOn .left c l a r).toList := mem_nodeOn.mpr (.inl rfl)
      have hnd := h.distinct
      rw [heldElems, frameElems, List.nodup_append'] at hnd
      rw [treeAddr_nodeOn]
      by_cases hs : f.side = s
      · -- The node is the child on side `s`: the loop goes on above.
        rw [hs, nodeCell_child, if_pos rfl] at hpass
        have hrest :=
          ih (held_fill.mpr h) (BinTree.nodeOn_ne_nil _ _ _ _ _) (Nat.lt_of_succ_lt_succ hfuel)
        rw [Frame.fill, treeAddr_nodeOn] at hrest
        rw [loop_again hpass, hrest]
        cases s <;> simp only [beyond, Side.pick, before, after, hs]
      · obtain hs : f.side = s.other := Side.eq_other_of_ne hs
        -- The node comes from the other side, so its parent is what lies beyond.
        have hne' : a ≠ treeAddr f.sibling := by
          intro heq
          by_cases hnil : f.sibling = .nil
          · rw [hnil, treeAddr_nil] at heq
            exact (h.tree.isNode hmem).1 heq
          · exact hnd.2.2 hmem (List.mem_cons_of_mem _
              (List.mem_append_left _ (heq ▸ treeAddr_mem hnil)))
        rw [hs, nodeCell_other, nodeCell_child, if_neg hne'] at hpass
        rw [loop_done hpass]
        cases s with
        | left =>
            rw [show Side.left.other = .right from rfl] at hs
            simp [beyond, endOf, Side.pick, Side.other, before, hs]
        | right =>
            rw [show Side.right.other = .left from rfl] at hs
            simp [beyond, endOf, Side.pick, Side.other, after, hs]

/-- A step from a node of the tree, to the end of its subtree on that side or further up. -/
theorem rbStep_run (h : Held m (nodeOn s c near a far) fs) (hnear : near.height ≤ fuel)
    (hfuel : fs.length < fuel) :
    rbStep s fuel m a =
      some (((endOf s.other near.toList).or (endOf s.other (beyond s fs))).getD 0#64) := by
  have hload := h.tree.load
  obtain ⟨ha, -, hn, -⟩ := shaped_nodeOn.mp h.tree
  have hmem : a ∈ (nodeOn s c near a far).toList := mem_nodeOn.mpr (.inl rfl)
  have hnd := h.distinct
  rw [heldElems, List.nodup_append'] at hnd
  have hself : RB_EMPTY_NODE a (nodeCell s (parentAddr fs) c (treeAddr near) (treeAddr far)) =
      false := by
    rw [RB_EMPTY_NODE, nodeCell_pc, beq_eq_false_iff_ne]
    intro heq
    -- Then the node would be its own parent.
    have hparent : parentAddr fs = a := by
      have hpack := rb_parent_pack (p := a) (c := .red) ha.2
      rw [← rb_parent_pack (c := c) h.frames.aligned, heq]
      simpa [colourBit, RB_RED] using hpack
    cases fs with
    | nil => exact ha.1 hparent.symm
    | cons f fs => exact hnd.2.2 hmem (hparent ▸ List.mem_cons_self)
  rw [rbStep, hload]
  simp only [Option.bind_eq_bind, Option.bind_some, hself, Bool.false_eq_true, if_false,
    nodeCell_child]
  -- With a child on that side the step goes down, otherwise up.
  by_cases hnil : near = .nil
  · have hclimb := rbClimb_loop (s := s) h (BinTree.nodeOn_ne_nil _ _ _ _ _) hfuel
    rw [treeAddr_nodeOn] at hclimb
    rw [if_neg (not_not_intro (hn.addr_eq_zero.mpr hnil)), hclimb, hnil]
    cases s <;> rfl
  · obtain ⟨x, hend, hloop⟩ := rbDeep_loop (s := s.other) hn hnil hnear
    rw [if_pos fun hzero => hnil (hn.addr_eq_zero.mp hzero), hloop, hend]
    rfl

/-- From the end of a tree. -/
theorem rbEnd_run (h : Held m t []) (hfuel : t.height ≤ fuel) :
    rbEnd s fuel m = some ((endOf s t.toList).getD 0#64) := by
  have hroot : m.root = treeAddr t := h.frames
  rw [rbEnd, hroot]
  by_cases hnil : t = .nil
  · subst hnil
    cases s <;> rfl
  · obtain ⟨x, hend, hloop⟩ := rbDeep_loop (s := s) h.tree hnil hfuel
    rw [if_neg fun hzero => hnil (h.tree.addr_eq_zero.mp hzero), hloop, hend]
    rfl

end Steps

/-! ## The list of nodes -/

/-- What comes after `a`, if anything. -/
def following (a : BitVec 64) (xs : List (BitVec 64)) : BitVec 64 :=
  ((xs.dropWhile (· != a)).tail.head?).getD 0#64

theorem following_append {xs ys : List (BitVec 64)} {a : BitVec 64} (h : a ∉ xs) :
    following a (xs ++ a :: ys) = ys.head?.getD 0#64 := by
  have hxs : ∀ x ∈ xs, (x != a) = true := fun x hx => by
    rw [bne_iff_ne]
    exact ne_of_mem_of_not_mem hx h
  rw [following, List.dropWhile_append_of_pos hxs]
  simp

section List

variable {cmp : BitVec 64 → Int} {m : RbMem} {t : RbTree} {a : BitVec 64} {fuel : Nat}

theorem rb_first_run (h : Held m t []) (hfuel : t.height ≤ fuel) :
    rb_first fuel m = some (t.toList.head?.getD 0#64) :=
  rbEnd_run (s := .left) h hfuel

theorem rb_last_run (h : Held m t []) (hfuel : t.height ≤ fuel) :
    rb_last fuel m = some (t.toList.getLast?.getD 0#64) :=
  rbEnd_run (s := .right) h hfuel

theorem Held.nodup (h : Held m t []) : t.toList.Nodup := by
  have := h.distinct
  rwa [heldElems, frameElems, List.append_nil] at this

/-- **`rb_next`** returns the next node, or `NULL` after the last. -/
theorem rb_next_run (h : Held m t []) (ha : a ∈ t.toList) (hfuel : t.height < fuel) :
    rb_next fuel m a = some (following a t.toList) := by
  obtain ⟨c, l, r, fs, rfl⟩ := exists_focus ha
  have hlen := length_add_height (.node c l a r) fs
  rw [BinTree.height] at hlen
  have hnd := h.nodup
  have hsplit : (plug (.node c l a r) fs).toList =
      (before fs ++ l.toList) ++ a :: (r.toList ++ after fs) := by
    rw [toList_plug, toList_node]
    simp
  have hheld : Held m (nodeOn .right c r a l) fs := held_plug.mp h
  rw [hsplit] at hnd ⊢
  have hnot : a ∉ before fs ++ l.toList := fun hmem =>
    (List.nodup_append.mp hnd).2.2 a hmem a List.mem_cons_self rfl
  rw [following_append hnot, rb_next, rbStep_run hheld (by omega) (by omega), List.head?_append]
  rfl

/-- **`rb_prev`** returns the node before, or `NULL` before the first. -/
theorem rb_prev_run (h : Held m t []) (ha : a ∈ t.toList) (hfuel : t.height < fuel) :
    rb_prev fuel m a = some (following a t.toList.reverse) := by
  obtain ⟨c, l, r, fs, rfl⟩ := exists_focus ha
  have hlen := length_add_height (.node c l a r) fs
  rw [BinTree.height] at hlen
  have hnd := h.nodup
  have hsplit : (plug (.node c l a r) fs).toList =
      (before fs ++ l.toList) ++ a :: (r.toList ++ after fs) := by
    rw [toList_plug, toList_node]
    simp
  have hheld : Held m (nodeOn .left c l a r) fs := held_plug.mp h
  rw [hsplit] at hnd ⊢
  have hnot : a ∉ (r.toList ++ after fs).reverse := by
    rw [List.mem_reverse]
    exact (List.nodup_cons.mp (List.nodup_append.mp hnd).2.1).1
  rw [List.reverse_append, List.reverse_cons, List.append_assoc, List.singleton_append,
    following_append hnot, rb_prev, rbStep_run hheld (by omega) (by omega), List.reverse_append,
    List.head?_append, List.head?_reverse, List.head?_reverse]
  rfl

/-- **`rb_next_match`** returns the next node if that matches too. -/
theorem rb_next_match_run (h : Held m t []) (ha : a ∈ t.toList) (hfuel : t.height < fuel) :
    rb_next_match fuel cmp m a =
      some (if cmp (following a t.toList) = 0 then following a t.toList else 0#64) := by
  rw [rb_next_match, rb_next_run h ha hfuel]
  simp only [Option.bind_eq_bind, Option.bind_some]
  by_cases hzero : following a t.toList = 0#64
  · simp [hzero]
  · by_cases hmatch : cmp (following a t.toList) = 0
    · rw [if_neg fun hboth => hboth.2 hmatch, if_pos hmatch]
    · rw [if_pos ⟨hzero, hmatch⟩, if_neg hmatch]

/-- From the first of the matches that are left. -/
theorem rbForEach_loop (h : Held m t []) (hfuel : t.height < fuel) {us zs vs seen : List (BitVec 64)}
    {rounds : Nat} (hlist : t.toList = us ++ (zs ++ vs)) (hzs : ∀ z ∈ zs, cmp z = 0)
    (hvs : ∀ v ∈ vs, cmp v ≠ 0) (hrounds : zs.length < rounds) :
    loop (rbForEachPass fuel cmp m) rounds (zs.head?.getD 0#64, seen) =
      some (seen.reverse ++ zs) := by
  induction zs generalizing us seen rounds with
  | nil =>
      obtain ⟨rounds, rfl⟩ : ∃ k, rounds = k + 1 := ⟨rounds - 1, by omega⟩
      rw [List.append_nil]
      exact loop_done rfl
  | cons z zs ih =>
      obtain ⟨rounds, rfl⟩ : ∃ k, rounds = k + 1 := ⟨rounds - 1, by omega⟩
      have hz : z ∈ t.toList := by simp [hlist]
      have hnot : z ∉ us := by
        have hnd := h.nodup
        rw [hlist] at hnd
        exact fun hmem => (List.nodup_append.mp hnd).2.2 z hmem z List.mem_cons_self rfl
      have hnext : following z t.toList = (zs ++ vs).head?.getD 0#64 := by
        rw [hlist, List.cons_append, following_append hnot]
      have hpass : rbForEachPass fuel cmp m (z, seen) =
          some (.again (zs.head?.getD 0#64, z :: seen)) := by
        rw [rbForEachPass, if_neg (h.tree.isNode hz).1, rb_next_match_run h hz hfuel, hnext]
        -- Where the matches end, `rb_next_match` sees a node that does not match, or none.
        cases zs with
        | cons y zs =>
            have hy : cmp y = 0 := hzs y (by simp)
            simp [hy]
        | nil =>
            cases vs with
            | nil => simp
            | cons v vs =>
                have hv : cmp v ≠ 0 := hvs v List.mem_cons_self
                simp [hv]
      have hlist' : t.toList = (us ++ [z]) ++ (zs ++ vs) := by
        rw [hlist]
        simp
      refine (loop_again hpass).trans ((ih hlist' ?_ ?_).trans ?_)
      · exact fun y hy => hzs y (List.mem_cons_of_mem z hy)
      · rw [List.length_cons] at hrounds
        omega
      · simp

/-- **`rb_for_each`** visits the matches, each once and in order. -/
theorem rb_for_each_run (h : Held m t []) (hord : SortedFor cmp t.toList) (hfuel : t.height < fuel)
    {rounds : Nat} (hrounds : t.toList.length < rounds) :
    rb_for_each fuel rounds cmp m = some (t.toList.filter fun x => cmp x = 0) := by
  obtain ⟨us, zs, vs, hlist, hus, hzs, hvs⟩ := matches_together hord
  -- What comes before the matches, and what comes after them, has no match.
  have hnone : ∀ ys : List (BitVec 64), (∀ y ∈ ys, cmp y ≠ 0) →
      ys.find? (fun x => decide (cmp x = 0)) = none ∧
        ys.filter (fun x => decide (cmp x = 0)) = [] := by
    intro ys hys
    rw [List.find?_eq_none, List.filter_eq_nil_iff]
    exact ⟨fun y hy => by simpa using hys y hy, fun y hy => by simpa using hys y hy⟩
  have hne : ∀ v ∈ vs, cmp v ≠ 0 := fun v hv => Int.ne_of_lt (hvs v hv)
  obtain ⟨hfindUs, hfilterUs⟩ := hnone us fun u hu => Int.ne_of_gt (hus u hu)
  obtain ⟨hfindVs, hfilterVs⟩ := hnone vs hne
  have hfirst : (t.toList.find? fun x => decide (cmp x = 0)) = zs.head? := by
    rw [← hlist, List.find?_append, List.find?_append, hfindUs, hfindVs]
    cases zs with
    | nil => rfl
    | cons z zs => simp [hzs z List.mem_cons_self]
  have hmatches : (t.toList.filter fun x => decide (cmp x = 0)) = zs := by
    have hall : zs.filter (fun x => decide (cmp x = 0)) = zs := by
      rw [List.filter_eq_self]
      exact fun z hz => decide_eq_true (hzs z hz)
    rw [← hlist, List.filter_append, List.filter_append, hfilterUs, hfilterVs, hall]
    simp
  have hlen : zs.length < rounds := by
    rw [← hlist, List.length_append, List.length_append] at hrounds
    omega
  rw [rb_for_each, rb_find_first_run h hord hfuel, hfirst, hmatches]
  exact rbForEach_loop h hfuel hlist.symm hzs hne hlen

end List

/-! ## Postorder -/

section Postorder

variable {m : RbMem} {t : RbTree} {fs : RbFrames} {a p : BitVec 64} {fuel : Nat}

/-- The loop goes down to the node that comes first in postorder. -/
theorem rb_left_deepest_run (h : Shaped m t p) (hne : t ≠ .nil) (hfuel : t.height ≤ fuel) :
    ∃ x, t.postorder.head? = some x ∧ rb_left_deepest_node fuel m (treeAddr t) = some x := by
  rw [rb_left_deepest_node]
  induction t generalizing p fuel with
  | nil => exact absurd rfl hne
  | node c l a r ihl ihr =>
      rw [BinTree.height] at hfuel
      obtain ⟨fuel, rfl⟩ : ∃ k, fuel = k + 1 := ⟨fuel - 1, by omega⟩
      have hload := Shaped.load (s := .left) h
      obtain ⟨ha, -, hl, hr⟩ := h
      have hpass : rbLeftDeepestPass m a =
          if treeAddr l ≠ 0#64 then some (.again (treeAddr l))
          else if treeAddr r ≠ 0#64 then some (.again (treeAddr r))
          else some (.done a) := by
        rw [rbLeftDeepestPass, hload]
        rfl
      rw [treeAddr_node, postorder]
      -- Left where there is a left child, else right: a leaf is the first in postorder.
      by_cases hlnil : l = .nil
      · rw [if_neg (not_not_intro (hl.addr_eq_zero.mpr hlnil))] at hpass
        by_cases hrnil : r = .nil
        · rw [if_neg (not_not_intro (hr.addr_eq_zero.mpr hrnil))] at hpass
          exact ⟨a, by rw [hlnil, hrnil]; rfl, loop_done hpass⟩
        · rw [if_pos fun hzero => hrnil (hr.addr_eq_zero.mp hzero)] at hpass
          obtain ⟨x, hhead, hloop⟩ := ihr hr hrnil (show r.height ≤ fuel by omega)
          refine ⟨x, ?_, (loop_again hpass).trans hloop⟩
          rw [hlnil, postorder, List.nil_append, List.head?_append, hhead]
          rfl
      · rw [if_pos fun hzero => hlnil (hl.addr_eq_zero.mp hzero)] at hpass
        obtain ⟨x, hhead, hloop⟩ := ihl hl hlnil (show l.height ≤ fuel by omega)
        refine ⟨x, ?_, (loop_again hpass).trans hloop⟩
        rw [List.head?_append, hhead]
        rfl

theorem rb_first_postorder_run (h : Held m t []) (hfuel : t.height ≤ fuel) :
    rb_first_postorder fuel m = some (t.postorder.head?.getD 0#64) := by
  have hroot : m.root = treeAddr t := h.frames
  rw [rb_first_postorder, hroot]
  by_cases hnil : t = .nil
  · subst hnil
    rfl
  · obtain ⟨x, hhead, hrun⟩ := rb_left_deepest_run h.tree hnil hfuel
    rw [if_neg fun hzero => hnil (h.tree.addr_eq_zero.mp hzero), hrun, hhead]
    rfl

/-- The step from a node leads to what comes after its subtree. -/
theorem rb_next_postorder_focus (h : Held m t fs) (hne : t ≠ .nil)
    (hfuel : (plug t fs).height ≤ fuel) :
    rb_next_postorder fuel m (treeAddr t) = some ((postAfter fs).head?.getD 0#64) := by
  obtain ⟨c, l, a, r, rfl⟩ := BinTree.exists_nodeOn .left hne
  have hload := h.tree.load
  have ha : IsNode a := (shaped_nodeOn.mp h.tree).1
  have hmem : a ∈ (nodeOn .left c l a r).toList := mem_nodeOn.mpr (.inl rfl)
  rw [treeAddr_nodeOn, rb_next_postorder, if_neg ha.1, hload]
  simp only [Option.bind_eq_bind, Option.bind_some, nodeCell_parent h.frames.aligned]
  cases fs with
  | nil => rfl
  | cons f fs =>
      have hf := h.frames.load
      have hfn : IsNode f.elem := h.frames.1
      have hsib : Shaped m f.sibling f.elem := h.frames.2.2.1
      have hnd := h.distinct
      rw [heldElems, frameElems, List.nodup_append'] at hnd
      rw [treeAddr_nodeOn] at hf
      simp only [parentAddr_cons, if_neg hfn.1, hf, Option.bind_some]
      obtain ⟨s, cf, p, sib⟩ := f
      cases s with
      | right =>
          have hne' : a ≠ treeAddr sib := by
            intro heq
            by_cases hnil : sib = .nil
            · rw [hnil, treeAddr_nil] at heq
              exact ha.1 heq
            · exact hnd.2.2 hmem (List.mem_cons_of_mem _
                (List.mem_append_left _ (heq ▸ treeAddr_mem hnil)))
          -- A right child: its parent comes next.
          exact if_neg fun hboth => hne' hboth.1
      | left =>
          by_cases hnil : sib = .nil
          · subst hnil
            exact if_neg fun hboth => hboth.2 rfl
          -- A left child with a sibling: the deepest node of the sibling comes next.
          · have hheight : sib.height ≤ fuel := by
              have hfill : sib.height + 1 ≤
                  (Frame.fill ⟨.left, cf, p, sib⟩ (nodeOn .left c l a r)).height := by
                simp only [Frame.fill, nodeOn, BinTree.height]
                omega
              have hplug := length_add_height
                (Frame.fill ⟨.left, cf, p, sib⟩ (nodeOn .left c l a r)) fs
              rw [plug_cons] at hfuel
              omega
            obtain ⟨x, hhead, hrun⟩ := rb_left_deepest_run hsib hnil hheight
            refine (if_pos ⟨rfl, fun hzero => hnil (hsib.addr_eq_zero.mp hzero)⟩).trans ?_
            rw [postAfter, List.head?_append, hhead]
            exact hrun

/-- **`rb_next_postorder`** returns what comes next in postorder. -/
theorem rb_next_postorder_run (h : Held m t []) (ha : a ∈ t.toList) (hfuel : t.height ≤ fuel) :
    rb_next_postorder fuel m a = some (following a t.postorder) := by
  obtain ⟨c, l, r, fs, rfl⟩ := exists_focus ha
  have hsplit : (plug (.node c l a r) fs).postorder =
      (postBefore fs ++ (l.postorder ++ r.postorder)) ++ a :: postAfter fs := by
    rw [postorder_plug, postorder]
    simp
  have hnd := (postorder_perm (plug (.node c l a r) fs)).nodup_iff.mpr h.nodup
  rw [hsplit] at hnd ⊢
  have hnot : a ∉ postBefore fs ++ (l.postorder ++ r.postorder) := fun hmem =>
    (List.nodup_append.mp hnd).2.2 a hmem a List.mem_cons_self rfl
  rw [following_append hnot]
  exact rb_next_postorder_focus (t := .node c l a r) (held_plug.mp h) (by rintro ⟨⟩) hfuel

/-- A child comes before its parent. -/
theorem postorder_child (h : Shaped m t p) {n : RbNode} {s : Side} (ha : a ∈ t.toList)
    (hn : m.nodes a = some n) (hchild : n.child s ≠ 0#64) :
    [n.child s, a].Sublist t.postorder := by
  induction t generalizing p with
  | nil => cases ha
  | node c l b r ihl ihr =>
      rw [toList_node, List.mem_append, List.mem_cons] at ha
      have hcell := h.2.1
      obtain ⟨hb, -, hl, hr⟩ := h
      rw [postorder]
      -- The node is in the left subtree, at the root, or in the right subtree.
      rcases ha with ha | rfl | ha
      · exact (ihl hl ha).trans (List.sublist_append_left _ _)
      · cases hn.symm.trans hcell
        have hroot : ∀ u q, Shaped m u q → treeAddr u ≠ 0#64 → treeAddr u ∈ BinTree.postorder u := by
          intro u q hu hu0
          rw [(postorder_perm u).mem_iff]
          exact treeAddr_mem fun hnil => hu0 (hu.addr_eq_zero.mpr hnil)
        cases s with
        | left =>
            have hx := List.singleton_sublist.mpr (hroot l a hl hchild)
            exact hx.append (List.sublist_append_right _ _)
        | right =>
            have hx := List.singleton_sublist.mpr (hroot r a hr hchild)
            exact (hx.append (List.Sublist.refl [a])).trans (List.sublist_append_right _ _)
      · exact (ihr hr ha).trans
          ((List.sublist_append_left _ _).trans (List.sublist_append_right _ _))

end Postorder

end Stdlib
end EmbeddedOS
