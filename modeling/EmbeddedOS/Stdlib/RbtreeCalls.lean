import EmbeddedOS.Base.SearchTree
import EmbeddedOS.Stdlib.RbtreeInsert
import EmbeddedOS.Stdlib.RbtreeRemove

/-!
# Adding and replacing nodes

The descent of `rb_add` ends at the free place that the order gives, the node is linked in there as a
red leaf, and the repair does the rest. `rb_replace_node` puts another node in the same place.
-/

namespace EmbeddedOS
namespace Stdlib

set_option linter.style.nameCheck false

open Base
open Base.RedBlack
open Base.RedBlack.BinTree (BlackBalanced nodeOn toList_node toList_paint)

/-- The link that leads into the hole below the frames. -/
def linkOf : RbFrames → RbLink
  | [] => .root
  | f :: _ => .child f.elem f.side

section Link

variable {m : RbMem} {t : RbTree} {fs : RbFrames} {a x : BitVec 64} {n : RbNode}

theorem follow_linkOf (h : Framed m fs x) : m.follow (linkOf fs) = some x := by
  cases fs with
  | nil => exact congrArg some h
  | cons f fs =>
      rw [linkOf, RbMem.follow, h.load, Option.map_some, nodeCell_child]

theorem setLink_linkOf (h : Framed m fs x) : m.setLink a (linkOf fs) = some (m.relink fs a) := by
  cases fs with
  | nil => rfl
  | cons f fs =>
      rw [linkOf, RbMem.setLink, RbMem.modify_load h.load, nodeCell_setChild]
      rfl

/-- The node is linked in as a red leaf. -/
theorem rb_link_node_run (h : Held m .nil fs) (ha : IsNode a) (hn : m.nodes a = some n)
    (hfree : a ∉ frameElems fs) :
    ∃ m', rb_link_node m a (parentAddr fs) (linkOf fs) = some m' ∧
      Held m' (.node .red .nil a .nil) fs ∧
      ∀ b ∉ a :: frameElems fs, m'.nodes b = m.nodes b := by
  have hnd : (frameElems fs).Nodup := h.distinct
  let m₁ := m.set a (nodeCell .left (parentAddr fs) .red 0#64 0#64)
  have hfs₁ : Framed m₁ fs 0#64 := (framed_set hfree).mpr h.frames
  refine ⟨m₁.relink fs a, ?_, ⟨⟨ha, ?_, trivial, trivial⟩, RbMem.framed_relink hfs₁ hnd, ?_⟩, ?_⟩
  · have hcell : (⟨parentAddr fs, 0#64, 0#64⟩ : RbNode) =
        nodeCell .left (parentAddr fs) .red 0#64 0#64 := by
      simp [nodeCell, colourBit, RB_RED, Side.pick]
    rw [rb_link_node, RbMem.modify_eq ha.1 hn, hcell]
    exact setLink_linkOf hfs₁
  · rw [RbMem.relink_nodes hfree, RbMem.set_self]
    rfl
  · exact List.nodup_cons.mpr ⟨hfree, hnd⟩
  · intro b hb
    rw [List.mem_cons, not_or] at hb
    rw [RbMem.relink_nodes hb.2, RbMem.set_of_ne hb.1]

end Link

/-! ## The descent -/

section Descent

variable {m : RbMem} {t : RbTree} {fs : RbFrames} {fuel : Nat}

theorem rbAdd_loop (less : BitVec 64 → BitVec 64 → Bool) (a : BitVec 64) (h : Held m t fs)
    (hfuel : t.height < fuel) :
    loop (rbAddPass less m a) fuel (linkOf fs, parentAddr fs) =
      some (linkOf (descend (less a) t fs), parentAddr (descend (less a) t fs)) := by
  -- Each pass moves one node into the frames.
  induction t generalizing fs fuel with
  | nil =>
      obtain ⟨fuel, rfl⟩ : ∃ k, fuel = k + 1 := ⟨fuel - 1, by omega⟩
      refine loop_done ?_
      rw [rbAddPass, follow_linkOf h.frames]
      rfl
  | node c l b r ihl ihr =>
      rw [BinTree.height] at hfuel
      obtain ⟨fuel, rfl⟩ : ∃ k, fuel = k + 1 := ⟨fuel - 1, by omega⟩
      have hb : IsNode b := h.tree.1
      have hpass : rbAddPass less m a (linkOf fs, parentAddr fs) =
          if less a b then some (.again (.child b .left, b))
          else some (.again (.child b .right, b)) := by
        rw [rbAddPass, follow_linkOf h.frames]
        exact if_neg hb.1
      rw [descend]
      by_cases hless : less a b = true
      · rw [if_pos hless] at hpass ⊢
        rw [loop_again hpass]
        have hl : Held m l (⟨.left, c, b, r⟩ :: fs) := held_fill.mp h
        exact ihl hl (by omega)
      · rw [if_neg hless] at hpass ⊢
        rw [loop_again hpass]
        have hr : Held m r (⟨.right, c, b, l⟩ :: fs) := held_fill.mp h
        exact ihr hr (by omega)

end Descent

/-! ## `rb_add` -/

section Add

variable {less : BitVec 64 → BitVec 64 → Bool} {m : RbMem} {t : RbTree} {fs : RbFrames}
  {a : BitVec 64} {k fuel : Nat} {n : RbNode}

/-- The node comes into a free place, and the tree stays balanced. -/
theorem rb_insert_place (h : Held m .nil fs) (hbal : BlackBalanced (plug .nil fs) .black k)
    (ha : IsNode a) (hn : m.nodes a = some n) (hfree : a ∉ frameElems fs)
    (hfuel : fs.length < fuel) :
    ∃ m₁ m' u, rb_link_node m a (parentAddr fs) (linkOf fs) = some m₁ ∧
      rb_insert_color fuel m₁ a = some m' ∧ Held m' u [] ∧
      u.toList = before fs ++ a :: after fs ∧ (∃ j, BlackBalanced u .black j) ∧
      ∀ b ∉ a :: frameElems fs, m'.nodes b = m.nodes b := by
  obtain ⟨m₁, hlink, hheld, hframe⟩ := rb_link_node_run h ha hn hfree
  -- A red leaf fits into the hole of an empty tree but for the colour of its parent.
  obtain ⟨c, i, hnil, hhole⟩ := hole_of_balanced hbal
  cases hnil
  obtain ⟨u, hfix, hlist, hubal⟩ := insertFix_spec (t := .node .red .nil a .nil)
    (.red .nil .nil) hhole
  obtain ⟨m', hloop, hre⟩ := rb_insert_loop hheld (by rintro ⟨⟩) hfix hfuel
  refine ⟨m₁, m', u, hlink, ?_, hre.held, ?_, hubal, ?_⟩
  · have hload := Shaped.load (s := .left) hheld.tree
    have hred : rb_red_parent (nodeCell .left (parentAddr fs) .red 0#64 0#64) = parentAddr fs :=
      BitVec.or_zero
    rw [rb_insert_color, __rb_insert, hload]
    simp only [Option.bind_eq_bind, Option.bind_some, treeAddr_nil, hred]
    exact hloop
  · rw [hlist, toList_plug]
    simp
  · intro b hb
    rw [hre.frame b hb, hframe b hb]

/-- The memory holds a balanced tree with these nodes, from left to right. -/
def HoldsTree (m : RbMem) (xs : List (BitVec 64)) : Prop :=
  ∃ t k, Held m t [] ∧ t.toList = xs ∧ BlackBalanced t .black k

/-- A node that can be put into the tree. -/
structure Fresh (m : RbMem) (xs : List (BitVec 64)) (a : BitVec 64) : Prop where
  isNode : IsNode a
  live : (m.nodes a).isSome
  notMem : a ∉ xs

variable {xs : List (BitVec 64)}

/-- Below the empty place that the descent finds. -/
theorem rb_insert_found (hheld : Held m t []) (hbal : BlackBalanced t .black k)
    (hfresh : Fresh m t.toList a) (hplug : plug .nil fs = t) (hfuel : t.height < fuel) :
    ∃ m₁ m', rb_link_node m a (parentAddr fs) (linkOf fs) = some m₁ ∧
      rb_insert_color fuel m₁ a = some m' ∧ HoldsTree m' (before fs ++ a :: after fs) ∧
      ∀ b ∉ a :: t.toList, m'.nodes b = m.nodes b := by
  subst hplug
  obtain ⟨n, hn⟩ := Option.isSome_iff_exists.mp hfresh.live
  have hlist : ∀ b, b ∈ (plug .nil fs).toList ↔ b ∈ frameElems fs := by
    intro b
    rw [perm_plug.mem_iff]
    rfl
  have hlen := length_add_height (.nil : RbTree) fs
  have hfree : a ∉ frameElems fs := fun hmem => hfresh.notMem ((hlist a).mpr hmem)
  obtain ⟨m₁, m', u, hlink, hrun, hu, hulist, ⟨j, hj⟩, hframe⟩ := rb_insert_place
    (held_plug.mp hheld) hbal hfresh.isNode hn hfree (show fs.length < fuel by omega)
  refine ⟨m₁, m', hlink, hrun, ⟨u, j, hu, hulist, hj⟩, ?_⟩
  intro b hb
  rw [List.mem_cons, not_or, hlist] at hb
  exact hframe b (by rw [List.mem_cons, not_or]; exact hb)

/-- **`rb_add`** puts the node before the first one that it is less than. -/
theorem rb_add_run (hless : StrictWeak less) (hheld : Held m t []) (hbal : BlackBalanced t .black k)
    (hord : Ordered less t.toList) (hfresh : Fresh m t.toList a) (hfuel : t.height < fuel) :
    ∃ m', rb_add fuel less m a = some m' ∧ HoldsTree m' (insertInto less a t.toList) ∧
      ∀ b ∉ a :: t.toList, m'.nodes b = m.nodes b := by
  have hloop := rbAdd_loop less a hheld hfuel
  obtain ⟨ys, zs, hbefore, hafter, hlist, hys, hzs⟩ :=
    descend_spec [] (hord.split hless (a := a))
  obtain ⟨m₁, m', hlink, hrun, hholds, hframe⟩ := rb_insert_found hheld hbal hfresh
    (plug_descend (less a) t []) hfuel
  refine ⟨m', ?_, ?_, hframe⟩
  · rw [rb_add, show (RbLink.root, (0#64 : BitVec 64)) = (linkOf [], parentAddr []) from rfl, hloop]
    simp only [Option.bind_eq_bind, Option.bind_some, hlink]
    exact hrun
  · rw [hbefore, hafter] at hholds
    simp only [before, after, List.nil_append, List.append_nil] at hholds
    rw [← hlist, insertInto_append hys hzs]
    exact hholds

end Add

/-! ## `rb_find_add` -/

section FindAdd

variable {less : BitVec 64 → BitVec 64 → Bool} {cmp : BitVec 64 → BitVec 64 → Int} {m : RbMem}
  {t : RbTree} {fs : RbFrames} {a : BitVec 64} {k fuel : Nat}

/-- The search ends at a node that compares equal, or at the free place. -/
theorem rbFindAdd_loop (hcmp : Compares less cmp) (h : Held m t fs) (hfuel : t.height < fuel) :
    loop (rbFindAddPass cmp m a) fuel (linkOf fs, parentAddr fs) =
      some ((seek (cmp a) t).elim
        (.inr (linkOf (descend (less a) t fs), parentAddr (descend (less a) t fs))) .inl) := by
  induction t generalizing fs fuel with
  | nil =>
      obtain ⟨fuel, rfl⟩ : ∃ k, fuel = k + 1 := ⟨fuel - 1, by omega⟩
      refine loop_done ?_
      rw [rbFindAddPass, follow_linkOf h.frames]
      rfl
  | node c l b r ihl ihr =>
      rw [BinTree.height] at hfuel
      obtain ⟨fuel, rfl⟩ : ∃ k, fuel = k + 1 := ⟨fuel - 1, by omega⟩
      have hb : IsNode b := h.tree.1
      have hpass : rbFindAddPass cmp m a (linkOf fs, parentAddr fs) =
          if cmp a b < 0 then some (.again (.child b .left, b))
          else if cmp a b > 0 then some (.again (.child b .right, b))
          else some (.done (.inl b)) := by
        rw [rbFindAddPass, follow_linkOf h.frames]
        exact if_neg hb.1
      -- `cmp` goes left where `less` does, so the search takes the way of `descend`.
      have hdir := (hcmp a b).1
      rw [seek, descend]
      by_cases hneg : cmp a b < 0
      · rw [if_pos hneg] at hpass ⊢
        rw [if_pos (hdir.mp hneg), loop_again hpass]
        have hl : Held m l (⟨.left, c, b, r⟩ :: fs) := held_fill.mp h
        exact ihl hl (by omega)
      · rw [if_neg hneg] at hpass ⊢
        by_cases hpos : cmp a b > 0
        · rw [if_pos hpos] at hpass ⊢
          rw [if_neg fun hless => hneg (hdir.mpr hless), loop_again hpass]
          have hr : Held m r (⟨.right, c, b, l⟩ :: fs) := held_fill.mp h
          exact ihr hr (by omega)
        · rw [if_neg hpos] at hpass ⊢
          exact loop_done hpass

/-- **`rb_find_add`** returns a node that compares equal, and adds the new one only if there is
none. -/
theorem rb_find_add_run (hless : StrictWeak less) (hcmp : Compares less cmp) (hheld : Held m t [])
    (hbal : BlackBalanced t .black k) (hord : Ordered less t.toList) (hfresh : Fresh m t.toList a)
    (hfuel : t.height < fuel) :
    (∃ p ∈ t.toList, cmp a p = 0 ∧ rb_find_add fuel cmp m a = some (m, p)) ∨
    (∀ x ∈ t.toList, cmp a x ≠ 0) ∧ ∃ m', rb_find_add fuel cmp m a = some (m', 0#64) ∧
      HoldsTree m' (insertInto less a t.toList) ∧ ∀ b ∉ a :: t.toList, m'.nodes b = m.nodes b := by
  have hloop := rbFindAdd_loop (a := a) hcmp hheld hfuel
  have hstart : (RbLink.root, (0#64 : BitVec 64)) = (linkOf [], parentAddr []) := rfl
  cases hseek : seek (cmp a) t with
  | some p =>
      obtain ⟨hmem, hzero⟩ := seek_sound hseek
      -- A node compares equal: it is returned and nothing is written.
      refine .inl ⟨p, hmem, hzero, ?_⟩
      rw [rb_find_add, hstart, hloop, hseek]
      rfl
  | none =>
      obtain ⟨ys, zs, hbefore, hafter, hlist, hys, hzs⟩ :=
        descend_spec [] (hord.split hless (a := a))
      obtain ⟨m₁, m', hlink, hins, hholds, hframe⟩ := rb_insert_found hheld hbal hfresh
        (plug_descend (less a) t []) hfuel
      refine .inr ⟨seek_none (hord.sortedFor hless hcmp a) hseek, m', ?_, ?_, hframe⟩
      · rw [rb_find_add, hstart, hloop, hseek]
        simp only [Option.bind_eq_bind, Option.bind_some, Option.elim, hlink, hins]
      · rw [hbefore, hafter] at hholds
        simp only [before, after, List.nil_append, List.append_nil] at hholds
        rw [← hlist, insertInto_append hys hzs]
        exact hholds

end FindAdd

/-! ## `rb_erase` and `rb_replace_node` -/

section Replace

variable {m : RbMem} {t l r : RbTree} {fs : RbFrames} {c : Colour} {a new : BitVec 64} {k fuel : Nat}
  {n : RbNode}

/-- **`rb_erase`** leaves the other nodes, in order. -/
theorem rb_erase_holds (hheld : Held m t []) (hbal : BlackBalanced t .black k) (ha : a ∈ t.toList)
    (hfuel : t.height < fuel) :
    ∃ m', rb_erase fuel m a = some m' ∧ HoldsTree m' (t.toList.erase a) ∧
      ∀ b ∉ t.toList.erase a, m'.nodes b = m.nodes b := by
  obtain ⟨c, l, r, fs, rfl⟩ := exists_focus ha
  obtain ⟨u, hremove, hlist, j, hj⟩ := remove_spec hbal
  obtain ⟨m', hrun, hre⟩ := rb_erase_run (held_plug.mp hheld) hremove hfuel
  have hnd : (plug (.node c l a r) fs).toList.Nodup := by
    have := hheld.distinct
    rwa [heldElems, frameElems, List.append_nil] at this
  have hsplit : (plug (.node c l a r) fs).toList =
      (before fs ++ l.toList) ++ a :: (r.toList ++ after fs) := by
    rw [toList_plug, toList_node]
    simp
  have herase : u.toList = (plug (.node c l a r) fs).toList.erase a := by
    rw [hsplit] at hnd ⊢
    -- The node is in the list once, so `erase` finds it where it stands in the tree.
    have hnot : a ∉ before fs ++ l.toList := fun hmem =>
      (List.nodup_append.mp hnd).2.2 a hmem a List.mem_cons_self rfl
    rw [hlist, List.erase_append_right _ hnot, List.erase_cons_head, List.append_assoc]
  refine ⟨m', hrun, ⟨u, j, hre.held, herase, hj⟩, ?_⟩
  intro b hb
  refine hre.frame b ?_
  rw [heldElems, frameElems, List.append_nil, herase]
  exact hb

/-- The new node stands in the place of the victim. -/
theorem rb_replace_node_run (h : Held m (.node c l a r) fs) (hnew : IsNode new)
    (hn : m.nodes new = some n) (hfree : new ∉ heldElems (.node c l a r) fs) :
    ∃ m', rb_replace_node m a new = some m' ∧ Held m' (.node c l new r) fs ∧
      ∀ b, b ≠ new → b ∉ heldElems (.node c l new r) fs → m'.nodes b = m.nodes b := by
  obtain ⟨htree, hframes, hnd⟩ := id h
  have ha := Shaped.load (s := .left) htree
  obtain ⟨han, -, hl, hr⟩ := htree
  rw [treeAddr_node] at hframes
  have hperm : ∀ x, (heldElems (.node c l x r) fs).Perm
      (x :: (l.toList ++ (r.toList ++ frameElems fs))) := by
    intro x
    rw [List.perm_iff_count]
    intro b
    simp only [heldElems, toList_node, List.count_append, List.count_cons]
    omega
  rw [(hperm a).nodup_iff] at hnd
  rw [(hperm a).mem_iff] at hfree
  simp only [List.nodup_append', List.nodup_cons, List.mem_append, List.mem_cons, not_or,
    List.disjoint_append_right] at hnd hfree
  obtain ⟨⟨hal, har, hafs⟩, hndl, ⟨hndr, hndfs, hdr⟩, hdlr, hdl⟩ := hnd
  obtain ⟨hna, hnl, hnr, hnfs⟩ := hfree
  -- The copy of the victim, the parents of its children, and the link above.
  let m₁ := m.set new (nodeCell .left (parentAddr fs) c (treeAddr l) (treeAddr r))
  let m₂ := m₁.reparent l new l.colour
  let m₃ := m₂.reparent r new r.colour
  let m₄ := m₃.relink fs new
  have hl₁ : Shaped m₁ l a := (shaped_set hnl).mpr hl
  have hl₂ : Shaped m₂ l new := by
    have := RbMem.shaped_reparent_self (p := new) (c := l.colour) hl₁ hndl
    rwa [BinTree.paint_colour] at this
  have hr₂ : Shaped m₂ r a :=
    (RbMem.shaped_reparent (List.disjoint_symm hdlr)).mpr ((shaped_set hnr).mpr hr)
  have hr₃ : Shaped m₃ r new := by
    have := RbMem.shaped_reparent_self (p := new) (c := r.colour) hr₂ hndr
    rwa [BinTree.paint_colour] at this
  have hfs₃ : Framed m₃ fs a := (RbMem.framed_reparent (List.disjoint_symm hdr)).mpr
    ((RbMem.framed_reparent (List.disjoint_symm hdl)).mpr ((framed_set hnfs).mpr hframes))
  have hrun : rb_replace_node m a new = some m₄ := by
    rw [rb_replace_node, ha]
    simp only [Option.bind_eq_bind, Option.bind_some, nodeCell_rb_left, nodeCell_rb_right,
      nodeCell_parent hframes.aligned]
    rw [RbMem.modify_eq hnew.1 hn, Option.bind_some, setParentIf_run hl₁ han.2, Option.bind_some,
      setParentIf_run hr₂ han.2, Option.bind_some]
    exact rb_change_child_run hfs₃ han.1 hafs
  refine ⟨m₄, hrun, ⟨⟨hnew, ?_, ?_, ?_⟩, RbMem.framed_relink hfs₃ hndfs, ?_⟩, ?_⟩
  · rw [RbMem.relink_nodes hnfs, RbMem.reparent_nodes hnr, RbMem.reparent_nodes hnl, RbMem.set_self]
  · exact (RbMem.shaped_relink hdl).mpr ((RbMem.shaped_reparent hdlr).mpr hl₂)
  · exact (RbMem.shaped_relink hdr).mpr hr₃
  · rw [(hperm new).nodup_iff]
    simp only [List.nodup_append', List.nodup_cons, List.mem_append, not_or,
      List.disjoint_append_right]
    exact ⟨⟨hnl, hnr, hnfs⟩, hndl, ⟨hndr, hndfs, hdr⟩, hdlr, hdl⟩
  · intro b hbn hb
    rw [(hperm new).mem_iff] at hb
    simp only [List.mem_cons, List.mem_append, not_or] at hb
    rw [RbMem.relink_nodes hb.2.2.2, RbMem.reparent_nodes hb.2.2.1, RbMem.reparent_nodes hb.2.1,
      RbMem.set_of_ne hbn]

/-- **`rb_replace_node`** exchanges one node of the list. -/
theorem rb_replace_node_holds (hheld : Held m t []) (hbal : BlackBalanced t .black k)
    (ha : a ∈ t.toList)
    (hfresh : Fresh m t.toList new) :
    ∃ m', rb_replace_node m a new = some m' ∧
      HoldsTree m' (t.toList.map fun x => if x = a then new else x) ∧
      ∀ b ∉ t.toList.map fun x => if x = a then new else x, m'.nodes b = m.nodes b := by
  obtain ⟨c, l, r, fs, rfl⟩ := exists_focus ha
  obtain ⟨n, hn⟩ := Option.isSome_iff_exists.mp hfresh.live
  have hfree : new ∉ heldElems (.node c l a r) fs := fun hmem =>
    hfresh.notMem (perm_plug.mem_iff.mpr hmem)
  obtain ⟨m', hrun, hheld', hframe⟩ :=
    rb_replace_node_run (held_plug.mp hheld) hfresh.isNode hn hfree
  have hnd : (plug (.node c l a r) fs).toList.Nodup := by
    have := hheld.distinct
    rwa [heldElems, frameElems, List.append_nil] at this
  obtain ⟨j, hj⟩ := balanced_replace (b := new) hbal
  -- The victim stands once in the list, between the nodes before and behind it.
  have hmap : (plug (.node c l new r) fs).toList =
      (plug (.node c l a r) fs).toList.map fun x => if x = a then new else x := by
    have hsame : ∀ ys : List (BitVec 64), a ∉ ys →
        ys.map (fun x => if x = a then new else x) = ys := by
      intro ys hys
      refine (List.map_congr_left fun x hx => ?_).trans (List.map_id ys)
      exact if_neg (ne_of_mem_of_not_mem hx hys)
    have hsplit : ∀ x, (plug (.node c l x r) fs).toList =
        (before fs ++ l.toList) ++ x :: (r.toList ++ after fs) := by
      intro x
      rw [toList_plug, toList_node]
      simp
    rw [hsplit] at hnd ⊢
    rw [hsplit, List.map_append, List.map_cons, if_pos rfl]
    obtain ⟨-, hright, hcross⟩ := List.nodup_append.mp hnd
    rw [hsame _ fun hmem => hcross a hmem a List.mem_cons_self rfl,
      hsame _ (List.nodup_cons.mp hright).1]
  refine ⟨m', hrun, ⟨plug (.node c l new r) fs, j, held_plug.mpr hheld', hmap, hj⟩, ?_⟩
  intro b hb
  rw [← hmap, perm_plug.mem_iff] at hb
  refine hframe b (fun hbn => hb ?_) hb
  rw [hbn, heldElems, toList_node]
  simp

end Replace

end Stdlib
end EmbeddedOS
