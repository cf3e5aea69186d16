import EmbeddedOS.Stdlib.Rbtree

/-!
# Red-black trees in memory

A tree of addresses with colours stands in memory when every node holds its colour, its parent and
its two children. Seen from one of its nodes it is a subtree and the frames above, and the writes of
the code change one of them at a time.
-/

namespace EmbeddedOS
namespace Stdlib

set_option linter.style.nameCheck false

open Base
open Base.RedBlack
open Base.RedBlack.BinTree (nodeOn toList_node toList_paint)

/-- `RB_RED` or `RB_BLACK` -/
def colourBit : Colour → BitVec 64
  | .red => RB_RED
  | .black => RB_BLACK

/-- The two lowest bits are free. -/
def Aligned (p : BitVec 64) : Prop := p &&& 3#64 = 0#64

instance (p : BitVec 64) : Decidable (Aligned p) :=
  inferInstanceAs (Decidable (p &&& 3#64 = 0#64))

/-- An address that a node can have. -/
def IsNode (p : BitVec 64) : Prop := p ≠ 0#64 ∧ Aligned p

instance (p : BitVec 64) : Decidable (IsNode p) :=
  inferInstanceAs (Decidable (p ≠ 0#64 ∧ Aligned p))

abbrev RbTree := BinTree (BitVec 64)
abbrev RbFrames := List (Frame (BitVec 64))

/-- The address of the root. -/
def treeAddr : RbTree → BitVec 64
  | .nil => 0#64
  | .node _ _ a _ => a

/-- The address of the node above. -/
def parentAddr : RbFrames → BitVec 64
  | [] => 0#64
  | f :: _ => f.elem

/-- A node with child `near` on side `s`. -/
def nodeCell (s : Side) (parent : BitVec 64) (c : Colour) (near far : BitVec 64) : RbNode :=
  ⟨parent ||| colourBit c, s.pick far near, s.pick near far⟩

/-- The tree stands in memory, below `parent`. -/
def Shaped (m : RbMem) : RbTree → BitVec 64 → Prop
  | .nil, _ => True
  | .node c l a r, parent =>
      IsNode a ∧ m.nodes a = some (nodeCell .left parent c (treeAddr l) (treeAddr r)) ∧
        Shaped m l a ∧ Shaped m r a

/-- The frames stand in memory, above `hole`. -/
def Framed (m : RbMem) : RbFrames → BitVec 64 → Prop
  | [], hole => m.root = hole
  | f :: fs, hole =>
      IsNode f.elem ∧
        m.nodes f.elem = some (nodeCell f.side (parentAddr fs) f.colour hole (treeAddr f.sibling)) ∧
        Shaped m f.sibling f.elem ∧ Framed m fs f.elem

/-- The addresses of the frames. -/
def frameElems : RbFrames → List (BitVec 64)
  | [] => []
  | f :: fs => f.elem :: (f.sibling.toList ++ frameElems fs)

theorem frameElems_append (fs gs : RbFrames) :
    frameElems (fs ++ gs) = frameElems fs ++ frameElems gs := by
  induction fs with
  | nil => rfl
  | cons f fs ih => simp only [List.cons_append, frameElems, ih, List.append_assoc]

/-! ## Words -/

section Words

variable {p : BitVec 64} {c : Colour}

theorem getLsbD_of_aligned (h : Aligned p) : p.getLsbD 0 = false ∧ p.getLsbD 1 = false := by
  constructor
  · have := congrArg (fun x => x.getLsbD 0) h
    simpa using this
  · have := congrArg (fun x => x.getLsbD 1) h
    simpa using this

theorem getLsbD_three (i : Nat) : (3#64).getLsbD (i + 2) = false := by
  rw [BitVec.getLsbD_ofNat, Nat.testBit_succ, Nat.testBit_succ]
  simp

theorem getLsbD_colourBit (i : Nat) : (colourBit c).getLsbD (i + 1) = false := by
  cases c <;> simp [colourBit, RB_RED, RB_BLACK]

theorem rb_parent_pack (h : Aligned p) : __rb_parent (p ||| colourBit c) = p := by
  obtain ⟨h0, h1⟩ := getLsbD_of_aligned h
  apply BitVec.eq_of_getLsbD_eq
  intro i hi
  rw [__rb_parent, BitVec.getLsbD_and, BitVec.getLsbD_or, BitVec.getLsbD_not]
  rcases i with _ | _ | i
  · rw [h0]
    simp
  · rw [Nat.zero_add, h1]
    simp
  · rw [getLsbD_three, getLsbD_colourBit]
    simp [hi]

theorem rb_color_pack (h : Aligned p) : __rb_color (p ||| colourBit c) = colourBit c := by
  obtain ⟨h0, h1⟩ := getLsbD_of_aligned h
  apply BitVec.eq_of_getLsbD_eq
  intro i hi
  rw [__rb_color, BitVec.getLsbD_and, BitVec.getLsbD_or]
  rcases i with _ | i
  · rw [h0]
    simp
  · rw [getLsbD_colourBit]
    simp

theorem rb_is_red_pack (h : Aligned p) : __rb_is_red (p ||| colourBit c) = decide (c = .red) := by
  rw [__rb_is_red, rb_color_pack h]
  cases c <;> rfl

theorem rb_is_black_pack (h : Aligned p) :
    __rb_is_black (p ||| colourBit c) = decide (c = .black) := by
  rw [__rb_is_black, rb_color_pack h]
  cases c <;> rfl

end Words

section Cells

variable {s : Side} {p q x : BitVec 64} {c c' : Colour} {near far : BitVec 64}

theorem nodeCell_other : nodeCell s.other p c near far = nodeCell s p c far near := by
  cases s <;> rfl

@[simp] theorem nodeCell_child : (nodeCell s p c near far).child s = near := by
  cases s <;> rfl

@[simp] theorem nodeCell_child_other : (nodeCell s p c near far).child s.other = far := by
  cases s <;> rfl

@[simp] theorem nodeCell_setChild :
    (nodeCell s p c near far).setChild s x = nodeCell s p c x far := by
  cases s <;> rfl

@[simp] theorem nodeCell_setChild_other :
    (nodeCell s p c near far).setChild s.other x = nodeCell s p c near x := by
  cases s <;> rfl

@[simp] theorem nodeCell_pc : (nodeCell s p c near far).__rb_parent_color = p ||| colourBit c := rfl

@[simp] theorem nodeCell_mk :
    (⟨q ||| colourBit c', (nodeCell s p c near far).rb_right, (nodeCell s p c near far).rb_left⟩ :
      RbNode) = nodeCell s q c' near far := rfl

theorem nodeCell_parent (h : Aligned p) : (nodeCell s p c near far).rb_parent = p :=
  rb_parent_pack h

theorem nodeCell_isRed (h : Aligned p) : (nodeCell s p c near far).rb_is_red = decide (c = .red) :=
  rb_is_red_pack h

theorem nodeCell_isBlack (h : Aligned p) :
    (nodeCell s p c near far).rb_is_black = decide (c = .black) :=
  rb_is_black_pack h

theorem nodeCell_color (h : Aligned p) : (nodeCell s p c near far).rb_color = colourBit c :=
  rb_color_pack h

end Cells

/-! ## Memory -/

namespace RbMem

variable {m : RbMem} {p q : BitVec 64} {n : RbNode} {f : RbNode → RbNode}

theorem load_eq (hp : p ≠ 0#64) (h : m.nodes p = some n) : m.load p = some n := by
  rw [load, if_neg hp, h]

theorem modify_eq (hp : p ≠ 0#64) (h : m.nodes p = some n) : m.modify p f = some (m.set p (f n)) := by
  rw [modify, load_eq hp h, Option.map_some]

@[simp] theorem set_root : (m.set p n).root = m.root := rfl

@[simp] theorem set_self : (m.set p n).nodes p = some n := by
  simp only [set, Function.update_self]

theorem set_of_ne (h : q ≠ p) : (m.set p n).nodes q = m.nodes q := by
  simp only [set, Function.update_of_ne h]

end RbMem

/-! ## Trees in memory -/

section Shape

variable {m m' : RbMem} {t u : RbTree} {fs : RbFrames} {f : Frame (BitVec 64)} {s : Side}
  {c c' : Colour} {p q a b hole : BitVec 64} {n : RbNode} {near far : RbTree}

@[simp] theorem treeAddr_nil : treeAddr .nil = 0#64 := rfl

@[simp] theorem treeAddr_node {l r : RbTree} : treeAddr (.node c l a r) = a := rfl

@[simp] theorem treeAddr_nodeOn : treeAddr (nodeOn s c near a far) = a := by
  cases s <;> rfl

@[simp] theorem treeAddr_paint : treeAddr (t.paint c) = treeAddr t := by
  cases t <;> rfl

@[simp] theorem parentAddr_cons : parentAddr (f :: fs) = f.elem := rfl

theorem shaped_nodeOn : Shaped m (nodeOn s c near a far) p ↔
    IsNode a ∧ m.nodes a = some (nodeCell s p c (treeAddr near) (treeAddr far)) ∧
      Shaped m near a ∧ Shaped m far a := by
  cases s with
  | left => exact Iff.rfl
  | right =>
      simp only [nodeOn, Shaped]
      exact and_congr_right fun _ => and_congr_right fun _ => and_comm

@[simp] theorem toList_nodeOn_perm :
    (nodeOn s c near a far).toList.Perm (a :: (near.toList ++ far.toList)) := by
  cases s with
  | left => exact List.perm_middle
  | right => exact List.perm_middle.trans (List.perm_append_comm.cons a)

theorem mem_nodeOn : b ∈ (nodeOn s c near a far).toList ↔
    b = a ∨ b ∈ near.toList ∨ b ∈ far.toList := by
  rw [toList_nodeOn_perm.mem_iff, List.mem_cons, List.mem_append]

/-- What is not written stays. -/
theorem Shaped.frame (h : Shaped m t p) (hsame : ∀ a ∈ t.toList, m'.nodes a = m.nodes a) :
    Shaped m' t p := by
  induction t generalizing p with
  | nil => trivial
  | node c l a r ihl ihr =>
      simp only [toList_node, List.mem_append, List.mem_cons] at hsame
      obtain ⟨ha, hcell, hl, hr⟩ := h
      refine ⟨ha, ?_, ihl hl fun b hb => hsame b (.inl hb),
        ihr hr fun b hb => hsame b (.inr (.inr hb))⟩
      rw [hsame a (.inr (.inl rfl)), hcell]

theorem Framed.frame (h : Framed m fs hole) (hroot : m'.root = m.root)
    (hsame : ∀ a ∈ frameElems fs, m'.nodes a = m.nodes a) : Framed m' fs hole := by
  induction fs generalizing hole with
  | nil => exact hroot.trans h
  | cons f fs ih =>
      simp only [frameElems, List.mem_cons, List.mem_append] at hsame
      obtain ⟨hf, hcell, hsib, hrest⟩ := h
      refine ⟨hf, ?_, hsib.frame fun b hb => hsame b (.inr (.inl hb)),
        ih hrest fun b hb => hsame b (.inr (.inr hb))⟩
      rw [hsame f.elem (.inl rfl), hcell]

theorem shaped_set (h : a ∉ t.toList) : Shaped (m.set a n) t p ↔ Shaped m t p := by
  have hne : ∀ b ∈ t.toList, b ≠ a := fun b hb => ne_of_mem_of_not_mem hb h
  constructor
  · intro hs
    exact hs.frame fun b hb => (RbMem.set_of_ne (hne b hb)).symm
  · intro hs
    exact hs.frame fun b hb => RbMem.set_of_ne (hne b hb)

theorem shaped_set_paint (h : a ∉ t.toList) :
    Shaped (m.set a n) (t.paint c) p ↔ Shaped m (t.paint c) p :=
  shaped_set (by rwa [toList_paint])

theorem framed_set (h : a ∉ frameElems fs) : Framed (m.set a n) fs hole ↔ Framed m fs hole := by
  have hne : ∀ b ∈ frameElems fs, b ≠ a := fun b hb => ne_of_mem_of_not_mem hb h
  constructor
  · intro hs
    exact hs.frame rfl fun b hb => (RbMem.set_of_ne (hne b hb)).symm
  · intro hs
    exact hs.frame rfl fun b hb => RbMem.set_of_ne (hne b hb)

theorem Shaped.isNode (h : Shaped m t p) (ha : a ∈ t.toList) : IsNode a := by
  induction t generalizing p with
  | nil => cases ha
  | node c l b r ihl ihr =>
      obtain ⟨hb, -, hl, hr⟩ := h
      simp only [toList_node, List.mem_append, List.mem_cons] at ha
      rcases ha with ha | rfl | ha
      · exact ihl hl ha
      · exact hb
      · exact ihr hr ha

theorem treeAddr_mem (h : t ≠ .nil) : treeAddr t ∈ t.toList := by
  cases t with
  | nil => exact absurd rfl h
  | node c l a r => simp

theorem Shaped.addr_eq_zero (h : Shaped m t p) : treeAddr t = 0#64 ↔ t = .nil := by
  constructor
  · intro hzero
    by_contra hne
    exact (h.isNode (treeAddr_mem hne)).1 hzero
  · rintro rfl
    rfl

theorem framed_cons {sib : RbTree} : Framed m (⟨s, c, a, sib⟩ :: fs) hole ↔
    IsNode a ∧ m.nodes a = some (nodeCell s (parentAddr fs) c hole (treeAddr sib)) ∧
      Shaped m sib a ∧ Framed m fs a :=
  Iff.rfl

/-- Trees without a common node have different roots, if one has a root. -/
theorem Shaped.addr_ne (h : Shaped m t p) (hne : t ≠ .nil) (hd : t.toList.Disjoint u.toList) :
    treeAddr t ≠ treeAddr u := by
  intro heq
  by_cases hu : u = .nil
  · rw [hu, treeAddr_nil, h.addr_eq_zero] at heq
    exact hne heq
  · exact hd (treeAddr_mem hne) (heq ▸ treeAddr_mem hu)

theorem Framed.aligned (h : Framed m fs hole) : Aligned (parentAddr fs) := by
  cases fs with
  | nil => rfl
  | cons f fs => exact h.1.2

theorem Framed.parent_eq_zero (h : Framed m fs hole) : parentAddr fs = 0#64 ↔ fs = [] := by
  cases fs with
  | nil => exact iff_of_true rfl rfl
  | cons f fs => exact iff_of_false h.1.1 (List.cons_ne_nil f fs)

theorem Shaped.load (h : Shaped m (nodeOn s c near a far) p) :
    m.load a = some (nodeCell s p c (treeAddr near) (treeAddr far)) := by
  obtain ⟨ha, hcell, -⟩ := shaped_nodeOn.mp h
  exact RbMem.load_eq ha.1 hcell

theorem Framed.load (h : Framed m (f :: fs) hole) :
    m.load f.elem =
      some (nodeCell f.side (parentAddr fs) f.colour hole (treeAddr f.sibling)) :=
  RbMem.load_eq h.1.1 h.2.1

theorem Shaped.redAt (h : Shaped m t p) (hp : Aligned p) :
    m.redAt (treeAddr t) = some (decide (t.colour = .red)) := by
  cases t with
  | nil => rfl
  | node c l a r =>
      have hload := Shaped.load (s := .left) h
      rw [treeAddr_node, RbMem.redAt, if_neg h.1.1, hload, Option.map_some, nodeCell_isRed hp]
      rfl

end Shape

/-! ## Writes -/

namespace RbMem

/-- The root of `t` gets a parent and a colour. -/
def reparent (m : RbMem) (t : RbTree) (p : BitVec 64) (c : Colour) : RbMem :=
  match t with
  | .nil => m
  | .node _ l a r => m.set a (nodeCell .left p c (treeAddr l) (treeAddr r))

/-- What hangs below the frames is now at `x`. -/
def relink (m : RbMem) (fs : RbFrames) (x : BitVec 64) : RbMem :=
  match fs with
  | [] => { m with root := x }
  | f :: fs =>
      m.set f.elem (nodeCell f.side (parentAddr fs) f.colour x (treeAddr f.sibling))

variable {m : RbMem} {t u : RbTree} {fs gs : RbFrames} {p q x hole : BitVec 64} {c : Colour}
  {n n' : RbNode} {f : RbNode → RbNode}

theorem modify_load (h : m.load p = some n) : m.modify p f = some (m.set p (f n)) := by
  rw [modify, h, Option.map_some]

theorem load_set_self (hp : p ≠ 0#64) : (m.set p n).load p = some n := by
  rw [load, if_neg hp, set_self]

theorem load_set (h : q ≠ p) : (m.set p n).load q = m.load q := by
  rw [load, load, set_of_ne h]

theorem reparent_root : (m.reparent t p c).root = m.root := by
  cases t <;> rfl

theorem reparent_nodes (h : q ∉ t.toList) : (m.reparent t p c).nodes q = m.nodes q := by
  cases t with
  | nil => rfl
  | node c' l a r =>
      rw [reparent, set_of_ne]
      rintro rfl
      exact h (by simp)

theorem load_reparent (h : q ∉ t.toList) : (m.reparent t p c).load q = m.load q := by
  rw [load, load, reparent_nodes h]

/-- What is written does not depend on the memory. -/
theorem reparent_congr {m' : RbMem} (h : m'.nodes q = m.nodes q) :
    (m'.reparent t p c).nodes q = (m.reparent t p c).nodes q := by
  cases t with
  | nil => exact h
  | node c' l a r =>
      by_cases hqa : q = a
      · rw [hqa, reparent, reparent, set_self, set_self]
      · rw [reparent, reparent, set_of_ne hqa, set_of_ne hqa, h]

theorem reparent_comm {p' : BitVec 64} {c' : Colour} (h : treeAddr u ∉ t.toList) :
    ((m.reparent t p c).reparent u p' c').nodes q = ((m.reparent u p' c').reparent t p c).nodes q := by
  cases u with
  | nil => rfl
  | node cu l a r =>
      have ha : a ∉ t.toList := h
      by_cases hqa : q = a
      · rw [hqa, reparent_nodes ha, reparent, reparent, set_self, set_self]
      · rw [reparent, set_of_ne hqa]
        exact reparent_congr (set_of_ne hqa).symm

theorem relink_nodes (h : q ∉ frameElems fs) : (m.relink fs x).nodes q = m.nodes q := by
  cases fs with
  | nil => rfl
  | cons f fs =>
      rw [relink, set_of_ne]
      rintro rfl
      exact h List.mem_cons_self

theorem load_relink (h : q ∉ frameElems fs) : (m.relink fs x).load q = m.load q := by
  rw [load, load, relink_nodes h]

theorem shaped_reparent (h : u.toList.Disjoint t.toList) :
    Shaped (m.reparent t p c) u q ↔ Shaped m u q := by
  cases t with
  | nil => exact Iff.rfl
  | node c' l a r => exact shaped_set fun ha => h ha (by simp)

/-- Only the root is written. -/
theorem shaped_reparent_root (h : treeAddr t ∉ u.toList) :
    Shaped (m.reparent t p c) u q ↔ Shaped m u q := by
  cases t with
  | nil => exact Iff.rfl
  | node c' l a r => exact shaped_set h

theorem framed_reparent (h : (frameElems fs).Disjoint t.toList) :
    Framed (m.reparent t p c) fs hole ↔ Framed m fs hole := by
  cases t with
  | nil => exact Iff.rfl
  | node c' l a r => exact framed_set fun ha => h ha (by simp)

theorem shaped_reparent_self (h : Shaped m t q) (hnd : t.toList.Nodup) :
    Shaped (m.reparent t p c) (t.paint c) p := by
  cases t with
  | nil => trivial
  | node c' l a r =>
      obtain ⟨ha, -, hl, hr⟩ := h
      rw [toList_node, List.nodup_append] at hnd
      have hal : a ∉ l.toList := fun hmem => hnd.2.2 a hmem a List.mem_cons_self rfl
      have har : a ∉ r.toList := (List.nodup_cons.mp hnd.2.1).1
      exact ⟨ha, set_self, (shaped_set hal).mpr hl, (shaped_set har).mpr hr⟩

theorem shaped_relink (h : u.toList.Disjoint (frameElems fs)) :
    Shaped (m.relink fs x) u q ↔ Shaped m u q := by
  cases fs with
  | nil =>
      constructor <;> intro hs <;> exact hs.frame fun _ _ => rfl
  | cons f fs => exact shaped_set fun ha => h ha List.mem_cons_self

theorem framed_relink (h : Framed m fs hole) (hnd : (frameElems fs).Nodup) :
    Framed (m.relink fs x) fs x := by
  cases fs with
  | nil => rfl
  | cons f fs =>
      obtain ⟨hf, -, hsib, hrest⟩ := h
      rw [frameElems, List.nodup_cons, List.mem_append, not_or] at hnd
      exact ⟨hf, set_self, (shaped_set hnd.1.1).mpr hsib, (framed_set hnd.1.2).mpr hrest⟩

end RbMem

section Writes

variable {m : RbMem} {t : RbTree} {fs : RbFrames} {p q x old : BitVec 64} {c : Colour}

theorem RB_RED_eq : RB_RED = colourBit .red := rfl

theorem RB_BLACK_eq : RB_BLACK = colourBit .black := rfl

theorem rb_set_parent_color_run (h : Shaped m t q) (hne : t ≠ .nil) :
    rb_set_parent_color m (treeAddr t) p (colourBit c) = some (m.reparent t p c) := by
  cases t with
  | nil => exact absurd rfl hne
  | node c' l a r =>
      rw [rb_set_parent_color, treeAddr_node, RbMem.modify_load (Shaped.load (s := .left) h)]
      rfl

theorem setParentColorIf_run (h : Shaped m t q) :
    setParentColorIf m (treeAddr t) p (colourBit c) = some (m.reparent t p c) := by
  rw [setParentColorIf]
  by_cases ht : t = .nil
  · rw [ht, treeAddr_nil, if_neg (not_not_intro rfl)]
    rfl
  · rw [if_pos fun hzero => ht (h.addr_eq_zero.mp hzero), rb_set_parent_color_run h ht]

theorem rb_set_parent_run (h : Shaped m t q) (hq : Aligned q) (hne : t ≠ .nil) :
    rb_set_parent m (treeAddr t) p = some (m.reparent t p t.colour) := by
  cases t with
  | nil => exact absurd rfl hne
  | node c l a r =>
      rw [rb_set_parent, treeAddr_node, RbMem.modify_load (Shaped.load (s := .left) h),
        nodeCell_color hq, BitVec.or_comm]
      rfl

theorem setParentIf_run (h : Shaped m t q) (hq : Aligned q) :
    setParentIf m (treeAddr t) p = some (m.reparent t p t.colour) := by
  rw [setParentIf]
  by_cases ht : t = .nil
  · rw [ht, treeAddr_nil, if_neg (not_not_intro rfl)]
    rfl
  · rw [if_pos fun hzero => ht (h.addr_eq_zero.mp hzero), rb_set_parent_run h hq ht]

/-- The frames know which child the old one is. -/
theorem rb_change_child_run (h : Framed m fs old) (hold : old ≠ 0#64) (hnot : old ∉ frameElems fs) :
    __rb_change_child m old x (parentAddr fs) = some (m.relink fs x) := by
  cases fs with
  | nil => rfl
  | cons f fs =>
      obtain ⟨s, c, a, sib⟩ := f
      have hload := h.load
      obtain ⟨hf, hcell, hsib, hrest⟩ := h
      simp only [frameElems, List.mem_cons, List.mem_append, not_or] at hnot
      have hne : treeAddr sib ≠ old := by
        rintro rfl
        have hnil : sib ≠ .nil := by
          rintro rfl
          exact hold rfl
        exact hnot.2.1 (treeAddr_mem hnil)
      rw [__rb_change_child, parentAddr_cons, if_pos hf.1, hload, Option.bind_eq_bind,
        Option.bind_some]
      cases s with
      | left =>
          refine (if_pos rfl).trans ?_
          rw [RbMem.modify_load hload]
          rfl
      | right =>
          refine (if_neg hne).trans ?_
          rw [RbMem.modify_load hload]
          rfl

end Writes

/-! ## A tree seen from a node -/

/-- The addresses in use. -/
def heldElems (t : RbTree) (fs : RbFrames) : List (BitVec 64) := t.toList ++ frameElems fs

/-- The tree and its frames stand in memory, every node at an address of its own. -/
structure Held (m : RbMem) (t : RbTree) (fs : RbFrames) : Prop where
  tree : Shaped m t (parentAddr fs)
  frames : Framed m fs (treeAddr t)
  distinct : (heldElems t fs).Nodup

/-- From one memory to the next the nodes are arranged anew, and no others are written. -/
structure Rearranged (m : RbMem) (t : RbTree) (fs : RbFrames) (m' : RbMem) (u : RbTree)
    (gs : RbFrames) : Prop where
  held : Held m' u gs
  perm : (heldElems u gs).Perm (heldElems t fs)
  frame : ∀ b ∉ heldElems t fs, m'.nodes b = m.nodes b

section Held

variable {m m' m'' : RbMem} {t u v : RbTree} {fs gs hs : RbFrames} {f : Frame (BitVec 64)}
  {p : BitVec 64} {s : Side} {c : Colour} {a : BitVec 64} {near far : RbTree}

theorem perm_fill : (heldElems (f.fill t) fs).Perm (heldElems t (f :: fs)) := by
  rw [List.perm_iff_count]
  intro b
  simp only [heldElems, Frame.fill, frameElems, List.count_append, List.count_cons,
    toList_nodeOn_perm.count_eq]
  omega

/-- A tree with its parent is a tree. -/
theorem held_fill : Held m (f.fill t) fs ↔ Held m t (f :: fs) := by
  constructor
  · rintro ⟨htree, hframes, hnd⟩
    obtain ⟨ha, hcell, ht, hsib⟩ := shaped_nodeOn.mp htree
    rw [Frame.fill, treeAddr_nodeOn] at hframes
    exact ⟨ht, ⟨ha, hcell, hsib, hframes⟩, perm_fill.nodup_iff.mp hnd⟩
  · rintro ⟨ht, ⟨ha, hcell, hsib, hframes⟩, hnd⟩
    refine ⟨shaped_nodeOn.mpr ⟨ha, hcell, ht, hsib⟩, ?_, perm_fill.nodup_iff.mpr hnd⟩
    rwa [Frame.fill, treeAddr_nodeOn]

theorem held_plug_append : Held m (plug t gs) fs ↔ Held m t (gs ++ fs) := by
  induction gs generalizing t with
  | nil => exact Iff.rfl
  | cons g gs ih => rw [plug_cons, ih, List.cons_append, held_fill]

theorem held_plug : Held m (plug t fs) [] ↔ Held m t fs := by
  rw [held_plug_append, List.append_nil]

/-- What is below a frame does not decide where the top is. -/
theorem treeAddr_plug : treeAddr (plug t (f :: fs)) = treeAddr (plug u (f :: fs)) := by
  induction fs generalizing t u f with
  | nil => rw [plug_cons, plug_cons, plug_nil, plug_nil, Frame.fill, Frame.fill, treeAddr_nodeOn,
      treeAddr_nodeOn]
  | cons g fs ih => exact ih

theorem treeAddr_plug_mem : treeAddr (plug t (f :: fs)) ∈ frameElems (f :: fs) := by
  induction fs generalizing t f with
  | nil =>
      rw [plug_cons, plug_nil, Frame.fill, treeAddr_nodeOn]
      exact List.mem_cons_self
  | cons g fs ih =>
      rw [frameElems, List.mem_cons, List.mem_append]
      exact .inr (.inr ih)

theorem perm_plug : (plug t fs).toList.Perm (heldElems t fs) := by
  induction fs generalizing t with
  | nil => rw [heldElems, frameElems, List.append_nil, plug_nil]
  | cons f fs ih => exact ih.trans perm_fill

/-- A new arrangement of the same nodes keeps them apart. -/
theorem Rearranged.of_perm (h : Held m t fs) (hperm : (heldElems u gs).Perm (heldElems t fs))
    (htree : Shaped m' u (parentAddr gs)) (hframes : Framed m' gs (treeAddr u))
    (hframe : ∀ b ∉ heldElems t fs, m'.nodes b = m.nodes b) : Rearranged m t fs m' u gs :=
  ⟨⟨htree, hframes, hperm.nodup_iff.mpr h.distinct⟩, hperm, hframe⟩

theorem Rearranged.refl (h : Held m t fs) : Rearranged m t fs m t fs :=
  ⟨h, List.Perm.refl _, fun _ _ => rfl⟩

theorem Rearranged.trans (h : Rearranged m t fs m' u gs) (h' : Rearranged m' u gs m'' v hs) :
    Rearranged m t fs m'' v hs := by
  refine ⟨h'.held, h'.perm.trans h.perm, ?_⟩
  intro b hb
  rw [h'.frame b fun hmem => hb (h.perm.mem_iff.mp hmem), h.frame b hb]

/-- The same tree, seen from a child of the node. -/
theorem Rearranged.unfill (h : Rearranged m t fs m' (f.fill u) gs) :
    Rearranged m t fs m' u (f :: gs) :=
  ⟨held_fill.mp h.held, perm_fill.symm.trans h.perm, h.frame⟩

/-- The same tree, seen from the top. -/
theorem Rearranged.plug (h : Rearranged m t fs m' u gs) :
    Rearranged m t fs m' (RedBlack.plug u gs) [] := by
  refine ⟨held_plug.mpr h.held, List.Perm.trans ?_ h.perm, h.frame⟩
  rw [heldElems, frameElems, List.append_nil]
  exact perm_plug

end Held

/-! ## Rotation -/

section Rotate

variable {m : RbMem} {near mid far : RbTree} {fs : RbFrames} {s : Side} {c cg cx : Colour}
  {g x q : BitVec 64}

/-- With their children already exchanged, `x` takes the place of its parent `g`. -/
theorem rb_rotate_set_parents_run
    (hg : m.load g = some (nodeCell s (parentAddr fs) cg (treeAddr mid) (treeAddr far)))
    (hx : m.load x = some (nodeCell s q cx (treeAddr near) g)) (hgn : IsNode g) (hxn : IsNode x)
    (hnear : Shaped m near x) (hmid : Shaped m mid g) (hfar : Shaped m far g) (hfs : Framed m fs g)
    (hnd : (heldElems (nodeOn s cg near x (nodeOn s c mid g far)) fs).Nodup) :
    ∃ m', __rb_rotate_set_parents m g x (colourBit c) = some m' ∧
      Shaped m' (nodeOn s cg near x (nodeOn s c mid g far)) (parentAddr fs) ∧ Framed m' fs x ∧
      ∀ b, b ≠ x → b ≠ g → b ∉ frameElems fs → m'.nodes b = m.nodes b := by
  have hperm : (heldElems (nodeOn s cg near x (nodeOn s c mid g far)) fs).Perm
      (x :: g :: (near.toList ++ (mid.toList ++ (far.toList ++ frameElems fs)))) := by
    rw [List.perm_iff_count]
    intro b
    simp only [heldElems, List.count_append, List.count_cons, toList_nodeOn_perm.count_eq]
    omega
  rw [hperm.nodup_iff] at hnd
  simp only [List.nodup_append', List.nodup_cons, List.mem_append, List.mem_cons, not_or,
    List.disjoint_append_right] at hnd
  obtain ⟨⟨hxg, hxnear, hxmid, hxfar, hxfs⟩, ⟨hgnear, hgmid, hgfar, hgfs⟩, -, ⟨-, ⟨-, hndfs, hdf⟩,
    hdmf, hdm⟩, hdnm, hdnf, hdn⟩ := hnd
  let m₁ := m.set x (nodeCell s (parentAddr fs) cg (treeAddr near) g)
  let m₂ := m₁.set g (nodeCell s x c (treeAddr mid) (treeAddr far))
  let m₃ := m₂.relink fs x
  have hload₁ : m₁.load g = some (nodeCell s (parentAddr fs) cg (treeAddr mid) (treeAddr far)) :=
    (RbMem.load_set (Ne.symm hxg)).trans hg
  have hfs₂ : Framed m₂ fs g := (framed_set hgfs).mpr ((framed_set hxfs).mpr hfs)
  have hrun : __rb_rotate_set_parents m g x (colourBit c) = some m₃ := by
    rw [__rb_rotate_set_parents, hg]
    simp only [Option.bind_eq_bind, Option.bind_some, nodeCell_parent hfs.aligned]
    rw [RbMem.modify_load hx, Option.bind_some, rb_set_parent_color]
    simp only [nodeCell_pc, nodeCell_mk]
    rw [RbMem.modify_load hload₁, Option.bind_some]
    simp only [nodeCell_mk]
    exact rb_change_child_run hfs₂ hgn.1 hgfs
  refine ⟨m₃, hrun, ?_, RbMem.framed_relink hfs₂ hndfs, ?_⟩
  · refine shaped_nodeOn.mpr ⟨hxn, ?_, ?_, shaped_nodeOn.mpr ⟨hgn, ?_, ?_, ?_⟩⟩
    · rw [RbMem.relink_nodes hxfs, RbMem.set_of_ne hxg, RbMem.set_self, treeAddr_nodeOn]
    · exact (RbMem.shaped_relink hdn).mpr ((shaped_set hgnear).mpr ((shaped_set hxnear).mpr hnear))
    · rw [RbMem.relink_nodes hgfs, RbMem.set_self]
    · exact (RbMem.shaped_relink hdm).mpr ((shaped_set hgmid).mpr ((shaped_set hxmid).mpr hmid))
    · exact (RbMem.shaped_relink hdf).mpr ((shaped_set hgfar).mpr ((shaped_set hxfar).mpr hfar))
  · intro b hbx hbg hbfs
    rw [RbMem.relink_nodes hbfs, RbMem.set_of_ne hbg, RbMem.set_of_ne hbx]

end Rotate

end Stdlib
end EmbeddedOS
