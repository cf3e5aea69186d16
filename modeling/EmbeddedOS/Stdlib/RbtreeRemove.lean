import EmbeddedOS.Stdlib.RbtreeErase

/-!
# `rb_erase`

`__rb_erase_augmented` takes a node out the way it is described on trees, and returns the parent of
the place that is one black node short. The repair takes it from there.
-/

namespace EmbeddedOS
namespace Stdlib

set_option linter.style.nameCheck false

open Base
open Base.RedBlack
open Base.RedBlack.BinTree (nodeOn toList_node toList_paint)

/-- From one memory to the next the node `a` is gone from the tree. Its own contents stay. -/
structure Removed (m : RbMem) (t : RbTree) (fs : RbFrames) (a : BitVec 64) (m' : RbMem) (u : RbTree)
    (gs : RbFrames) : Prop where
  held : Held m' u gs
  perm : (a :: heldElems u gs).Perm (heldElems t fs)
  frame : ∀ b ∉ heldElems u gs, m'.nodes b = m.nodes b

section Removed

variable {m m' m'' : RbMem} {t u v : RbTree} {fs gs hs : RbFrames} {a : BitVec 64}

theorem Removed.trans (h : Removed m t fs a m' u gs) (h' : Rearranged m' u gs m'' v hs) :
    Removed m t fs a m'' v hs := by
  refine ⟨h'.held, (h'.perm.cons a).trans h.perm, ?_⟩
  intro b hb
  have hb' : b ∉ heldElems u gs := fun hmem => hb (h'.perm.mem_iff.mpr hmem)
  rw [h'.frame b hb', h.frame b hb']

theorem Removed.of_perm (h : Held m t fs) (hperm : (a :: heldElems u gs).Perm (heldElems t fs))
    (htree : Shaped m' u (parentAddr gs)) (hframes : Framed m' gs (treeAddr u))
    (hframe : ∀ b ∉ heldElems u gs, m'.nodes b = m.nodes b) : Removed m t fs a m' u gs :=
  ⟨⟨htree, hframes, (List.nodup_cons.mp (hperm.nodup_iff.mpr h.distinct)).2⟩, hperm, hframe⟩

end Removed

section Cells

variable {p x y : BitVec 64} {c : Colour}

@[simp] theorem nodeCell_rb_left : (nodeCell .left p c x y).rb_left = x := rfl

@[simp] theorem nodeCell_rb_right : (nodeCell .left p c x y).rb_right = y := rfl

end Cells

/-! ## No more than one child -/

section OneChild

variable {m : RbMem} {l r : RbTree} {fs : RbFrames} {c : Colour} {a : BitVec 64}

theorem rb_erase_right (fuel : Nat) (h : Held m (.node c .nil a r) fs) :
    ∃ m', __rb_erase_augmented fuel m a =
        some (m', if r = .nil ∧ c = .black then parentAddr fs else 0#64) ∧
      Removed m (.node c .nil a r) fs a m' (r.paint c) fs := by
  obtain ⟨htree, hframes, hnd⟩ := id h
  have ha := Shaped.load (s := .left) htree
  obtain ⟨han, -, -, hr⟩ := htree
  rw [treeAddr_node] at hframes
  simp only [heldElems, toList_node, BinTree.toList_nil, List.nil_append, List.cons_append,
    List.nodup_cons, List.nodup_append', List.mem_append, not_or] at hnd
  obtain ⟨⟨har, hafs⟩, hndr, hndfs, hdr⟩ := hnd
  let m₁ := m.relink fs (treeAddr r)
  let m₂ := m₁.reparent r (parentAddr fs) c
  have hr₁ : Shaped m₁ r a := (RbMem.shaped_relink hdr).mpr hr
  have hfs₁ : Framed m₁ fs (treeAddr r) := RbMem.framed_relink hframes hndfs
  have hchange : __rb_change_child m a (treeAddr r) (parentAddr fs) = some m₁ :=
    rb_change_child_run hframes han.1 hafs
  have hrun : __rb_erase_augmented fuel m a =
      some (m₂, if r = .nil ∧ c = .black then parentAddr fs else 0#64) := by
    rw [__rb_erase_augmented, ha]
    simp only [Option.bind_eq_bind, Option.bind_some, nodeCell_rb_left, nodeCell_rb_right,
      treeAddr_nil, if_true, nodeCell_pc, rb_parent_pack hframes.aligned,
      rb_is_black_pack hframes.aligned, hchange, decide_eq_true_eq]
    -- Without a child the black of a black node is missing: the repair starts at the parent.
    by_cases hnil : r = .nil
    · rw [if_neg (not_not_intro ((hr.addr_eq_zero).mpr hnil))]
      simp only [hnil, true_and]
      subst hnil
      rfl
    · have hadopt := rb_set_parent_color_run (p := parentAddr fs) (c := c) hr₁ hnil
      rw [rb_set_parent_color] at hadopt
      rw [if_pos fun hzero => hnil (hr.addr_eq_zero.mp hzero), hadopt, Option.bind_some,
        if_neg fun hboth => hnil hboth.1]
  refine ⟨m₂, hrun, .of_perm h ?_ (RbMem.shaped_reparent_self hr₁ hndr) ?_ ?_⟩
  · simp only [heldElems, toList_node, BinTree.toList_nil, List.nil_append, List.cons_append,
      toList_paint]
    exact List.Perm.refl _
  · rw [treeAddr_paint]
    exact (RbMem.framed_reparent (List.disjoint_symm hdr)).mpr hfs₁
  · intro b hb
    rw [heldElems, toList_paint, List.mem_append, not_or] at hb
    rw [RbMem.reparent_nodes hb.1, RbMem.relink_nodes hb.2]

theorem rb_erase_left (fuel : Nat) (h : Held m (.node c l a .nil) fs) (hne : l ≠ .nil) :
    ∃ m', __rb_erase_augmented fuel m a = some (m', 0#64) ∧
      Removed m (.node c l a .nil) fs a m' (l.paint c) fs := by
  obtain ⟨htree, hframes, hnd⟩ := id h
  have ha := Shaped.load (s := .left) htree
  obtain ⟨han, -, hl, -⟩ := htree
  rw [treeAddr_node] at hframes
  have hperm : (a :: (l.toList ++ frameElems fs)).Perm (heldElems (.node c l a .nil) fs) := by
    rw [List.perm_iff_count]
    intro b
    simp only [heldElems, toList_node, BinTree.toList_nil, List.count_append, List.count_cons,
      List.count_nil]
    omega
  rw [← hperm.nodup_iff] at hnd
  simp only [List.nodup_cons, List.nodup_append', List.mem_append, not_or] at hnd
  obtain ⟨⟨hal, hafs⟩, hndl, hndfs, hdl⟩ := hnd
  -- The child takes over the colour and the parent of the node, before the link above moves.
  let m₁ := m.reparent l (parentAddr fs) c
  let m₂ := m₁.relink fs (treeAddr l)
  have hfs₁ : Framed m₁ fs a := (RbMem.framed_reparent (List.disjoint_symm hdl)).mpr hframes
  have hrun : __rb_erase_augmented fuel m a = some (m₂, 0#64) := by
    have hadopt := rb_set_parent_color_run (p := parentAddr fs) (c := c) hl hne
    rw [rb_set_parent_color] at hadopt
    rw [__rb_erase_augmented, ha]
    simp only [Option.bind_eq_bind, Option.bind_some, nodeCell_rb_left, nodeCell_rb_right,
      treeAddr_nil, if_true, nodeCell_pc, rb_parent_pack hframes.aligned]
    rw [if_neg fun hzero => hne (hl.addr_eq_zero.mp hzero), hadopt, Option.bind_some,
      rb_change_child_run hfs₁ han.1 hafs, Option.bind_some]
  refine ⟨m₂, hrun, .of_perm h ?_ ?_ ?_ ?_⟩
  · rw [heldElems, toList_paint]
    exact hperm
  · exact (RbMem.shaped_relink (by rwa [toList_paint])).mpr (RbMem.shaped_reparent_self hl hndl)
  · rw [treeAddr_paint]
    exact RbMem.framed_relink hfs₁ hndfs
  · intro b hb
    rw [heldElems, toList_paint, List.mem_append, not_or] at hb
    rw [RbMem.relink_nodes hb.2, RbMem.reparent_nodes hb.1]

end OneChild

/-! ## Two children -/

section Splice

variable {m : RbMem} {l sr : RbTree} {fs : RbFrames} {c : Colour} {a x q child : BitVec 64}
  {n : RbNode}

/-- `x` takes the place of the node, and of the rest only the root of `sr` is written. -/
theorem rbEraseSplice_run (par : BitVec 64)
    (ha : m.load a = some (nodeCell .left (parentAddr fs) c (treeAddr l) child))
    (hx : m.load x = some n) (hxn : x ≠ 0#64) (han : IsNode a) (hl : Shaped m l a) (hlne : l ≠ .nil)
    (hsr : Shaped m sr q) (hfs : Framed m fs a) (hxa : x ≠ a) (hxl : x ∉ l.toList)
    (hxsr : x ∉ sr.toList) (hxfs : x ∉ frameElems fs) (hal : a ∉ l.toList)
    (hafs : a ∉ frameElems fs) (hndl : l.toList.Nodup) (hndfs : (frameElems fs).Nodup)
    (hdl : l.toList.Disjoint (frameElems fs)) (hdsl : sr.toList.Disjoint l.toList)
    (hdsf : sr.toList.Disjoint (frameElems fs)) :
    ∃ m', rbEraseSplice m a par x (treeAddr sr) =
        some (m', if sr = .nil ∧ n.rb_is_black = true then par else 0#64) ∧
      m'.nodes x = some (nodeCell .left (parentAddr fs) c (treeAddr l) n.rb_right) ∧
      Shaped m' l x ∧ Framed m' fs x ∧
      ∀ b, b ≠ x → b ∉ l.toList → b ∉ frameElems fs →
        m'.nodes b = (m.reparent sr par .black).nodes b := by
  -- The left child of `x`, that child's parent, the link above, the right child's parent, and last
  -- the colour and the parent of `x`.
  let m₁ := m.set x (n.setChild .left (treeAddr l))
  let m₂ := m₁.reparent l x l.colour
  let m₃ := m₂.relink fs x
  let m₄ := m₃.reparent sr par .black
  let m₅ := m₄.set x (nodeCell .left (parentAddr fs) c (treeAddr l) n.rb_right)
  have hl₁ : Shaped m₁ l a := (shaped_set hxl).mpr hl
  have hl₂ : Shaped m₂ l x := by
    have := RbMem.shaped_reparent_self (p := x) (c := l.colour) hl₁ hndl
    rwa [BinTree.paint_colour] at this
  have hfs₂ : Framed m₂ fs a := (RbMem.framed_reparent (List.disjoint_symm hdl)).mpr
    ((framed_set hxfs).mpr hfs)
  have ha₂ : m₂.load a = some (nodeCell .left (parentAddr fs) c (treeAddr l) child) := by
    rw [RbMem.load_reparent hal, RbMem.load_set (Ne.symm hxa), ha]
  have hsr₃ : Shaped m₃ sr q := (RbMem.shaped_relink hdsf).mpr
    ((RbMem.shaped_reparent hdsl).mpr ((shaped_set hxsr).mpr hsr))
  have hx₃ : m₃.load x = some (n.setChild .left (treeAddr l)) := by
    rw [RbMem.load_relink hxfs, RbMem.load_reparent hxl, RbMem.load_set_self hxn]
  have hx₄ : m₄.load x = some (n.setChild .left (treeAddr l)) :=
    (RbMem.load_reparent hxsr).trans hx₃
  have hrun : rbEraseSplice m a par x (treeAddr sr) =
      some (m₅, if sr = .nil ∧ n.rb_is_black = true then par else 0#64) := by
    rw [rbEraseSplice, ha, RB_BLACK_eq]
    simp only [Option.bind_eq_bind, Option.bind_some, nodeCell_rb_left]
    rw [RbMem.modify_load hx, Option.bind_some, rb_set_parent_run hl₁ han.2 hlne, Option.bind_some,
      ha₂, Option.bind_some, nodeCell_pc, rb_parent_pack hfs.aligned,
      rb_change_child_run hfs₂ han.1 hafs, Option.bind_some]
    -- Without a child the black of `x` is missing where it was.
    by_cases hnil : sr = .nil
    · subst hnil
      rw [treeAddr_nil, if_neg (not_not_intro rfl), hx₃, Option.bind_some, RbMem.modify_load hx₃,
        Option.bind_some]
      simp only [true_and]
      rfl
    · rw [if_pos fun hzero => hnil (hsr.addr_eq_zero.mp hzero), rb_set_parent_color_run hsr₃ hnil,
        Option.bind_some, RbMem.modify_load hx₄, Option.bind_some, if_neg fun hboth => hnil hboth.1]
      rfl
  refine ⟨m₅, hrun, RbMem.set_self, ?_, ?_, ?_⟩
  · exact (shaped_set hxl).mpr ((RbMem.shaped_reparent (List.disjoint_symm hdsl)).mpr
      ((RbMem.shaped_relink hdl).mpr hl₂))
  · exact (framed_set hxfs).mpr ((RbMem.framed_reparent (List.disjoint_symm hdsf)).mpr
      (RbMem.framed_relink hfs₂ hndfs))
  · intro b hbx hbl hbfs
    rw [RbMem.set_of_ne hbx]
    apply RbMem.reparent_congr
    rw [RbMem.relink_nodes hbfs, RbMem.reparent_nodes hbl, RbMem.set_of_ne hbx]

end Splice

section TwoChildren

variable {m : RbMem} {t l r sr : RbTree} {fs gs hs : RbFrames} {c cs cr : Colour}
  {a x y q : BitVec 64} {fuel : Nat}

/-- The loop finds the leftmost node, and the node above it. -/
theorem successor_loop (ht : Shaped m t (parentAddr hs)) (hne : t ≠ .nil)
    (hleft : leftmost t hs = some (gs, cs, x, sr)) (hfuel : gs.length < fuel + hs.length) :
    loop (successorPass m) fuel (y, parentAddr hs, treeAddr t) = some (parentAddr gs, x) := by
  induction t generalizing fuel hs y with
  | nil => exact absurd rfl hne
  | node c l a r ihl _ =>
      have hload := Shaped.load (s := .left) ht
      -- Down the left children, one frame a pass.
      cases l with
      | nil =>
          cases hleft
          obtain ⟨fuel, rfl⟩ : ∃ k, fuel = k + 1 := ⟨fuel - 1, by omega⟩
          refine loop_done ?_
          rw [successorPass, treeAddr_node, hload]
          simp only [Option.bind_eq_bind, Option.bind_some, nodeCell_rb_left]
          exact if_neg (not_not_intro rfl)
      | node cl ll b lr =>
          have hbelow : leftmost (.node cl ll b lr) (⟨.left, c, a, r⟩ :: hs) = some (gs, cs, x, sr) :=
            hleft
          have hlen := leftmost_length hbelow
          rw [List.length_cons] at hlen
          obtain ⟨fuel, rfl⟩ : ∃ k, fuel = k + 1 := ⟨fuel - 1, by omega⟩
          have hl : Shaped m (.node cl ll b lr) (parentAddr (⟨.left, c, a, r⟩ :: hs)) := ht.2.2.1
          have hpass : successorPass m (y, parentAddr hs, treeAddr (.node c (.node cl ll b lr) a r)) =
              some (.again (parentAddr hs, a, b)) := by
            rw [successorPass, treeAddr_node, hload]
            simp only [Option.bind_eq_bind, Option.bind_some, nodeCell_rb_left, treeAddr_node]
            exact if_pos hl.1.1
          refine (loop_again hpass).trans (ihl hl (by rintro ⟨⟩) hbelow ?_)
          rw [List.length_cons]
          omega

/-- What the first lines of case 3 find. -/
theorem successor_run {g : Frame (BitVec 64)} (ht : Shaped m t q)
    (hleft : leftmost t [] = some (g :: gs, cs, x, sr)) (hfuel : gs.length < fuel) :
    ∃ n, m.load (treeAddr t) = some n ∧ n.rb_left ≠ 0#64 ∧
      loop (successorPass m) fuel (treeAddr t, treeAddr t, n.rb_left) = some (g.elem, x) := by
  cases t with
  | nil => cases hleft
  | node c l a r =>
      have hload := Shaped.load (s := .left) ht
      cases l with
      | nil => cases hleft
      | node cl ll b lr =>
          have hl : Shaped m (.node cl ll b lr) (parentAddr [⟨.left, c, a, r⟩]) := ht.2.2.1
          refine ⟨_, hload, hl.1.1, ?_⟩
          exact successor_loop hl (by rintro ⟨⟩) hleft (by simpa using hfuel)

/-- The root of a subtree hangs below another node, and nothing else has changed. -/
theorem Shaped.reroot {m' : RbMem} (h : Shaped m t q) (hnd : t.toList.Nodup)
    (hsame : ∀ b ∈ t.toList, m'.nodes b = (m.reparent t x t.colour).nodes b) : Shaped m' t x := by
  have hself := RbMem.shaped_reparent_self (p := x) (c := t.colour) h hnd
  rw [BinTree.paint_colour] at hself
  exact hself.frame hsame

theorem frameElems_cons (fs : RbFrames) {f : Frame (BitVec 64)} :
    frameElems (f :: fs) = f.elem :: (f.sibling.toList ++ frameElems fs) := rfl

/-- Case 2: the successor is the right child. -/
theorem rb_erase_next (fuel : Nat) (h : Held m (.node c l a (.node cr .nil x sr)) fs)
    (hlne : l ≠ .nil) :
    ∃ m', __rb_erase_augmented fuel m a =
        some (m', if sr = .nil ∧ cr = .black then x else 0#64) ∧
      Removed m (.node c l a (.node cr .nil x sr)) fs a m' (sr.paint .black)
        (⟨.right, c, x, l⟩ :: fs) := by
  obtain ⟨htree, hframes, hnd⟩ := id h
  have ha := Shaped.load (s := .left) htree
  obtain ⟨han, -, hl, hr⟩ := htree
  have hx := Shaped.load (s := .left) hr
  obtain ⟨hxn, -, -, hsr⟩ := hr
  rw [treeAddr_node] at hframes
  -- What is held afterwards, and the node that is gone.
  have hperm : (a :: heldElems (sr.paint .black) (⟨.right, c, x, l⟩ :: fs)).Perm
      (heldElems (.node c l a (.node cr .nil x sr)) fs) := by
    rw [List.perm_iff_count]
    intro b
    simp only [heldElems, toList_node, BinTree.toList_nil, List.count_append, List.count_cons,
      List.count_nil, toList_paint, frameElems]
    omega
  rw [← hperm.nodup_iff, heldElems, toList_paint, frameElems] at hnd
  simp only [List.nodup_cons, List.nodup_append', List.mem_append, List.mem_cons, not_or,
    List.disjoint_append_right, List.disjoint_cons_right] at hnd
  obtain ⟨⟨hasr, hax, hal, hafs⟩, hndsr, ⟨⟨hxl, hxfs⟩, hndl, hndfs, hdl⟩, hxsr, hdsl, hdsf⟩ := hnd
  have hload : m.load a = some (nodeCell .left (parentAddr fs) c (treeAddr l) x) := ha
  obtain ⟨m', hrun, hcell, hl', hfs', hsame⟩ := rbEraseSplice_run x hload hx hxn.1 han hl
    hlne hsr hframes (Ne.symm hax) hxl hxsr hxfs hal hafs hndl hndfs hdl hdsl hdsf
  refine ⟨m', ?_, .of_perm h hperm ?_ ⟨hxn, ?_, hl', hfs'⟩ ?_⟩
  · rw [__rb_erase_augmented, ha]
    simp only [Option.bind_eq_bind, Option.bind_some, nodeCell_rb_left, nodeCell_rb_right,
      treeAddr_node]
    have hl0 : treeAddr l ≠ 0#64 := fun hzero => hlne (hl.addr_eq_zero.mp hzero)
    simp only [hl0, hxn.1, if_false, hx, Option.bind_some, nodeCell_rb_left, nodeCell_rb_right,
      treeAddr_nil, if_true]
    rw [hrun, nodeCell_isBlack han.2]
    simp only [decide_eq_true_eq]
  · refine (RbMem.shaped_reparent_self (c := .black) (p := x) hsr hndsr).frame fun b hb => ?_
    rw [toList_paint] at hb
    exact hsame b (ne_of_mem_of_not_mem hb hxsr) (hdsl hb) (hdsf hb)
  · rw [hcell, treeAddr_paint]
    rfl
  · intro b hb
    simp only [heldElems, toList_paint, frameElems, List.mem_append, List.mem_cons, not_or] at hb
    rw [hsame b hb.2.1 hb.2.2.1 hb.2.2.2, RbMem.reparent_nodes hb.1]

/-- Case 3: the successor is further down, below `g`. -/
theorem rb_erase_far {g : Frame (BitVec 64)} (h : Held m (.node c l a r) fs) (hlne : l ≠ .nil)
    (hleft : leftmost r [] = some (g :: gs, cs, x, sr)) (hfuel : gs.length < fuel) :
    ∃ m', __rb_erase_augmented fuel m a =
        some (m', if sr = .nil ∧ cs = .black then g.elem else 0#64) ∧
      Removed m (.node c l a r) fs a m' (sr.paint .black) ((g :: gs) ++ ⟨.right, c, x, l⟩ :: fs) := by
  have hrne : r ≠ .nil := by
    rintro rfl
    cases hleft
  -- The tree as it is seen from the successor, and from its child once the successor is out.
  obtain ⟨gs', cs', x', sr', hleft', hplug, hside⟩ := leftmost_spec [] hrne
  rw [List.append_nil] at hleft'
  cases hleft.symm.trans hleft'
  have hgside : g.side = .left := hside g List.mem_cons_self
  have hfill : Held m r (⟨.right, c, a, l⟩ :: fs) := held_fill.mp h
  have hdeep : Held m (.node cs .nil x sr) ((g :: gs) ++ ⟨.right, c, a, l⟩ :: fs) := by
    rw [← held_plug_append, hplug]
    exact hfill
  obtain ⟨htree, hframes, hnd⟩ := id hdeep
  have hx := Shaped.load (s := .left) htree
  have hg := hframes.load
  obtain ⟨hxn, -, -, hsr⟩ := htree
  have hperm : (heldElems (.node cs .nil x sr) ((g :: gs) ++ ⟨.right, c, a, l⟩ :: fs)).Perm
      (x :: a :: (sr.toList ++ (frameElems (g :: gs) ++ (l.toList ++ frameElems fs)))) := by
    rw [List.perm_iff_count]
    intro b
    simp only [heldElems, frameElems_append, frameElems, toList_node, BinTree.toList_nil,
      List.count_append, List.count_cons, List.count_nil]
    omega
  have hndF := (List.nodup_append'.mp hnd).2.1
  rw [hperm.nodup_iff] at hnd
  simp only [List.nodup_append', List.nodup_cons, List.mem_append, List.mem_cons, not_or,
    List.disjoint_append_right] at hnd
  obtain ⟨⟨hxa, hxsr, hxg, hxl, hxfs⟩, ⟨hasr, hag, hal, hafs⟩, hndsr, ⟨hndg, ⟨hndl, hndfs, hdl⟩,
    hdgl, hdgf⟩, hdsg, hdsl, hdsf⟩ := hnd
  have hdsF : sr.toList.Disjoint (frameElems ((g :: gs) ++ ⟨.right, c, a, l⟩ :: fs)) := by
    rw [frameElems_append, frameElems_cons fs, List.disjoint_append_right,
      List.disjoint_cons_right, List.disjoint_append_right]
    exact ⟨hdsg, hasr, hdsl, hdsf⟩
  have hgmem : g.elem ∈ frameElems (g :: gs) := List.mem_cons_self
  have hgx : g.elem ≠ x := ne_of_mem_of_not_mem hgmem hxg
  let m₁ := m.relink ((g :: gs) ++ ⟨.right, c, a, l⟩ :: fs) (treeAddr sr)
  let mv := m₁.reparent sr g.elem .black
  have hsr₁ : Shaped m₁ sr x := (RbMem.shaped_relink hdsF).mpr hsr
  have hmv : Held mv (sr.paint .black) ((g :: gs) ++ ⟨.right, c, a, l⟩ :: fs) := by
    refine ⟨RbMem.shaped_reparent_self hsr₁ hndsr, ?_, ?_⟩
    · rw [treeAddr_paint]
      exact (RbMem.framed_reparent (List.disjoint_symm hdsF)).mpr
        (RbMem.framed_relink hframes hndF)
    · rw [heldElems, toList_paint]
      exact List.nodup_append'.mpr ⟨hndsr, hndF, hdsF⟩
  -- The right subtree without the successor, still below the node.
  have hR := held_plug_append.mpr hmv
  generalize hRdef : plug (sr.paint .black) (g :: gs) = R at hR
  have hchild : treeAddr R = treeAddr r := by
    rw [← hRdef, ← hplug]
    exact treeAddr_plug
  have hRmem : ∀ b, b ∈ R.toList ↔ b ∈ sr.toList ∨ b ∈ frameElems (g :: gs) := by
    intro b
    rw [← hRdef, perm_plug.mem_iff, heldElems, toList_paint, List.mem_append]
  have hchildR : treeAddr R ∈ frameElems (g :: gs) := hRdef ▸ treeAddr_plug_mem
  have hRsr : treeAddr R ∉ sr.toList := fun hmem => hdsg hmem hchildR
  have hRx : treeAddr R ≠ x := ne_of_mem_of_not_mem hchildR hxg
  have hxR : x ∉ R.toList := by
    rw [hRmem, not_or]
    exact ⟨hxsr, hxg⟩
  have haR : a ∉ R.toList := by
    rw [hRmem, not_or]
    exact ⟨hasr, hag⟩
  have hdRl : l.toList.Disjoint R.toList := by
    intro b hbl hbR
    rcases (hRmem b).mp hbR with hb | hb
    · exact hdsl hb hbl
    · exact hdgl hb hbl
  have hdRf : (frameElems fs).Disjoint R.toList := by
    intro b hbf hbR
    rcases (hRmem b).mp hbR with hb | hb
    · exact hdsf hb hbf
    · exact hdgf hb hbf
  have hRne : R ≠ .nil := by
    rintro rfl
    exact absurd (hRmem g.elem |>.mpr (.inr hgmem)) (by simp)
  obtain ⟨hRtree, ⟨han, hacell, hlv, hfsv⟩, hRnd⟩ := hR
  let n := nodeCell .left g.elem cs 0#64 (treeAddr R)
  let m₂ := m₁.set x n
  let m₃ := m₂.reparent R x R.colour
  have ha₁ : m₁.load a = some (nodeCell .left (parentAddr fs) c (treeAddr l) (treeAddr R)) := by
    rw [← RbMem.load_reparent hasr]
    exact RbMem.load_eq han.1 hacell
  have hx₁ : m₁.load x = some (nodeCell .left g.elem cs 0#64 (treeAddr sr)) := by
    have hload : m₁.load x = m.load x := RbMem.load_set (Ne.symm hgx)
    rw [hload]
    exact hx
  have hl₁ : Shaped m₁ l a := (RbMem.shaped_reparent (List.disjoint_symm hdsl)).mp hlv
  have hfs₁ : Framed m₁ fs a := (RbMem.framed_reparent (List.disjoint_symm hdsf)).mp hfsv
  have ha₃ : m₃.load a = some (nodeCell .left (parentAddr fs) c (treeAddr l) (treeAddr R)) := by
    rw [RbMem.load_reparent haR, RbMem.load_set (Ne.symm hxa), ha₁]
  have hx₃ : m₃.load x = some n := by
    rw [RbMem.load_reparent hxR, RbMem.load_set_self hxn.1]
  have hl₃ : Shaped m₃ l a := (RbMem.shaped_reparent hdRl).mpr ((shaped_set hxl).mpr hl₁)
  have hfs₃ : Framed m₃ fs a := (RbMem.framed_reparent hdRf).mpr ((framed_set hxfs).mpr hfs₁)
  have hsr₃ : Shaped m₃ sr x :=
    (RbMem.shaped_reparent_root hRsr).mpr ((shaped_set hxsr).mpr hsr₁)
  obtain ⟨m', hsplice, hcell, hl', hfs', hsame⟩ := rbEraseSplice_run g.elem ha₃ hx₃ hxn.1
    han hl₃ hlne hsr₃ hfs₃ hxa hxl hxsr hxfs hal hafs hndl hndfs hdl hdsl hdsf
  have hR' : Shaped m' R x := by
    refine hRtree.reroot (List.nodup_append'.mp hRnd).1 fun b hb => ?_
    have hbx : b ≠ x := ne_of_mem_of_not_mem hb hxR
    have hbl : b ∉ l.toList := fun hmem => hdRl hmem hb
    have hbfs : b ∉ frameElems fs := fun hmem => hdRf hmem hb
    rw [hsame b hbx hbl hbfs, ← RbMem.reparent_comm hRsr]
    exact RbMem.reparent_congr (RbMem.reparent_congr (RbMem.set_of_ne hbx))
  have hperm' : (a :: heldElems (sr.paint .black) ((g :: gs) ++ ⟨.right, c, x, l⟩ :: fs)).Perm
      (heldElems (.node c l a r) fs) := by
    have hrperm : r.toList.Perm (heldElems (.node cs .nil x sr) (g :: gs)) := hplug ▸ perm_plug
    rw [List.perm_iff_count]
    intro b
    simp only [heldElems, frameElems_append, frameElems, toList_node, BinTree.toList_nil, toList_paint,
      List.count_append, List.count_cons, List.count_nil, hrperm.count_eq]
    omega
  have hheld' : Held m' R (⟨.right, c, x, l⟩ :: fs) := by
    refine ⟨hR', ⟨hxn, ?_, hl', hfs'⟩, ?_⟩
    · rw [hcell]
      rfl
    · have hnd' := (List.nodup_cons.mp (hperm'.nodup_iff.mpr h.distinct)).2
      rw [heldElems, frameElems_append, ← List.append_assoc] at hnd'
      rw [heldElems, ← hRdef]
      exact (perm_plug.append_right _).nodup_iff.mpr hnd'
  have hrun : __rb_erase_augmented fuel m a =
      some (m', if sr = .nil ∧ cs = .black then g.elem else 0#64) := by
    have ha : m.load a = some (nodeCell .left (parentAddr fs) c (treeAddr l) (treeAddr r)) :=
      Shaped.load (s := .left) h.tree
    have hl0 : treeAddr l ≠ 0#64 := fun hzero =>
      hlne (hl₁.addr_eq_zero.mp hzero)
    have hr0 : treeAddr r ≠ 0#64 := fun hzero => hrne (hfill.tree.addr_eq_zero.mp hzero)
    obtain ⟨nr, hnr, hnr0, hloop⟩ := successor_run hfill.tree hleft hfuel
    have hx' : m.load x = some (nodeCell .left g.elem cs 0#64 (treeAddr sr)) := hx
    have hset₁ : m.modify g.elem (RbNode.setChild .left (treeAddr sr)) = some m₁ := by
      rw [RbMem.modify_load hg, hgside, nodeCell_setChild, ← hgside]
      rfl
    have hset₂ : m₁.modify x (RbNode.setChild .right (treeAddr r)) = some m₂ := by
      rw [RbMem.modify_load hx₁, ← hchild]
      rfl
    have hset₃ : rb_set_parent m₂ (treeAddr r) x = some m₃ := by
      have hR₂ : m₂.load (treeAddr R) = mv.load (treeAddr R) := by
        rw [RbMem.load_set hRx, RbMem.load_reparent hRsr]
      rw [← hchild]
      obtain ⟨cR, lR, b, rR, rfl⟩ : ∃ cR lR b rR, R = .node cR lR b rR := by
        cases R with
        | nil => exact absurd rfl hRne
        | node cR lR b rR => exact ⟨cR, lR, b, rR, rfl⟩
      have hload : m₂.load b = some (nodeCell .left a cR (treeAddr lR) (treeAddr rR)) :=
        hR₂.trans (Shaped.load (s := .left) hRtree)
      rw [rb_set_parent, treeAddr_node, RbMem.modify_load hload, nodeCell_color han.2,
        BitVec.or_comm]
      rfl
    rw [__rb_erase_augmented, ha]
    simp only [Option.bind_eq_bind, Option.bind_some, nodeCell_rb_left, nodeCell_rb_right, hl0, hr0,
      if_false, hnr, hnr0, hloop, hx', hset₁, hset₂, hset₃, hsplice]
    have hblack : n.rb_is_black = decide (cs = .black) := nodeCell_isBlack hframes.1.2
    rw [hblack]
    simp only [decide_eq_true_eq]
  refine ⟨m', hrun, ?_, hperm', ?_⟩
  · rw [← held_plug_append, hRdef]
    exact hheld'
  · intro b hb
    simp only [heldElems, toList_paint, frameElems_append, frameElems_cons fs,
      List.mem_append, List.mem_cons, not_or] at hb
    obtain ⟨hbsr, hbg, hbx, hbl, hbfs⟩ := hb
    have hbR : b ∉ R.toList := by
      rw [hRmem, not_or]
      exact ⟨hbsr, hbg⟩
    have hbge : b ≠ g.elem := (ne_of_mem_of_not_mem hgmem hbg).symm
    rw [hsame b hbx hbl hbfs, RbMem.reparent_nodes hbsr, RbMem.reparent_nodes hbR,
      RbMem.set_of_ne hbx]
    exact RbMem.set_of_ne hbge

end TwoChildren

/-! ## All cases -/

section Erase

variable {m : RbMem} {t u v l r : RbTree} {fs gs : RbFrames} {c : Colour} {a : BitVec 64}
  {fuel : Nat} {short : Bool}

/-- `__rb_erase_augmented` takes the node out as described on trees, and returns the parent of the
place that is one short. -/
theorem rb_erase_augmented_run (fuel : Nat) (h : Held m (.node c l a r) fs)
    (hdetach : detach (.node c l a r) fs = some (v, gs, short)) (hfuel : r.height < fuel) :
    ∃ m', __rb_erase_augmented fuel m a =
        some (m', if short = true then parentAddr gs else 0#64) ∧
      Removed m (.node c l a r) fs a m' v gs := by
  -- The branches of the code: no left child, no right child, both.
  cases l with
  | nil =>
      obtain ⟨m', hrun, hre⟩ := rb_erase_right fuel h
      cases r with
      | nil =>
          cases hdetach
          exact ⟨m', by simpa only [leavesShort_eq_true] using hrun, hre⟩
      | node cr l' b r' =>
          cases hdetach
          rw [if_neg (by rintro ⟨⟨⟩, -⟩)] at hrun
          exact ⟨m', hrun, hre⟩
  | node cl l b s =>
      cases r with
      | nil =>
          cases hdetach
          obtain ⟨m', hrun, hre⟩ := rb_erase_left fuel h (by rintro ⟨⟩)
          exact ⟨m', hrun, hre⟩
      | node cr l' b' r' =>
          obtain ⟨hs, c', x, sr, hleft, hplug, -⟩ :=
            leftmost_spec (t := BinTree.node cr l' b' r') [] (by rintro ⟨⟩)
          rw [List.append_nil] at hleft
          rw [detach, hleft] at hdetach
          cases hdetach
          simp only [leavesShort_eq_true]
          -- Case 2 if the successor is the right child itself, else case 3.
          cases hs with
          | nil =>
              cases hplug
              obtain ⟨m', hrun, hre⟩ := rb_erase_next fuel h (by rintro ⟨⟩)
              exact ⟨m', hrun, hre⟩
          | cons g hs =>
              have hlen := length_add_height (.node c' .nil x sr) (g :: hs)
              rw [hplug, List.length_cons] at hlen
              obtain ⟨m', hrun, hre⟩ := rb_erase_far h (by rintro ⟨⟩) hleft
                (show hs.length < fuel by omega)
              exact ⟨m', hrun, hre⟩

/-- **`rb_erase` takes the node out and repairs the balance.** -/
theorem rb_erase_run (h : Held m (.node c l a r) fs)
    (hremove : remove (.node c l a r) fs = some u)
    (hfuel : (plug (.node c l a r) fs).height < fuel) :
    ∃ m', rb_erase fuel m a = some m' ∧ Removed m (.node c l a r) fs a m' u [] := by
  have hheight := length_add_height (.node c l a r) fs
  rw [BinTree.height] at hheight
  rw [remove] at hremove
  cases hdetach : detach (.node c l a r) fs with
  | none =>
      rw [hdetach] at hremove
      cases hremove
  | some d =>
      obtain ⟨v, gs, short⟩ := d
      have hlen := detach_length hdetach
      rw [hdetach] at hremove
      obtain ⟨m₁, hrun, hre⟩ := rb_erase_augmented_run fuel h hdetach (by omega)
      rw [rb_erase, hrun]
      simp only [Option.bind_eq_bind, Option.bind_some]
      cases short with
      | false =>
          cases hremove
          -- `rebalance` is `NULL`.
          exact ⟨m₁, rfl, hre.trans (Rearranged.refl hre.held).plug⟩
      | true =>
          have hfix : eraseFix v gs = some u := hremove
          obtain rfl := detach_short hdetach
          simp only [if_true]
          cases gs with
          | nil =>
              -- The place that is short is the root: every path is.
              cases hfix
              exact ⟨m₁, rfl, hre⟩
          | cons g gs =>
              rw [List.length_cons] at hlen
              obtain ⟨m', hloop, hre'⟩ := rb_erase_color_loop hre.held hfix
                (show gs.length < fuel by omega)
              refine ⟨m', ?_, hre.trans hre'⟩
              rw [parentAddr_cons, if_pos hre.held.frames.1.1, ____rb_erase_color]
              exact hloop

end Erase

end Stdlib
end EmbeddedOS
