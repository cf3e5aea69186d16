import EmbeddedOS.Stdlib.RbtreeShape

/-!
# `__rb_insert`

Every pass of the loop leaves the arrangement of nodes that the repair on trees describes, so the
loop computes the repair.
-/

namespace EmbeddedOS
namespace Stdlib

set_option linter.style.nameCheck false

open Base
open Base.RedBlack
open Base.RedBlack.BinTree (nodeOn toList_paint)

/-! ## The three cases -/

section Sides

variable {m : RbMem} {t sib unc near far : RbTree} {fs : RbFrames} {s s' : Side} {c cg : Colour}
  {p g x : BitVec 64}

theorem rbInsertSide_uncle (h : Held m t (⟨s', .red, p, sib⟩ :: ⟨s, cg, g, unc⟩ :: fs))
    (hunc : unc.colour = .red) :
    ∃ m', rbInsertSide s m (treeAddr t) p g = some (.again (m', g, parentAddr fs)) ∧
      Rearranged m t (⟨s', .red, p, sib⟩ :: ⟨s, cg, g, unc⟩ :: fs) m'
        (nodeOn s .red (nodeOn s' .black t p sib) g (unc.paint .black)) fs := by
  obtain ⟨htree, hframes, hnd⟩ := id h
  have hp := hframes.load
  have hg := hframes.2.2.2.load
  obtain ⟨⟨hp0, hpa⟩, -, (hsib : Shaped m sib p), ⟨hg0, hga⟩, -, (hunc' : Shaped m unc g), hrest⟩ :=
    hframes
  have hne : unc ≠ .nil := by
    rintro rfl
    cases hunc
  simp only [heldElems, frameElems, List.nodup_append', List.nodup_cons, List.mem_append,
    List.mem_cons, not_or, List.disjoint_append_right, List.disjoint_cons_right] at hnd
  obtain ⟨-, ⟨⟨hpsib, hpg, hpunc, hpfs⟩, -, ⟨⟨hgunc, hgfs⟩, hndunc, -, hdu⟩, ⟨hgsib, hdsu, -⟩⟩,
    ⟨hpt, -, hgt, hdtu, -⟩⟩ := hnd
  have hgp : g ≠ p := Ne.symm hpg
  -- The uncle, the parent and the grandparent get new colours, one after the other.
  let m₁ := m.reparent unc g .black
  let m₂ := m₁.set p (nodeCell s' g .black (treeAddr t) (treeAddr sib))
  let m₃ := m₂.set g (nodeCell s (parentAddr fs) .red p (treeAddr unc))
  have hload₁ : m₁.load p = some (nodeCell s' g .red (treeAddr t) (treeAddr sib)) :=
    (RbMem.load_reparent hpunc).trans hp
  have hload₂ : m₂.load g = some (nodeCell s (parentAddr fs) cg p (treeAddr unc)) := by
    rw [RbMem.load_set hgp, RbMem.load_reparent hgunc, hg]
  have hrun : rbInsertSide s m (treeAddr t) p g = some (.again (m₃, g, parentAddr fs)) := by
    rw [rbInsertSide, hg, RB_BLACK_eq, RB_RED_eq]
    simp only [Option.bind_eq_bind, Option.bind_some, nodeCell_child_other, hunc'.redAt hga, hunc,
      decide_true, if_true]
    rw [rb_set_parent_color_run hunc' hne, Option.bind_some, rb_set_parent_color,
      RbMem.modify_load hload₁, Option.bind_some]
    simp only [nodeCell_mk]
    rw [hload₂, Option.bind_some, nodeCell_parent hrest.aligned, rb_set_parent_color,
      RbMem.modify_load hload₂]
    rfl
  refine ⟨m₃, hrun, .of_perm h ?_ ?_ ?_ ?_⟩
  · rw [List.perm_iff_count]
    intro b
    simp only [heldElems, frameElems, List.count_append, List.count_cons,
      toList_nodeOn_perm.count_eq, toList_paint]
    omega
  · refine shaped_nodeOn.mpr ⟨⟨hg0, hga⟩, ?_, shaped_nodeOn.mpr ⟨⟨hp0, hpa⟩, ?_, ?_, ?_⟩, ?_⟩
    · rw [RbMem.set_self, treeAddr_nodeOn, treeAddr_paint]
    · rw [RbMem.set_of_ne hpg, RbMem.set_self]
    · exact (shaped_set hgt).mpr ((shaped_set hpt).mpr ((RbMem.shaped_reparent hdtu).mpr htree))
    · exact (shaped_set hgsib).mpr ((shaped_set hpsib).mpr ((RbMem.shaped_reparent hdsu).mpr hsib))
    · exact (shaped_set_paint hgunc).mpr
        ((shaped_set_paint hpunc).mpr (RbMem.shaped_reparent_self hunc' hndunc))
  · rw [treeAddr_nodeOn]
    exact (framed_set hgfs).mpr ((framed_set hpfs).mpr
      ((RbMem.framed_reparent (List.disjoint_symm hdu)).mpr hrest))
  · intro b hb
    simp only [heldElems, frameElems, List.mem_append, List.mem_cons, not_or] at hb
    rw [RbMem.set_of_ne hb.2.2.2.1, RbMem.set_of_ne hb.2.1, RbMem.reparent_nodes hb.2.2.2.2.1]

theorem perm_aligned : (heldElems (nodeOn s cg t p (nodeOn s .red (sib.paint .black) g unc)) fs).Perm
    (heldElems t (⟨s, .red, p, sib⟩ :: ⟨s, cg, g, unc⟩ :: fs)) := by
  rw [List.perm_iff_count]
  intro b
  simp only [heldElems, frameElems, List.count_append, List.count_cons,
    toList_nodeOn_perm.count_eq, toList_paint]
  omega

theorem rbInsertSide_aligned (h : Held m t (⟨s, .red, p, sib⟩ :: ⟨s, cg, g, unc⟩ :: fs))
    (hunc : unc.colour = .black) (ht : t ≠ .nil) :
    ∃ m', rbInsertSide s m (treeAddr t) p g = some (.done m') ∧
      Rearranged m t (⟨s, .red, p, sib⟩ :: ⟨s, cg, g, unc⟩ :: fs) m'
        (nodeOn s cg t p (nodeOn s .red (sib.paint .black) g unc)) fs := by
  obtain ⟨htree, hframes, hnd⟩ := id h
  have hp := hframes.load
  have hg := hframes.2.2.2.load
  rw [framed_cons, framed_cons] at hframes
  obtain ⟨hpn, -, hsib, hgn, -, hunc', hrest⟩ := hframes
  have hnd' := (perm_aligned.nodup_iff).mpr hnd
  simp only [heldElems, frameElems, List.nodup_append', List.nodup_cons, List.mem_append,
    List.mem_cons, not_or, List.disjoint_append_right, List.disjoint_cons_right] at hnd
  obtain ⟨-, ⟨⟨hpsib, hpg, hpunc, hpfs⟩, hndsib, ⟨⟨hgunc, hgfs⟩, -, -, hdu⟩, ⟨hgsib, hdsu, hdsf⟩⟩,
    ⟨hpt, hdts, hgt, hdtu, hdtf⟩⟩ := hnd
  have hgp : g ≠ p := Ne.symm hpg
  -- The memory right in front of `__rb_rotate_set_parents`, which does the rest.
  let m₁ := m.set g (nodeCell s (parentAddr fs) cg (treeAddr sib) (treeAddr unc))
  let m₂ := m₁.set p (nodeCell s g .red (treeAddr t) g)
  let m₃ := m₂.reparent sib g .black
  have hload₁ : m₁.load p = some (nodeCell s g .red (treeAddr t) (treeAddr sib)) :=
    (RbMem.load_set hpg).trans hp
  have hsib₂ : Shaped m₂ sib p := (shaped_set hpsib).mpr ((shaped_set hgsib).mpr hsib)
  have hg₃ : m₃.load g =
      some (nodeCell s (parentAddr fs) cg (treeAddr (sib.paint .black)) (treeAddr unc)) := by
    rw [RbMem.load_reparent hgsib, RbMem.load_set hgp, RbMem.load_set_self hgn.1, treeAddr_paint]
  have hp₃ : m₃.load p = some (nodeCell s g .red (treeAddr t) g) := by
    rw [RbMem.load_reparent hpsib, RbMem.load_set_self hpn.1]
  have ht₃ : Shaped m₃ t p :=
    (RbMem.shaped_reparent hdts).mpr ((shaped_set hpt).mpr ((shaped_set hgt).mpr htree))
  have hunc₃ : Shaped m₃ unc g := (RbMem.shaped_reparent (List.disjoint_symm hdsu)).mpr
    ((shaped_set hpunc).mpr ((shaped_set hgunc).mpr hunc'))
  have hfs₃ : Framed m₃ fs g := (RbMem.framed_reparent (List.disjoint_symm hdsf)).mpr
    ((framed_set hpfs).mpr ((framed_set hgfs).mpr hrest))
  obtain ⟨m', hrot, htree', hframes', hframe⟩ := rb_rotate_set_parents_run (c := .red) hg₃ hp₃ hgn
    hpn ht₃ (RbMem.shaped_reparent_self hsib₂ hndsib) hunc₃ hfs₃ hnd'
  have hrun : rbInsertSide s m (treeAddr t) p g = some (.done m') := by
    rw [rbInsertSide, hg, RB_BLACK_eq, RB_RED_eq]
    simp only [Option.bind_eq_bind, Option.bind_some, nodeCell_child_other, hunc'.redAt hgn.2, hunc,
      reduceCtorEq, decide_false, Bool.false_eq_true, if_false, hp, htree.addr_ne ht hdts]
    rw [RbMem.modify_load hg, Option.bind_some, nodeCell_setChild, RbMem.modify_load hload₁,
      Option.bind_some, nodeCell_setChild_other, setParentColorIf_run hsib₂, Option.bind_some,
      hrot]
    rfl
  refine ⟨m', hrun, .of_perm h perm_aligned htree' ?_ ?_⟩
  · rw [treeAddr_nodeOn]
    exact hframes'
  · intro b hb
    simp only [heldElems, frameElems, List.mem_append, List.mem_cons, not_or] at hb
    rw [hframe b hb.2.1 hb.2.2.2.1 hb.2.2.2.2.2, RbMem.reparent_nodes hb.2.2.1,
      RbMem.set_of_ne hb.2.1, RbMem.set_of_ne hb.2.2.2.1]

theorem perm_crossed :
    (heldElems (nodeOn s cg (nodeOn s .red sib p (near.paint .black)) x
      (nodeOn s .red (far.paint .black) g unc)) fs).Perm
    (heldElems (nodeOn s c near x far) (⟨s.other, .red, p, sib⟩ :: ⟨s, cg, g, unc⟩ :: fs)) := by
  rw [List.perm_iff_count]
  intro b
  simp only [heldElems, frameElems, List.count_append, List.count_cons,
    toList_nodeOn_perm.count_eq, toList_paint]
  omega

theorem rbInsertSide_crossed
    (h : Held m (nodeOn s c near x far) (⟨s.other, .red, p, sib⟩ :: ⟨s, cg, g, unc⟩ :: fs))
    (hunc : unc.colour = .black) :
    ∃ m', rbInsertSide s m x p g = some (.done m') ∧
      Rearranged m (nodeOn s c near x far) (⟨s.other, .red, p, sib⟩ :: ⟨s, cg, g, unc⟩ :: fs) m'
        (nodeOn s cg (nodeOn s .red sib p (near.paint .black)) x
          (nodeOn s .red (far.paint .black) g unc)) fs := by
  obtain ⟨htree, hframes, hnd⟩ := id h
  have hp := hframes.load
  have hg := hframes.2.2.2.load
  have hx := htree.load
  rw [framed_cons, framed_cons] at hframes
  obtain ⟨hpn, -, hsib, hgn, -, hunc', hrest⟩ := hframes
  obtain ⟨hxn, -, hnear, hfar⟩ := shaped_nodeOn.mp htree
  have hnd' := (perm_crossed).nodup_iff.mpr hnd
  have hperm : (heldElems (nodeOn s c near x far)
        (⟨s.other, .red, p, sib⟩ :: ⟨s, cg, g, unc⟩ :: fs)).Perm
      (x :: p :: g ::
        (near.toList ++ (far.toList ++ (sib.toList ++ (unc.toList ++ frameElems fs))))) := by
    rw [List.perm_iff_count]
    intro b
    simp only [heldElems, frameElems, List.count_append, List.count_cons,
      toList_nodeOn_perm.count_eq]
    omega
  rw [hperm.nodup_iff] at hnd
  simp only [List.nodup_append', List.nodup_cons, List.mem_append, List.mem_cons, not_or,
    List.disjoint_append_right] at hnd
  obtain ⟨⟨hxp, hxg, hxnear, hxfar, hxsib, hxunc, hxfs⟩, ⟨hpg, hpnear, hpfar, hpsib, hpunc, hpfs⟩,
    ⟨hgnear, hgfar, hgsib, hgunc, hgfs⟩, hndnear, ⟨hndfar, -, hdfs, hdfu, hdff⟩, hdnf, hdns, hdnu,
    hdnfs⟩ := hnd
  have hpx := Ne.symm hxp
  have hgx := Ne.symm hxg
  have hgp := Ne.symm hpg
  -- Case 2
  let m₁ := m.set p (nodeCell s g .red (treeAddr sib) (treeAddr near))
  let m₂ := m₁.set x (nodeCell s p c p (treeAddr far))
  let m₃ := m₂.reparent near p .black
  let m₄ := m₃.set p (nodeCell s x .red (treeAddr sib) (treeAddr near))
  -- Case 3
  let m₅ := m₄.set g (nodeCell s (parentAddr fs) cg (treeAddr far) (treeAddr unc))
  let m₆ := m₅.set x (nodeCell s p c p g)
  let m₇ := m₆.reparent far g .black
  have hp' : m.load p = some (nodeCell s g .red (treeAddr sib) x) := by
    rw [hp, treeAddr_nodeOn, nodeCell_other]
    rfl
  have hx₁ : m₁.load x = some (nodeCell s p c (treeAddr near) (treeAddr far)) :=
    (RbMem.load_set hxp).trans hx
  have hnear₂ : Shaped m₂ near x := (shaped_set hxnear).mpr ((shaped_set hpnear).mpr hnear)
  have hp₃ : m₃.load p = some (nodeCell s g .red (treeAddr sib) (treeAddr near)) := by
    rw [RbMem.load_reparent hpnear, RbMem.load_set hpx, RbMem.load_set_self hpn.1]
  have hx₄ : m₄.load x = some (nodeCell s p c p (treeAddr far)) := by
    rw [RbMem.load_set hxp, RbMem.load_reparent hxnear, RbMem.load_set_self hxn.1]
  have hg₄ : m₄.load g = some (nodeCell s (parentAddr fs) cg p (treeAddr unc)) := by
    rw [RbMem.load_set hgp, RbMem.load_reparent hgnear, RbMem.load_set hgx, RbMem.load_set hgp, hg]
  have hx₅ : m₅.load x = some (nodeCell s p c p (treeAddr far)) :=
    (RbMem.load_set hxg).trans hx₄
  have hfar₆ : Shaped m₆ far x := by
    refine (shaped_set hxfar).mpr ((shaped_set hgfar).mpr ((shaped_set hpfar).mpr ?_))
    exact (RbMem.shaped_reparent (List.disjoint_symm hdnf)).mpr
      ((shaped_set hxfar).mpr ((shaped_set hpfar).mpr hfar))
  have hg₇ : m₇.load g =
      some (nodeCell s (parentAddr fs) cg (treeAddr (far.paint .black)) (treeAddr unc)) := by
    rw [RbMem.load_reparent hgfar, RbMem.load_set hgx, RbMem.load_set_self hgn.1, treeAddr_paint]
  have hx₇ : m₇.load x =
      some (nodeCell s p c (treeAddr (nodeOn s .red sib p (near.paint .black))) g) := by
    rw [RbMem.load_reparent hxfar, RbMem.load_set_self hxn.1, treeAddr_nodeOn]
  have hleft₇ : Shaped m₇ (nodeOn s .red sib p (near.paint .black)) x := by
    refine shaped_nodeOn.mpr ⟨hpn, ?_, ?_, ?_⟩
    · rw [RbMem.reparent_nodes hpfar, RbMem.set_of_ne hpx, RbMem.set_of_ne hpg, RbMem.set_self,
        treeAddr_paint]
    · refine (RbMem.shaped_reparent (List.disjoint_symm hdfs)).mpr ((shaped_set hxsib).mpr
        ((shaped_set hgsib).mpr ((shaped_set hpsib).mpr ?_)))
      exact (RbMem.shaped_reparent (List.disjoint_symm hdns)).mpr
        ((shaped_set hxsib).mpr ((shaped_set hpsib).mpr hsib))
    · refine (RbMem.shaped_reparent (by rwa [toList_paint])).mpr ((shaped_set_paint hxnear).mpr
        ((shaped_set_paint hgnear).mpr ((shaped_set_paint hpnear).mpr ?_)))
      exact RbMem.shaped_reparent_self hnear₂ hndnear
  have hunc₇ : Shaped m₇ unc g := by
    refine (RbMem.shaped_reparent (List.disjoint_symm hdfu)).mpr ((shaped_set hxunc).mpr
      ((shaped_set hgunc).mpr ((shaped_set hpunc).mpr ?_)))
    exact (RbMem.shaped_reparent (List.disjoint_symm hdnu)).mpr
      ((shaped_set hxunc).mpr ((shaped_set hpunc).mpr hunc'))
  have hfs₇ : Framed m₇ fs g := by
    refine (RbMem.framed_reparent (List.disjoint_symm hdff)).mpr ((framed_set hxfs).mpr
      ((framed_set hgfs).mpr ((framed_set hpfs).mpr ?_)))
    exact (RbMem.framed_reparent (List.disjoint_symm hdnfs)).mpr
      ((framed_set hxfs).mpr ((framed_set hpfs).mpr hrest))
  obtain ⟨m', hrot, htree', hframes', hframe⟩ := rb_rotate_set_parents_run (c := .red) hg₇ hx₇ hgn
    hxn hleft₇ (RbMem.shaped_reparent_self hfar₆ hndfar) hunc₇ hfs₇ hnd'
  have hrun : rbInsertSide s m x p g = some (.done m') := by
    rw [rbInsertSide, hg, RB_BLACK_eq, RB_RED_eq]
    simp only [Option.bind_eq_bind, Option.bind_some, nodeCell_child_other, hunc'.redAt hgn.2, hunc,
      reduceCtorEq, decide_false, Bool.false_eq_true, if_false, hp', hx, if_true, nodeCell_child]
    rw [RbMem.modify_load hp', Option.bind_some, nodeCell_setChild_other, RbMem.modify_load hx₁,
      Option.bind_some, nodeCell_setChild, setParentColorIf_run hnear₂, Option.bind_some,
      rb_set_parent_color, RbMem.modify_load hp₃, Option.bind_some]
    simp only [nodeCell_mk]
    rw [hx₄, Option.bind_some]
    simp only [nodeCell_child_other]
    rw [RbMem.modify_load hg₄, Option.bind_some, nodeCell_setChild, RbMem.modify_load hx₅,
      Option.bind_some, nodeCell_setChild_other, setParentColorIf_run hfar₆, Option.bind_some, hrot]
    rfl
  refine ⟨m', hrun, .of_perm h perm_crossed htree' ?_ ?_⟩
  · rw [treeAddr_nodeOn]
    exact hframes'
  · intro b hb
    rw [hperm.mem_iff] at hb
    simp only [List.mem_append, List.mem_cons, not_or] at hb
    obtain ⟨hbx, hbp, hbg, hbnear, hbfar, -, -, hbfs⟩ := hb
    rw [hframe b hbx hbg hbfs, RbMem.reparent_nodes hbfar, RbMem.set_of_ne hbx,
      RbMem.set_of_ne hbg, RbMem.set_of_ne hbp, RbMem.reparent_nodes hbnear, RbMem.set_of_ne hbx,
      RbMem.set_of_ne hbp]

end Sides

/-! ## The loop of `__rb_insert` -/

section Loop

variable {m : RbMem} {t u : RbTree} {fs : RbFrames} {f g : Frame (BitVec 64)} {fuel : Nat}

/-- Below a black node the loop ends at once. -/
theorem rbInsertPass_black (h : Held m t (f :: fs)) (hf : f.colour = .black) :
    rbInsertPass (m, treeAddr t, f.elem) = some (.done m) := by
  have hload := h.frames.load
  rw [rbInsertPass, if_neg h.frames.1.1, hload]
  simp only [Option.bind_eq_bind, Option.bind_some, nodeCell_isBlack h.frames.2.2.2.aligned, hf,
    decide_true, if_true]

/-- Below a red node the side that the code takes is that of the parent. -/
theorem rbInsertPass_red (h : Held m t (f :: g :: fs)) (hf : f.colour = .red) :
    rbInsertPass (m, treeAddr t, f.elem) = rbInsertSide g.side m (treeAddr t) f.elem g.elem := by
  obtain ⟨s', c', p, sib⟩ := f
  obtain ⟨s, c, q, unc⟩ := g
  cases hf
  have hp := h.frames.load
  have hg := h.frames.2.2.2.load
  have hnd := h.distinct
  have hpn : IsNode p := h.frames.1
  have hgn : IsNode q := h.frames.2.2.2.1
  simp only [heldElems, frameElems, List.nodup_append', List.nodup_cons, List.mem_append,
    List.mem_cons, not_or] at hnd
  -- The code compares the parent with the right child of `q`, which may be the uncle.
  have hpunc : p ≠ treeAddr unc := by
    by_cases hnil : unc = .nil
    · rw [hnil, treeAddr_nil]
      exact hpn.1
    · exact fun heq => hnd.2.1.1.2.2.1 (heq ▸ treeAddr_mem hnil)
  rw [rbInsertPass, if_neg hpn.1, hp]
  simp only [Option.bind_eq_bind, Option.bind_some, nodeCell_isBlack h.frames.2.2.2.1.2,
    parentAddr_cons, reduceCtorEq, decide_false, Bool.false_eq_true, if_false]
  -- Red is 0: the whole word is the address of the parent.
  have hred : rb_red_parent (nodeCell s' q .red (treeAddr t) (treeAddr sib)) = q := BitVec.or_zero
  rw [hred, hg, Option.bind_some]
  cases s with
  | left => exact if_pos hpunc
  | right => exact if_neg (not_not_intro rfl)

/-- **`__rb_insert` computes the repair**, and writes to nothing but the nodes of the tree. -/
theorem rb_insert_loop (h : Held m t fs) (hne : t ≠ .nil) (hfix : insertFix t fs = some u)
    (hfuel : fs.length < fuel) :
    ∃ m', loop rbInsertPass fuel (m, treeAddr t, parentAddr fs) = some m' ∧
      Rearranged m t fs m' u [] := by
  induction t, fs using insertFix.induct generalizing m fuel with
  | case1 t =>
      obtain ⟨fuel, rfl⟩ : ∃ k, fuel = k + 1 := ⟨fuel - 1, by omega⟩
      -- At the root: it is painted black.
      cases hfix
      have hrun : rbInsertPass (m, treeAddr t, 0#64) = some (.done (m.reparent t 0#64 .black)) := by
        rw [rbInsertPass, if_pos rfl, RB_BLACK_eq, rb_set_parent_color_run h.tree hne]
        rfl
      have hnd : t.toList.Nodup := (List.nodup_append'.mp h.distinct).1
      refine ⟨_, loop_done hrun, .of_perm h ?_ (RbMem.shaped_reparent_self h.tree hnd) ?_ ?_⟩
      · rw [heldElems, toList_paint]
        exact List.Perm.refl _
      · rw [treeAddr_paint]
        exact RbMem.reparent_root.trans h.frames
      · intro b hb
        rw [heldElems, List.mem_append, not_or] at hb
        exact RbMem.reparent_nodes hb.1
  | case2 t f fs hf =>
      obtain ⟨fuel, rfl⟩ : ∃ k, fuel = k + 1 := ⟨fuel - 1, by omega⟩
      -- A black parent: nothing is left to do.
      rw [insertFix_black hf] at hfix
      cases hfix
      exact ⟨m, loop_done (rbInsertPass_black h hf), (Rearranged.refl h).plug⟩
  | case3 t f hf =>
      -- A red root does not occur.
      rw [insertFix.eq_def] at hfix
      simp only [hf, reduceCtorEq] at hfix
  | case4 t f g fs hf hg ih =>
      obtain ⟨fuel, rfl⟩ : ∃ k, fuel = k + 1 := ⟨fuel - 1, by omega⟩
      -- Case 1: the loop goes on with the grandparent, two frames further up.
      rw [insertFix_uncle hf hg] at hfix
      have hpass := rbInsertPass_red h hf
      obtain ⟨s', c', p, sib⟩ := f
      obtain ⟨s, c, q, unc⟩ := g
      cases hf
      obtain ⟨m₁, hrun, hre⟩ := rbInsertSide_uncle (s := s) h hg
      have hshort : fs.length < fuel := by
        simp only [List.length_cons] at hfuel
        omega
      obtain ⟨m', hloop, hre'⟩ := ih hre.held (BinTree.nodeOn_ne_nil _ _ _ _ _) hfix hshort
      rw [treeAddr_nodeOn] at hloop
      refine ⟨m', ?_, hre.trans hre'⟩
      rw [parentAddr_cons, loop_again (hpass.trans hrun), hloop]
  | case5 t f g fs hf hg hs =>
      obtain ⟨fuel, rfl⟩ : ∃ k, fuel = k + 1 := ⟨fuel - 1, by omega⟩
      have hg : g.sibling.colour = .black := Colour.eq_black_of_ne_red hg
      -- Case 3 alone.
      rw [insertFix_aligned hf hg hs] at hfix
      cases hfix
      have hpass := rbInsertPass_red h hf
      obtain ⟨s', c', p, sib⟩ := f
      obtain ⟨s, c, q, unc⟩ := g
      cases hf
      cases hs
      obtain ⟨m₁, hrun, hre⟩ := rbInsertSide_aligned h hg hne
      exact ⟨m₁, loop_done (hpass.trans hrun), hre.plug⟩
  | case6 f g fs hf hg hs => exact absurd rfl hne
  | case7 f g fs hf hg hs cx l x r =>
      obtain ⟨fuel, rfl⟩ : ∃ k, fuel = k + 1 := ⟨fuel - 1, by omega⟩
      have hg : g.sibling.colour = .black := Colour.eq_black_of_ne_red hg
      -- Case 2 and then case 3: the node itself is rotated to the top.
      obtain ⟨_, near, y, far, heq⟩ := BinTree.exists_nodeOn (t := .node cx l x r) g.side hne
      rw [heq] at h hfix ⊢
      rw [insertFix_crossed hf hg hs] at hfix
      cases hfix
      have hpass := rbInsertPass_red h hf
      obtain ⟨s', c', p, sib⟩ := f
      obtain ⟨s, c, q, unc⟩ := g
      cases hf
      obtain rfl : s' = s.other := Side.eq_other_of_ne hs
      obtain ⟨m₁, hrun, hre⟩ := rbInsertSide_crossed h hg
      rw [treeAddr_nodeOn] at hpass ⊢
      exact ⟨m₁, loop_done (hpass.trans hrun), hre.plug⟩

end Loop

end Stdlib
end EmbeddedOS
