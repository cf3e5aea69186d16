import EmbeddedOS.Stdlib.RbtreeShape

/-!
# `____rb_erase_color`

Every pass of the loop leaves the arrangement of nodes that the repair on trees describes, so the
loop computes the repair.
-/

namespace EmbeddedOS
namespace Stdlib

set_option linter.style.nameCheck false

open Base
open Base.RedBlack
open Base.RedBlack.BinTree (nodeOn toList_paint)

/-! ## The four cases -/

section Rotate

variable {m : RbMem} {t near far : RbTree} {fs : RbFrames} {s : Side} {cp cx : Colour}
  {p x q q' : BitVec 64}

/-- Case 4: the sibling `x` takes the place of the parent `p`. -/
theorem rbEraseRotate_run
    (hp : m.load p = some (nodeCell s (parentAddr fs) cp (treeAddr t) x))
    (hx : m.load x = some (nodeCell s q cx (treeAddr near) (treeAddr far))) (hpn : IsNode p)
    (hxn : IsNode x) (ht : Shaped m t p) (hnear : Shaped m near x) (hfar : Shaped m far q')
    (hne : far ≠ .nil) (hfs : Framed m fs p)
    (hnd : (heldElems (nodeOn s cp (nodeOn s .black t p near) x (far.paint .black)) fs).Nodup) :
    ∃ m', rbEraseRotate s m p x (treeAddr far) = some m' ∧
      Shaped m' (nodeOn s cp (nodeOn s .black t p near) x (far.paint .black)) (parentAddr fs) ∧
      Framed m' fs x ∧
      ∀ b ∉ heldElems (nodeOn s cp (nodeOn s .black t p near) x (far.paint .black)) fs,
        m'.nodes b = m.nodes b := by
  have hnd' := hnd
  have hperm : (heldElems (nodeOn s cp (nodeOn s .black t p near) x (far.paint .black)) fs).Perm
      (x :: p :: (t.toList ++ (near.toList ++ (far.toList ++ frameElems fs)))) := by
    rw [List.perm_iff_count]
    intro b
    simp only [heldElems, List.count_append, List.count_cons, toList_nodeOn_perm.count_eq,
      toList_paint]
    omega
  rw [hperm.nodup_iff] at hnd
  simp only [List.nodup_append', List.nodup_cons, List.mem_append, List.mem_cons, not_or,
    List.disjoint_append_right] at hnd
  obtain ⟨⟨hxp, hxt, hxnear, hxfar, hxfs⟩, ⟨hpt, hpnear, hpfar, hpfs⟩, -, ⟨hndnear, ⟨hndfar, -, hdff⟩,
    hdnf, hdnfs⟩, hdtn, hdtf, -⟩ := hnd
  have hpx := Ne.symm hxp
  -- One memory for each write in front of the final rotation.
  let m₁ := m.set p (nodeCell s (parentAddr fs) cp (treeAddr t) (treeAddr near))
  let m₂ := m₁.set x (nodeCell s q cx p (treeAddr far))
  let m₃ := m₂.reparent far x .black
  let m₄ := m₃.reparent near p near.colour
  have hx₁ : m₁.load x = some (nodeCell s q cx (treeAddr near) (treeAddr far)) :=
    (RbMem.load_set hxp).trans hx
  have hfar₂ : Shaped m₂ far q' := (shaped_set hxfar).mpr ((shaped_set hpfar).mpr hfar)
  have hnear₃ : Shaped m₃ near x := (RbMem.shaped_reparent hdnf).mpr
    ((shaped_set hxnear).mpr ((shaped_set hpnear).mpr hnear))
  have hp₄ : m₄.load p = some (nodeCell s.other (parentAddr fs) cp (treeAddr near) (treeAddr t)) := by
    rw [nodeCell_other, RbMem.load_reparent hpnear, RbMem.load_reparent hpfar, RbMem.load_set hpx,
      RbMem.load_set_self hpn.1]
  have hx₄ : m₄.load x = some (nodeCell s.other q cx (treeAddr (far.paint .black)) p) := by
    rw [nodeCell_other, RbMem.load_reparent hxnear, RbMem.load_reparent hxfar,
      RbMem.load_set_self hxn.1, treeAddr_paint]
  have hfar₄ : Shaped m₄ (far.paint .black) x := by
    refine (RbMem.shaped_reparent ?_).mpr (RbMem.shaped_reparent_self hfar₂ hndfar)
    rw [toList_paint]
    exact List.disjoint_symm hdnf
  have hnear₄ : Shaped m₄ near p := by
    have := RbMem.shaped_reparent_self (p := p) (c := near.colour) hnear₃ hndnear
    rwa [BinTree.paint_colour] at this
  have ht₄ : Shaped m₄ t p := (RbMem.shaped_reparent hdtn).mpr ((RbMem.shaped_reparent hdtf).mpr
    ((shaped_set hxt).mpr ((shaped_set hpt).mpr ht)))
  have hfs₄ : Framed m₄ fs p := (RbMem.framed_reparent (List.disjoint_symm hdnfs)).mpr
    ((RbMem.framed_reparent (List.disjoint_symm hdff)).mpr
      ((framed_set hxfs).mpr ((framed_set hpfs).mpr hfs)))
  -- The lemma about the rotation has the two nodes the other way round.
  rw [← BinTree.nodeOn_other s cp, ← BinTree.nodeOn_other s .black] at hnd' ⊢
  obtain ⟨m', hrot, htree', hframes', hframe⟩ := rb_rotate_set_parents_run (c := .black) hp₄ hx₄ hpn
    hxn hfar₄ hnear₄ ht₄ hfs₄ hnd'
  refine ⟨m', ?_, htree', hframes', ?_⟩
  · rw [rbEraseRotate, hx, RB_BLACK_eq]
    simp only [Option.bind_eq_bind, Option.bind_some, nodeCell_child]
    rw [RbMem.modify_load hp, Option.bind_some, nodeCell_setChild_other, RbMem.modify_load hx₁,
      Option.bind_some, nodeCell_setChild, rb_set_parent_color_run hfar₂ hne, Option.bind_some,
      setParentIf_run hnear₃ hxn.2, Option.bind_some, hrot]
  · intro b hb
    rw [BinTree.nodeOn_other s .black, BinTree.nodeOn_other s cp, hperm.mem_iff] at hb
    simp only [List.mem_append, List.mem_cons, not_or] at hb
    obtain ⟨hbx, hbp, -, hbnear, hbfar, hbfs⟩ := hb
    rw [hframe b hbx hbp hbfs, RbMem.reparent_nodes hbnear, RbMem.reparent_nodes hbfar,
      RbMem.set_of_ne hbx, RbMem.set_of_ne hbp]

end Rotate

section Sides

variable {m : RbMem} {t near far near' far' : RbTree} {fs : RbFrames} {s : Side} {cp cb cy : Colour}
  {p b y : BitVec 64}

theorem perm_far : (heldElems (nodeOn s cp (nodeOn s .black t p near) b (far.paint .black)) fs).Perm
    (heldElems t (⟨s, cp, p, nodeOn s cb near b far⟩ :: fs)) := by
  rw [List.perm_iff_count]
  intro b
  simp only [heldElems, frameElems, List.count_append, List.count_cons,
    toList_nodeOn_perm.count_eq, toList_paint]
  omega

/-- Case 4 -/
theorem rbEraseBlack_far (h : Held m t (⟨s, cp, p, nodeOn s cb near b far⟩ :: fs))
    (hfar : far.colour = .red) :
    ∃ m', rbEraseBlack s m p b = some (.done m') ∧
      Rearranged m t (⟨s, cp, p, nodeOn s cb near b far⟩ :: fs) m'
        (nodeOn s cp (nodeOn s .black t p near) b (far.paint .black)) fs := by
  obtain ⟨htree, hframes, hnd⟩ := id h
  have hp := hframes.load
  rw [framed_cons] at hframes
  obtain ⟨hpn, -, hsib, hrest⟩ := hframes
  have hb := hsib.load
  obtain ⟨hbn, -, hnear, hfar'⟩ := shaped_nodeOn.mp hsib
  -- An empty tree is black.
  have hne : far ≠ .nil := by
    rintro rfl
    cases hfar
  have hp' : m.load p = some (nodeCell s (parentAddr fs) cp (treeAddr t) b) := by
    rw [hp, treeAddr_nodeOn]
  obtain ⟨m', hrot, htree', hframes', hframe⟩ := rbEraseRotate_run hp' hb hpn hbn htree hnear hfar'
    hne hrest (perm_far.nodup_iff.mpr hnd)
  refine ⟨m', ?_, .of_perm h perm_far htree' ?_ ?_⟩
  · rw [rbEraseBlack, hb]
    simp only [Option.bind_eq_bind, Option.bind_some, nodeCell_child_other, hfar'.redAt hbn.2, hfar,
      decide_true, if_true]
    rw [hrot]
    rfl
  · rw [treeAddr_nodeOn]
    exact hframes'
  · intro a ha
    exact hframe a fun hmem => ha (perm_far.mem_iff.mp hmem)

theorem perm_near :
    (heldElems (nodeOn s cp (nodeOn s .black t p near') y
      ((nodeOn s cb (far'.paint .black) b far).paint .black)) fs).Perm
    (heldElems t (⟨s, cp, p, nodeOn s cb (nodeOn s cy near' y far') b far⟩ :: fs)) := by
  rw [List.perm_iff_count]
  intro b
  simp only [heldElems, frameElems, List.count_append, List.count_cons,
    toList_nodeOn_perm.count_eq, toList_paint]
  omega

/-- Case 3, and then case 4 -/
theorem rbEraseBlack_near
    (h : Held m t (⟨s, cp, p, nodeOn s cb (nodeOn s .red near' y far') b far⟩ :: fs))
    (hfar : far.colour = .black) :
    ∃ m', rbEraseBlack s m p b = some (.done m') ∧
      Rearranged m t (⟨s, cp, p, nodeOn s cb (nodeOn s .red near' y far') b far⟩ :: fs) m'
        (nodeOn s cp (nodeOn s .black t p near') y (nodeOn s .black (far'.paint .black) b far))
        fs := by
  obtain ⟨htree, hframes, hnd⟩ := id h
  have hp := hframes.load
  rw [framed_cons] at hframes
  obtain ⟨hpn, -, hsib, hrest⟩ := hframes
  have hb := hsib.load
  obtain ⟨hbn, -, hnear, hfar₀⟩ := shaped_nodeOn.mp hsib
  have hy := hnear.load
  obtain ⟨hyn, -, hnear', hfar'⟩ := shaped_nodeOn.mp hnear
  have hp : m.load p = some (nodeCell s (parentAddr fs) cp (treeAddr t) b) := by
    rw [hp, treeAddr_nodeOn]
  rw [treeAddr_nodeOn] at hb
  have hperm₁ : (heldElems (nodeOn s cp (nodeOn s .black t p near') y
        ((nodeOn s cb (far'.paint .black) b far).paint .black)) fs).Perm
      (heldElems t (⟨s, cp, p, nodeOn s cb (nodeOn s .red near' y far') b far⟩ :: fs)) := perm_near
  have hnd' := hperm₁.nodup_iff.mpr hnd
  have hperm : (heldElems t (⟨s, cp, p, nodeOn s cb (nodeOn s .red near' y far') b far⟩ :: fs)).Perm
      (p :: b :: y ::
        (t.toList ++ (near'.toList ++ (far'.toList ++ (far.toList ++ frameElems fs))))) := by
    rw [List.perm_iff_count]
    intro b
    simp only [heldElems, frameElems, List.count_append, List.count_cons,
      toList_nodeOn_perm.count_eq]
    omega
  rw [hperm.nodup_iff] at hnd
  simp only [List.nodup_append', List.nodup_cons, List.mem_append, List.mem_cons, not_or,
    List.disjoint_append_right] at hnd
  obtain ⟨⟨hpb, hpy, hpt, hpnear, hpfar', hpfar, hpfs⟩, ⟨hby, hbt, hbnear, hbfar', hbfar, hbfs⟩,
    ⟨hyt, hynear, hyfar', hyfar, hyfs⟩, -, ⟨-, ⟨hndfar', -, hdff, hdffs⟩, hdnf, -, -⟩, -, hdtf, -, -⟩ :=
    hnd
  have hbp := Ne.symm hpb
  have hyp := Ne.symm hpy
  have hyb := Ne.symm hby
  -- The near nephew becomes the sibling. What follows is case 4 with the old sibling as far nephew.
  let m₁ := m.set b (nodeCell s p cb (treeAddr far') (treeAddr far))
  let m₂ := m₁.set y (nodeCell s b .red (treeAddr near') b)
  let m₃ := m₂.set p (nodeCell s (parentAddr fs) cp (treeAddr t) y)
  let m₄ := m₃.reparent far' b .black
  have hy₁ : m₁.load y = some (nodeCell s b .red (treeAddr near') (treeAddr far')) :=
    (RbMem.load_set hyb).trans hy
  have hp₂ : m₂.load p = some (nodeCell s (parentAddr fs) cp (treeAddr t) b) := by
    rw [RbMem.load_set hpy, RbMem.load_set hpb, hp]
  have hfar'₃ : Shaped m₃ far' y := (shaped_set hpfar').mpr
    ((shaped_set hyfar').mpr ((shaped_set hbfar').mpr hfar'))
  have hp₄ : m₄.load p = some (nodeCell s (parentAddr fs) cp (treeAddr t) y) := by
    rw [RbMem.load_reparent hpfar', RbMem.load_set_self hpn.1]
  have hy₄ : m₄.load y = some (nodeCell s b .red (treeAddr near') b) := by
    rw [RbMem.load_reparent hyfar', RbMem.load_set hyp, RbMem.load_set_self hyn.1]
  have ht₄ : Shaped m₄ t p := (RbMem.shaped_reparent hdtf).mpr
    ((shaped_set hpt).mpr ((shaped_set hyt).mpr ((shaped_set hbt).mpr htree)))
  have hnear₄ : Shaped m₄ near' y := (RbMem.shaped_reparent hdnf).mpr
    ((shaped_set hpnear).mpr ((shaped_set hynear).mpr ((shaped_set hbnear).mpr hnear')))
  have hsib₄ : Shaped m₄ (nodeOn s cb (far'.paint .black) b far) p := by
    refine shaped_nodeOn.mpr ⟨hbn, ?_, RbMem.shaped_reparent_self hfar'₃ hndfar', ?_⟩
    · rw [RbMem.reparent_nodes hbfar', RbMem.set_of_ne hbp, RbMem.set_of_ne hby, RbMem.set_self,
        treeAddr_paint]
    · exact (RbMem.shaped_reparent (List.disjoint_symm hdff)).mpr
        ((shaped_set hpfar).mpr ((shaped_set hyfar).mpr ((shaped_set hbfar).mpr hfar₀)))
  have hfs₄ : Framed m₄ fs p := (RbMem.framed_reparent (List.disjoint_symm hdffs)).mpr
    ((framed_set hpfs).mpr ((framed_set hyfs).mpr ((framed_set hbfs).mpr hrest)))
  have hbaddr : treeAddr (nodeOn s cb (far'.paint .black) b far) = b := treeAddr_nodeOn
  rw [← hbaddr] at hy₄
  obtain ⟨m', hrot, htree', hframes', hframe⟩ := rbEraseRotate_run hp₄ hy₄ hpn hyn ht₄ hnear₄ hsib₄
    (BinTree.nodeOn_ne_nil _ _ _ _ _) hfs₄ hnd'
  rw [hbaddr] at hrot
  rw [BinTree.paint_nodeOn] at htree' hframe hperm₁
  refine ⟨m', ?_, .of_perm h hperm₁ htree' ?_ ?_⟩
  · have hred := hnear.redAt hbn.2
    rw [treeAddr_nodeOn] at hred
    rw [rbEraseBlack, hb, RB_BLACK_eq]
    simp only [Option.bind_eq_bind, Option.bind_some, nodeCell_child_other, nodeCell_child,
      hfar₀.redAt hbn.2, hfar, hred, hy, BinTree.colour_nodeOn, reduceCtorEq, decide_false,
      decide_true, Bool.false_eq_true, if_false, if_true]
    rw [RbMem.modify_load hb, Option.bind_some, nodeCell_setChild, RbMem.modify_load hy₁,
      Option.bind_some, nodeCell_setChild_other, RbMem.modify_load hp₂, Option.bind_some,
      nodeCell_setChild_other, setParentColorIf_run hfar'₃, Option.bind_some, hrot]
    rfl
  · rw [treeAddr_nodeOn]
    exact hframes'
  · intro a ha
    have ha' := ha
    rw [hperm.mem_iff] at ha
    simp only [List.mem_append, List.mem_cons, not_or] at ha
    obtain ⟨hap, hab, hay, -, -, hafar', -, -⟩ := ha
    rw [hframe a fun hmem => ha' (hperm₁.mem_iff.mp hmem), RbMem.reparent_nodes hafar',
      RbMem.set_of_ne hap, RbMem.set_of_ne hay, RbMem.set_of_ne hab]

theorem perm_flip : (heldElems (nodeOn s .black t p (nodeOn s .red near b far)) fs).Perm
    (heldElems t (⟨s, cp, p, nodeOn s cb near b far⟩ :: fs)) := by
  rw [List.perm_iff_count]
  intro b
  simp only [heldElems, frameElems, List.count_append, List.count_cons,
    toList_nodeOn_perm.count_eq]
  omega

/-- Case 2: the loop goes on above a black parent, unless that is the root. -/
theorem rbEraseBlack_flip (h : Held m t (⟨s, cp, p, nodeOn s cb near b far⟩ :: fs))
    (hfar : far.colour = .black) (hnear : near.colour = .black) :
    ∃ m', rbEraseBlack s m p b =
        some (if cp = .black ∧ fs ≠ [] then .again (m', p, parentAddr fs) else .done m') ∧
      Rearranged m t (⟨s, cp, p, nodeOn s cb near b far⟩ :: fs) m'
        (nodeOn s .black t p (nodeOn s .red near b far)) fs := by
  obtain ⟨htree, hframes, hnd⟩ := id h
  have hp := hframes.load
  rw [framed_cons] at hframes
  obtain ⟨hpn, -, hsib, hrest⟩ := hframes
  have hb := hsib.load
  obtain ⟨hbn, -, hnear₀, hfar₀⟩ := shaped_nodeOn.mp hsib
  have hp : m.load p = some (nodeCell s (parentAddr fs) cp (treeAddr t) b) := by
    rw [hp, treeAddr_nodeOn]
  have hperm : (heldElems t (⟨s, cp, p, nodeOn s cb near b far⟩ :: fs)).Perm
      (p :: b :: (t.toList ++ (near.toList ++ (far.toList ++ frameElems fs)))) := by
    rw [List.perm_iff_count]
    intro b
    simp only [heldElems, frameElems, List.count_append, List.count_cons,
      toList_nodeOn_perm.count_eq]
    omega
  rw [hperm.nodup_iff] at hnd
  simp only [List.nodup_cons, List.mem_append, List.mem_cons, not_or] at hnd
  obtain ⟨⟨hpb, hpt, hpnear, hpfar, hpfs⟩, ⟨hbt, hbnear, hbfar, hbfs⟩, -⟩ := hnd
  have hbp := Ne.symm hpb
  let m₁ := m.set b (nodeCell s p .red (treeAddr near) (treeAddr far))
  let m₂ := m₁.set p (nodeCell s (parentAddr fs) .black (treeAddr t) b)
  have hp₁ : m₁.load p = some (nodeCell s (parentAddr fs) cp (treeAddr t) b) :=
    (RbMem.load_set hpb).trans hp
  have hstart : rbEraseBlack s m p b =
      if cp = .red then (rb_set_black m₁ p).map .done
      else if parentAddr fs ≠ 0#64 then some (.again (m₁, p, parentAddr fs))
      else some (.done m₁) := by
    rw [rbEraseBlack, hb, RB_RED_eq]
    simp only [Option.bind_eq_bind, Option.bind_some, nodeCell_child_other, nodeCell_child,
      hfar₀.redAt hbn.2, hfar, hnear₀.redAt hbn.2, hnear, reduceCtorEq, decide_false,
      Bool.false_eq_true, if_false]
    rw [rb_set_parent_color, RbMem.modify_load hb, Option.bind_some]
    simp only [nodeCell_mk]
    rw [hp₁, Option.bind_some, nodeCell_isRed hrest.aligned, nodeCell_parent hrest.aligned]
    simp only [decide_eq_true_eq]
    rfl
  -- The tree of the parent, once its own node is known.
  have harrange : ∀ m', (∀ a, a ≠ p → m'.nodes a = m₁.nodes a) → m'.root = m.root →
      m'.nodes p = some (nodeCell s (parentAddr fs) .black (treeAddr t) b) →
        Rearranged m t (⟨s, cp, p, nodeOn s cb near b far⟩ :: fs) m'
          (nodeOn s .black t p (nodeOn s .red near b far)) fs := by
    intro m' hsame hroot hcell
    have hkeep : ∀ u q, p ∉ BinTree.toList u → b ∉ BinTree.toList u → Shaped m u q → Shaped m' u q := by
      intro u q hpu hbu hu
      refine hu.frame fun a ha => ?_
      rw [hsame a (ne_of_mem_of_not_mem ha hpu), RbMem.set_of_ne (ne_of_mem_of_not_mem ha hbu)]
    refine .of_perm h perm_flip ?_ ?_ ?_
    · refine shaped_nodeOn.mpr ⟨hpn, ?_, hkeep t p hpt hbt htree,
        shaped_nodeOn.mpr ⟨hbn, ?_, hkeep near b hpnear hbnear hnear₀,
          hkeep far b hpfar hbfar hfar₀⟩⟩
      · rw [hcell, treeAddr_nodeOn]
      · rw [hsame b hbp, RbMem.set_self]
    · rw [treeAddr_nodeOn]
      refine hrest.frame hroot fun a ha => ?_
      rw [hsame a (ne_of_mem_of_not_mem ha hpfs), RbMem.set_of_ne (ne_of_mem_of_not_mem ha hbfs)]
    · intro a ha
      rw [hperm.mem_iff] at ha
      simp only [List.mem_cons, not_or] at ha
      rw [hsame a ha.1, RbMem.set_of_ne ha.2.1]
  cases cp with
  | red =>
      refine ⟨m₂, ?_, harrange m₂ (fun a ha => RbMem.set_of_ne ha) rfl RbMem.set_self⟩
      rw [hstart, if_pos rfl, rb_set_black, RbMem.modify_load hp₁, if_neg (by rintro ⟨⟨⟩, -⟩)]
      simp only [nodeCell_pc, colourBit, RB_RED, BitVec.or_zero]
      rfl
  | black =>
      refine ⟨m₁, ?_, harrange m₁ (fun a _ => rfl) rfl ?_⟩
      · rw [hstart, if_neg (by rintro ⟨⟩)]
        by_cases hnil : fs = []
        · rw [if_neg (not_not_intro (hrest.parent_eq_zero.mpr hnil)),
            if_neg fun hboth => hboth.2 hnil]
        · rw [if_pos fun hzero => hnil (hrest.parent_eq_zero.mp hzero), if_pos ⟨rfl, hnil⟩]
      · have hload := hp₁
        rw [RbMem.load, if_neg hpn.1] at hload
        exact hload

/-- Cases 2 to 4 do to the nodes what is described on trees. -/
theorem rbEraseBlack_run (h : Held m t (⟨s, cp, p, nodeOn s cb near b far⟩ :: fs)) {v : RbTree}
    {short : Bool} (hat : eraseAt t ⟨s, cp, p, nodeOn s cb near b far⟩ = some (v, short)) :
    ∃ m', rbEraseBlack s m p b =
        some (if short = true ∧ fs ≠ [] then .again (m', treeAddr v, parentAddr fs) else .done m') ∧
      Rearranged m t (⟨s, cp, p, nodeOn s cb near b far⟩ :: fs) m' v fs := by
  -- As in the code, the far nephew is asked for first.
  cases hfar : far.colour with
  | red =>
      rw [eraseAt_far hfar] at hat
      cases hat
      obtain ⟨m', hrun, hre⟩ := rbEraseBlack_far h hfar
      exact ⟨m', by rw [hrun, if_neg (by rintro ⟨⟨⟩, -⟩)], hre⟩
  | black =>
      cases hnear : near.colour with
      | red =>
          obtain ⟨cy, near', y, far', rfl⟩ := BinTree.exists_nodeOn (t := near) s (by
            rintro rfl
            cases hnear)
          cases (BinTree.colour_nodeOn s cy near' y far').symm.trans hnear
          rw [eraseAt_near hfar] at hat
          cases hat
          obtain ⟨m', hrun, hre⟩ := rbEraseBlack_near h hfar
          exact ⟨m', by rw [hrun, if_neg (by rintro ⟨⟨⟩, -⟩)], hre⟩
      | black =>
          rw [eraseAt_flip hfar hnear] at hat
          cases hat
          obtain ⟨m', hrun, hre⟩ := rbEraseBlack_flip h hfar hnear
          exact ⟨m', by simpa only [decide_eq_true_eq, treeAddr_nodeOn] using hrun, hre⟩

theorem perm_red :
    (heldElems (nodeOn s cp (nodeOn s .red t p (near.paint .black)) b far) fs).Perm
    (heldElems t (⟨s, cp, p, nodeOn s cb near b far⟩ :: fs)) := by
  rw [List.perm_iff_count]
  intro b
  simp only [heldElems, frameElems, List.count_append, List.count_cons,
    toList_nodeOn_perm.count_eq, toList_paint]
  omega

/-- Case 1: the red sibling is rotated above the parent. -/
theorem rbEraseSide_red (h : Held m t (⟨s, cp, p, nodeOn s .red near b far⟩ :: fs))
    (hne : near ≠ .nil) :
    ∃ m', rbEraseSide s m p = rbEraseBlack s m' p (treeAddr near) ∧
      Rearranged m t (⟨s, cp, p, nodeOn s .red near b far⟩ :: fs) m' t
        (⟨s, .red, p, near.paint .black⟩ :: ⟨s, cp, b, far⟩ :: fs) := by
  obtain ⟨htree, hframes, hnd⟩ := id h
  have hp := hframes.load
  rw [framed_cons] at hframes
  obtain ⟨hpn, -, hsib, hrest⟩ := hframes
  have hb := hsib.load
  obtain ⟨hbn, -, hnear, hfar⟩ := shaped_nodeOn.mp hsib
  have hp : m.load p = some (nodeCell s (parentAddr fs) cp (treeAddr t) b) := by
    rw [hp, treeAddr_nodeOn]
  have hnd' := (perm_red).nodup_iff.mpr hnd
  have hperm : (heldElems t (⟨s, cp, p, nodeOn s .red near b far⟩ :: fs)).Perm
      (p :: b :: (t.toList ++ (near.toList ++ (far.toList ++ frameElems fs)))) := by
    rw [List.perm_iff_count]
    intro b
    simp only [heldElems, frameElems, List.count_append, List.count_cons,
      toList_nodeOn_perm.count_eq]
    omega
  rw [hperm.nodup_iff] at hnd
  simp only [List.nodup_append', List.nodup_cons, List.mem_append, List.mem_cons, not_or,
    List.disjoint_append_right] at hnd
  obtain ⟨⟨hpb, hpt, hpnear, hpfar, hpfs⟩, ⟨hbt, hbnear, hbfar, hbfs⟩, -, ⟨hndnear, -, hdnf, hdnfs⟩,
    hdtn, -, -⟩ := hnd
  have hbp := Ne.symm hpb
  -- One memory for each write in front of the rotation, as in case 4.
  let m₁ := m.set p (nodeCell s (parentAddr fs) cp (treeAddr t) (treeAddr near))
  let m₂ := m₁.set b (nodeCell s p .red p (treeAddr far))
  let m₃ := m₂.reparent near p .black
  have hb₁ : m₁.load b = some (nodeCell s p .red (treeAddr near) (treeAddr far)) :=
    (RbMem.load_set hbp).trans hb
  have hnear₂ : Shaped m₂ near b := (shaped_set hbnear).mpr ((shaped_set hpnear).mpr hnear)
  have hp₃ : m₃.load p =
      some (nodeCell s.other (parentAddr fs) cp (treeAddr (near.paint .black)) (treeAddr t)) := by
    rw [nodeCell_other, RbMem.load_reparent hpnear, RbMem.load_set hpb, RbMem.load_set_self hpn.1,
      treeAddr_paint]
  have hb₃ : m₃.load b = some (nodeCell s.other p .red (treeAddr far) p) := by
    rw [nodeCell_other, RbMem.load_reparent hbnear, RbMem.load_set_self hbn.1]
  have hfar₃ : Shaped m₃ far b := (RbMem.shaped_reparent (List.disjoint_symm hdnf)).mpr
    ((shaped_set hbfar).mpr ((shaped_set hpfar).mpr hfar))
  have ht₃ : Shaped m₃ t p := (RbMem.shaped_reparent hdtn).mpr
    ((shaped_set hbt).mpr ((shaped_set hpt).mpr htree))
  have hfs₃ : Framed m₃ fs p := (RbMem.framed_reparent (List.disjoint_symm hdnfs)).mpr
    ((framed_set hbfs).mpr ((framed_set hpfs).mpr hrest))
  rw [← BinTree.nodeOn_other s .red, ← BinTree.nodeOn_other s cp] at hnd'
  obtain ⟨m', hrot, htree', hframes', hframe⟩ := rb_rotate_set_parents_run (c := .red) hp₃ hb₃ hpn
    hbn hfar₃ (RbMem.shaped_reparent_self hnear₂ hndnear) ht₃ hfs₃ hnd'
  rw [BinTree.nodeOn_other, BinTree.nodeOn_other] at htree'
  have hre : Rearranged m t (⟨s, cp, p, nodeOn s .red near b far⟩ :: fs) m'
      (nodeOn s cp (nodeOn s .red t p (near.paint .black)) b far) fs := by
    refine .of_perm h perm_red htree' ?_ ?_
    · rw [treeAddr_nodeOn]
      exact hframes'
    · intro a ha
      rw [hperm.mem_iff] at ha
      simp only [List.mem_append, List.mem_cons, not_or] at ha
      obtain ⟨hap, hab, -, hanear, -, hafs⟩ := ha
      rw [hframe a hab hap hafs, RbMem.reparent_nodes hanear, RbMem.set_of_ne hab,
        RbMem.set_of_ne hap]
  -- The hole has gone down with `p`, whose sibling is now `near`.
  refine ⟨m', ?_, hre.unfill.unfill⟩
  rw [rbEraseSide, hp, RB_BLACK_eq, RB_RED_eq]
  simp only [Option.bind_eq_bind, Option.bind_some, nodeCell_child_other, nodeCell_child, hb,
    nodeCell_isRed hpn.2, decide_true, if_true]
  rw [RbMem.modify_load hp, Option.bind_some, nodeCell_setChild_other, RbMem.modify_load hb₁,
    Option.bind_some, nodeCell_setChild, rb_set_parent_color_run hnear₂ hne, Option.bind_some, hrot,
    Option.bind_some]

theorem rbEraseSide_black (h : Held m t (⟨s, cp, p, nodeOn s .black near b far⟩ :: fs)) :
    rbEraseSide s m p = rbEraseBlack s m p b := by
  have hp := h.frames.load
  have hb := h.frames.2.2.1.load
  rw [rbEraseSide, hp]
  simp only [Option.bind_eq_bind, Option.bind_some, nodeCell_child_other, treeAddr_nodeOn, hb,
    nodeCell_isRed h.frames.1.2, reduceCtorEq, decide_false, Bool.false_eq_true, if_false]

/-- The side that the code takes is that of the node. -/
theorem rbErasePass_eq {sib : RbTree} (h : Held m t (⟨s, cp, p, sib⟩ :: fs)) (hne : sib ≠ .nil) :
    rbErasePass (m, treeAddr t, p) = rbEraseSide s m p := by
  have hp := h.frames.load
  have hnd := h.distinct
  have hsib : Shaped m sib p := h.frames.2.2.1
  simp only [heldElems, frameElems, List.nodup_append', List.disjoint_cons_right,
    List.disjoint_append_right] at hnd
  have hd : treeAddr sib ≠ treeAddr t := hsib.addr_ne hne (List.disjoint_symm hnd.2.2.2.1)
  rw [rbErasePass, hp]
  cases s with
  | left => exact if_pos hd.symm
  | right => exact if_neg (not_not_intro rfl)

end Sides

/-! ## The loop -/

section Loop

variable {m : RbMem} {t u v : RbTree} {fs : RbFrames} {f : Frame (BitVec 64)} {fuel : Nat} {s : Side}
  {p : BitVec 64} {sib : RbTree} {short : Bool}

theorem eraseAt_ne_nil (h : eraseAt t ⟨s, .red, p, sib⟩ = some (v, short)) : sib ≠ .nil := by
  rintro rfl
  cases h

/-- Nothing is short below a red parent. -/
theorem eraseAt_red (h : eraseAt t ⟨s, .red, p, sib⟩ = some (v, short)) : short = false := by
  obtain ⟨c, near, x, far, rfl⟩ := BinTree.exists_nodeOn s (eraseAt_ne_nil h)
  cases hfar : far.colour with
  | red =>
      rw [eraseAt_far hfar] at h
      cases h
      rfl
  | black =>
      cases hnear : near.colour with
      | red =>
          obtain ⟨cy, near', y, far', rfl⟩ := BinTree.exists_nodeOn (t := near) s (by
            rintro rfl
            cases hnear)
          cases (BinTree.colour_nodeOn s cy near' y far').symm.trans hnear
          rw [eraseAt_near hfar] at h
          cases h
          rfl
      | black =>
          rw [eraseAt_flip hfar hnear] at h
          cases h
          rfl

/-- One pass: the repair is done, or goes on above with the same result. -/
theorem rbErasePass_run (h : Held m t (f :: fs)) (hfix : eraseFix t (f :: fs) = some u) :
    (∃ m', rbErasePass (m, treeAddr t, f.elem) = some (.done m') ∧
      Rearranged m t (f :: fs) m' u []) ∨
    ∃ m' v, fs ≠ [] ∧ rbErasePass (m, treeAddr t, f.elem) =
        some (.again (m', treeAddr v, parentAddr fs)) ∧
      Rearranged m t (f :: fs) m' v fs ∧ eraseFix v fs = some u := by
  obtain ⟨s, cp, p, sib⟩ := f
  have hne : sib ≠ .nil := by
    rintro rfl
    cases hfix
  obtain ⟨cb, near, b, far, rfl⟩ := BinTree.exists_nodeOn s hne
  rw [rbErasePass_eq h hne]
  cases cb with
  | red =>
      -- After case 1 the parent is red, and nothing is short any more behind this pass.
      rw [eraseFix_red, Option.map_eq_some_iff] at hfix
      obtain ⟨⟨v, short⟩, hat, rfl⟩ := hfix
      obtain rfl := eraseAt_red hat
      have hnear : near ≠ .nil := by
        rintro rfl
        exact eraseAt_ne_nil hat rfl
      obtain ⟨c, near', x, far', rfl⟩ := BinTree.exists_nodeOn s hnear
      obtain ⟨m₁, hrun₁, hre₁⟩ := rbEraseSide_red h hnear
      rw [BinTree.paint_nodeOn] at hat hre₁
      obtain ⟨m₂, hrun₂, hre₂⟩ := rbEraseBlack_run hre₁.held hat
      rw [if_neg (by rintro ⟨⟨⟩, -⟩)] at hrun₂
      refine .inl ⟨m₂, ?_, (hre₁.trans hre₂).plug⟩
      rw [hrun₁, treeAddr_nodeOn, hrun₂]
  | black =>
      -- Only the colour flip can hand the defect on to the parent.
      rw [eraseFix_black] at hfix
      rw [rbEraseSide_black h]
      cases hat : eraseAt t ⟨s, cp, p, nodeOn s .black near b far⟩ with
      | none =>
          rw [hat] at hfix
          cases hfix
      | some r =>
          obtain ⟨v, short⟩ := r
          rw [hat] at hfix
          obtain ⟨m₁, hrun, hre⟩ := rbEraseBlack_run h hat
          cases short with
          | false =>
              cases hfix
              rw [if_neg (by rintro ⟨⟨⟩, -⟩)] at hrun
              exact .inl ⟨m₁, hrun, hre.plug⟩
          | true =>
              by_cases hnil : fs = []
              · rw [if_neg fun hboth => hboth.2 hnil] at hrun
                subst hnil
                cases hfix
                exact .inl ⟨m₁, hrun, hre⟩
              · rw [if_pos ⟨rfl, hnil⟩] at hrun
                exact .inr ⟨m₁, v, hnil, hrun, hre, hfix⟩

/-- **`____rb_erase_color` computes the repair**, and writes to nothing but the nodes of the
tree. -/
theorem rb_erase_color_loop (h : Held m t (f :: fs)) (hfix : eraseFix t (f :: fs) = some u)
    (hfuel : fs.length < fuel) :
    ∃ m', loop rbErasePass fuel (m, treeAddr t, f.elem) = some m' ∧
      Rearranged m t (f :: fs) m' u [] := by
  -- The induction is on the frames: a pass that goes on moves up by one.
  induction fs generalizing m t f fuel with
  | nil =>
      obtain ⟨fuel, rfl⟩ : ∃ k, fuel = k + 1 := ⟨fuel - 1, by omega⟩
      rcases rbErasePass_run h hfix with ⟨m', hpass, hre⟩ | ⟨m', v, hnil, -⟩
      · exact ⟨m', loop_done hpass, hre⟩
      · exact absurd rfl hnil
  | cons g fs ih =>
      rw [List.length_cons] at hfuel
      obtain ⟨fuel, rfl⟩ : ∃ k, fuel = k + 1 := ⟨fuel - 1, by omega⟩
      rcases rbErasePass_run h hfix with ⟨m', hpass, hre⟩ | ⟨m₁, v, -, hpass, hre, hfix'⟩
      · exact ⟨m', loop_done hpass, hre⟩
      · obtain ⟨m', hloop, hre'⟩ := ih hre.held hfix' (Nat.lt_of_succ_lt_succ hfuel)
        exact ⟨m', (loop_again hpass).trans hloop, hre.trans hre'⟩

end Loop

end Stdlib
end EmbeddedOS
