import Mathlib.Algebra.Order.Ring.Nat
import Mathlib.Data.List.Nodup
import Mathlib.Data.Nat.Log

/-!
# Red-black trees with a hole

Binary trees with coloured nodes, and the same trees seen from one of their nodes: the subtree
there, and the frames from its parent up to the root. Insertion and deletion end with a repair
that climbs the frames; both are described here as functions of the subtree and its frames, and
give back a balanced tree with the same elements in the same order.
-/

namespace EmbeddedOS
namespace Base
namespace RedBlack

universe u

inductive Colour where
  | red
  | black
  deriving DecidableEq, Repr

/-- What a node of the colour adds to the black height. -/
def Colour.weight : Colour → Nat
  | .red => 0
  | .black => 1

theorem Colour.eq_black_of_ne_red {c : Colour} (h : c ≠ .red) : c = .black := by
  cases c with
  | red => exact absurd rfl h
  | black => rfl

/-- Which child of a node. -/
inductive Side where
  | left
  | right
  deriving DecidableEq, Repr

namespace Side

def other : Side → Side
  | .left => .right
  | .right => .left

/-- Of the two children `l` and `r` of a node, the one on side `s`. -/
def pick {β : Type u} (s : Side) (l r : β) : β :=
  match s with
  | .left => l
  | .right => r

@[simp] theorem other_other (s : Side) : s.other.other = s := by
  cases s <;> rfl

theorem eq_other_of_ne {s s' : Side} (h : s ≠ s') : s = s'.other := by
  cases s <;> cases s' <;> first | rfl | exact absurd rfl h

end Side

inductive BinTree (α : Type u) where
  | nil
  | node (colour : Colour) (left : BinTree α) (elem : α) (right : BinTree α)
  deriving DecidableEq, Repr

namespace BinTree

variable {α : Type u}

/-- The elements from left to right. -/
def toList : BinTree α → List α
  | .nil => []
  | .node _ l a r => l.toList ++ a :: r.toList

def size : BinTree α → Nat
  | .nil => 0
  | .node _ l _ r => l.size + r.size + 1

def height : BinTree α → Nat
  | .nil => 0
  | .node _ l _ r => max l.height r.height + 1

/-- The colour of the root. Nothing counts as black. -/
def colour : BinTree α → Colour
  | .nil => .black
  | .node c _ _ _ => c

/-- The tree with its root painted. -/
def paint (c : Colour) : BinTree α → BinTree α
  | .nil => .nil
  | .node _ l a r => .node c l a r

/-- A node whose child on side `s` is `near`. -/
def nodeOn (s : Side) (c : Colour) (near : BinTree α) (a : α) (far : BinTree α) : BinTree α :=
  match s with
  | .left => .node c near a far
  | .right => .node c far a near

@[simp] theorem toList_nil : (nil : BinTree α).toList = [] := rfl

@[simp] theorem toList_node (c : Colour) (l : BinTree α) (a : α) (r : BinTree α) :
    (node c l a r).toList = l.toList ++ a :: r.toList := rfl

@[simp] theorem paint_nil (c : Colour) : (nil : BinTree α).paint c = nil := rfl

@[simp] theorem paint_node (c c' : Colour) (l : BinTree α) (a : α) (r : BinTree α) :
    (node c' l a r).paint c = node c l a r := rfl

@[simp] theorem paint_colour (t : BinTree α) : t.paint t.colour = t := by
  cases t <;> rfl

@[simp] theorem toList_paint (c : Colour) (t : BinTree α) : (t.paint c).toList = t.toList := by
  cases t <;> rfl

@[simp] theorem paint_nodeOn (s : Side) (c c' : Colour) (near : BinTree α) (a : α) (far : BinTree α) :
    (nodeOn s c' near a far).paint c = nodeOn s c near a far := by
  cases s <;> rfl

@[simp] theorem colour_nodeOn (s : Side) (c : Colour) (near : BinTree α) (a : α) (far : BinTree α) :
    (nodeOn s c near a far).colour = c := by
  cases s <;> rfl

theorem nodeOn_ne_nil (s : Side) (c : Colour) (near : BinTree α) (a : α) (far : BinTree α) :
    nodeOn s c near a far ≠ nil := by
  cases s <;> rintro ⟨⟩

theorem nodeOn_other (s : Side) (c : Colour) (near : BinTree α) (a : α) (far : BinTree α) :
    nodeOn s.other c near a far = nodeOn s c far a near := by
  cases s <;> rfl

theorem node_eq_nodeOn (s : Side) (c : Colour) (l : BinTree α) (a : α) (r : BinTree α) :
    node c l a r = nodeOn s c (s.pick l r) a (s.pick r l) := by
  cases s <;> rfl

/-- Every tree with a node can be read from either side. -/
theorem exists_nodeOn (s : Side) {t : BinTree α} (h : t ≠ nil) :
    ∃ c near a far, t = nodeOn s c near a far := by
  cases t with
  | nil => exact absurd rfl h
  | node c l a r =>
      cases s with
      | left => exact ⟨c, l, a, r, rfl⟩
      | right => exact ⟨c, r, a, l, rfl⟩

theorem length_toList (t : BinTree α) : t.toList.length = t.size := by
  induction t with
  | nil => rfl
  | node c l a r ihl ihr =>
      simp only [toList_node, List.length_append, List.length_cons, ihl, ihr, size]
      omega

/-! ## Balance -/

/-- No red node has a red child, and `n` black nodes lie on every way down. -/
inductive BlackBalanced : BinTree α → Colour → Nat → Prop
  | nil : BlackBalanced nil .black 0
  | red {l r : BinTree α} {a : α} {n : Nat} :
      BlackBalanced l .black n → BlackBalanced r .black n → BlackBalanced (node .red l a r) .red n
  | black {l r : BinTree α} {a : α} {c c' : Colour} {n : Nat} :
      BlackBalanced l c n → BlackBalanced r c' n → BlackBalanced (node .black l a r) .black (n + 1)

namespace BlackBalanced

variable {t near far : BinTree α} {c c' : Colour} {n : Nat} {s : Side} {a : α}

theorem colour_eq (h : BlackBalanced t c n) : t.colour = c := by
  cases h <;> rfl

theorem redOn (s : Side) (hnear : BlackBalanced near .black n) (hfar : BlackBalanced far .black n) :
    BlackBalanced (nodeOn s .red near a far) .red n := by
  cases s with
  | left => exact .red hnear hfar
  | right => exact .red hfar hnear

theorem blackOn (s : Side) (hnear : BlackBalanced near c n) (hfar : BlackBalanced far c' n) :
    BlackBalanced (nodeOn s .black near a far) .black (n + 1) := by
  cases s with
  | left => exact .black hnear hfar
  | right => exact .black hfar hnear

theorem colouredOn (s : Side) (c : Colour) (hnear : BlackBalanced near .black n)
    (hfar : BlackBalanced far .black n) : BlackBalanced (nodeOn s c near a far) c (n + c.weight) := by
  cases c with
  | red => exact redOn s hnear hfar
  | black => exact blackOn s hnear hfar

theorem of_redOn (h : BlackBalanced (nodeOn s .red near a far) c n) :
    c = .red ∧ BlackBalanced near .black n ∧ BlackBalanced far .black n := by
  cases s <;> cases h with
  | red hl hr => first | exact ⟨rfl, hl, hr⟩ | exact ⟨rfl, hr, hl⟩

theorem of_blackOn (h : BlackBalanced (nodeOn s .black near a far) c n) :
    ∃ m cn cf, c = .black ∧ n = m + 1 ∧ BlackBalanced near cn m ∧ BlackBalanced far cf m := by
  cases s <;> cases h with
  | black hl hr => first | exact ⟨_, _, _, rfl, rfl, hl, hr⟩ | exact ⟨_, _, _, rfl, rfl, hr, hl⟩

/-- A red root painted black adds one black node to every way down. -/
theorem paint_black_of_red (h : BlackBalanced t .red n) :
    BlackBalanced (t.paint .black) .black (n + 1) := by
  cases h with
  | red hl hr => exact .black hl hr

theorem paint_black_of_black (h : BlackBalanced t .black n) : t.paint .black = t := by
  cases h <;> rfl

theorem ne_nil_of_succ (h : BlackBalanced t c (n + 1)) : t ≠ .nil := by
  rintro rfl
  cases h

/-- Below black height `n` hang at least `2 ^ n - 1` nodes. -/
theorem pow_le_size (h : BlackBalanced t c n) : 2 ^ n ≤ t.size + 1 := by
  induction h with
  | nil => exact Nat.le_refl 1
  | red _ _ ihl ihr =>
      simp only [size]
      omega
  | black _ _ ihl ihr =>
      simp only [size, Nat.pow_succ]
      omega

theorem height_le (h : BlackBalanced t c n) :
    t.height ≤ 2 * n + 1 ∧ (c = .black → t.height ≤ 2 * n) := by
  induction h with
  | nil => exact ⟨Nat.zero_le _, fun _ => Nat.zero_le _⟩
  | red _ _ ihl ihr =>
      have hl := ihl.2 rfl
      have hr := ihr.2 rfl
      simp only [height]
      exact ⟨by omega, by rintro ⟨⟩⟩
  | black _ _ ihl ihr =>
      have hl := ihl.1
      have hr := ihr.1
      simp only [height]
      exact ⟨by omega, fun _ => by omega⟩

/-- **The height is logarithmic** in the number of nodes. -/
theorem height_le_log (h : BlackBalanced t .black n) : t.height ≤ 2 * Nat.log 2 (t.size + 1) := by
  have hpow : n ≤ Nat.log 2 (t.size + 1) :=
    Nat.le_log_of_pow_le (by omega) h.pow_le_size
  have hheight := h.height_le.2 rfl
  omega

end BlackBalanced

end BinTree

open BinTree

/-! ## Frames -/

/-- A node on the way from a hole to the root: which of its children the way goes through, and its
other child. -/
structure Frame (α : Type u) where
  side : Side
  colour : Colour
  elem : α
  sibling : BinTree α
  deriving DecidableEq, Repr

variable {α : Type u}

/-- The frame with a tree in its hole. -/
def Frame.fill (f : Frame α) (t : BinTree α) : BinTree α :=
  nodeOn f.side f.colour t f.elem f.sibling

/-- The tree whose hole, below the frames, holds `t`. -/
def plug (t : BinTree α) : List (Frame α) → BinTree α
  | [] => t
  | f :: fs => plug (f.fill t) fs

@[simp] theorem plug_nil (t : BinTree α) : plug t [] = t := rfl

@[simp] theorem plug_cons (t : BinTree α) (f : Frame α) (fs : List (Frame α)) :
    plug t (f :: fs) = plug (f.fill t) fs := rfl

theorem plug_append (t : BinTree α) (fs gs : List (Frame α)) :
    plug t (fs ++ gs) = plug (plug t fs) gs := by
  induction fs generalizing t with
  | nil => rfl
  | cons f fs ih => exact ih (f.fill t)

theorem length_add_height (t : BinTree α) (fs : List (Frame α)) :
    fs.length + t.height ≤ (plug t fs).height := by
  induction fs generalizing t with
  | nil => exact Nat.le_of_eq (Nat.zero_add _)
  | cons f fs ih =>
      have hstep : t.height + 1 ≤ (f.fill t).height := by
        obtain ⟨s, c, a, sib⟩ := f
        cases s <;> simp only [Frame.fill, nodeOn, height] <;> omega
      have := ih (f.fill t)
      rw [List.length_cons, plug_cons]
      omega

/-- Every element is the root of a tree inside. -/
theorem exists_focus {t : BinTree α} {a : α} (h : a ∈ t.toList) :
    ∃ c l r fs, plug (.node c l a r) fs = t := by
  suffices hgo : ∀ gs, ∃ c l r fs, plug (.node c l a r) fs = plug t gs from hgo []
  induction t with
  | nil => cases h
  | node c l b r ihl ihr =>
      intro gs
      rw [toList_node, List.mem_append, List.mem_cons] at h
      rcases h with h | rfl | h
      · exact ihl h (⟨.left, c, b, r⟩ :: gs)
      · exact ⟨c, l, r, gs, rfl⟩
      · exact ihr h (⟨.right, c, b, l⟩ :: gs)

/-- The elements left of the hole. -/
def before : List (Frame α) → List α
  | [] => []
  | f :: fs =>
      match f.side with
      | .left => before fs
      | .right => before fs ++ f.sibling.toList ++ [f.elem]

/-- The elements right of the hole. -/
def after : List (Frame α) → List α
  | [] => []
  | f :: fs =>
      match f.side with
      | .left => f.elem :: f.sibling.toList ++ after fs
      | .right => after fs

theorem toList_plug (t : BinTree α) (fs : List (Frame α)) :
    (plug t fs).toList = before fs ++ t.toList ++ after fs := by
  induction fs generalizing t with
  | nil => simp [before, after]
  | cons f fs ih =>
      rw [plug_cons, ih]
      obtain ⟨s, c, a, sib⟩ := f
      cases s <;> simp [Frame.fill, nodeOn, before, after]

/-- Trees with the same elements fill a hole alike. -/
theorem toList_plug_congr {t u : BinTree α} (h : t.toList = u.toList) (fs : List (Frame α)) :
    (plug t fs).toList = (plug u fs).toList := by
  rw [toList_plug, toList_plug, h]

/-- A balanced tree results if the hole is filled with one of the given colour and black height.
The root is black. -/
inductive Hole : List (Frame α) → Colour → Nat → Prop
  | root {n : Nat} : Hole [] .black n
  | red {fs : List (Frame α)} {s : Side} {a : α} {sib : BinTree α} {n : Nat} :
      BlackBalanced sib .black n → Hole fs .red n → Hole (⟨s, .red, a, sib⟩ :: fs) .black n
  | black {fs : List (Frame α)} {s : Side} {a : α} {sib : BinTree α} {c c' : Colour} {n : Nat} :
      BlackBalanced sib c n → Hole fs .black (n + 1) → Hole (⟨s, .black, a, sib⟩ :: fs) c' n

namespace Hole

variable {t : BinTree α} {f : Frame α} {fs : List (Frame α)} {c : Colour} {n : Nat}

theorem plug (h : Hole fs c n) (ht : BlackBalanced t c n) :
    ∃ m, BlackBalanced (plug t fs) .black m := by
  induction h generalizing t with
  | root => exact ⟨_, ht⟩
  | @red fs s a sib n hsib _ ih => exact ih (.redOn s ht hsib)
  | @black fs s a sib c c' n hsib _ ih => exact ih (.blackOn s ht hsib)

/-- Where a red tree fits, so does a black one. -/
theorem to_black (h : Hole fs c n) : Hole fs .black n := by
  cases h with
  | root => exact .root
  | red hsib h => exact .red hsib h
  | black hsib h => exact .black hsib h

end Hole

/-- Inside a balanced tree every tree is balanced, and leaves a hole that it fits. -/
theorem Hole.append {t : BinTree α} {gs : List (Frame α)} {c : Colour} {n : Nat}
    (fs : List (Frame α)) (hhole : Hole gs c n) (h : BlackBalanced (RedBlack.plug t fs) c n) :
    ∃ c' m, BlackBalanced t c' m ∧ Hole (fs ++ gs) c' m := by
  induction fs generalizing t with
  | nil => exact ⟨_, _, h, hhole⟩
  | cons f fs ih =>
      obtain ⟨c', m, hfill, hrest⟩ := ih h
      obtain ⟨s, cf, a, sib⟩ := f
      cases cf with
      | red =>
          obtain ⟨rfl, ht, hsib⟩ := hfill.of_redOn
          exact ⟨_, _, ht, .red hsib hrest⟩
      | black =>
          obtain ⟨k, ct, cs, rfl, rfl, ht, hsib⟩ := hfill.of_blackOn
          exact ⟨_, _, ht, .black hsib hrest⟩

theorem hole_of_balanced {t : BinTree α} {fs : List (Frame α)} {n : Nat}
    (h : BlackBalanced (plug t fs) .black n) : ∃ c m, BlackBalanced t c m ∧ Hole fs c m := by
  obtain ⟨c, m, ht, hhole⟩ := Hole.append fs .root h
  rw [List.append_nil] at hhole
  exact ⟨c, m, ht, hhole⟩

/-! ## The repair after an insertion -/

/-- The tree `t` has a red root, and may hang below a red node. -/
def insertFix : BinTree α → List (Frame α) → Option (BinTree α)
  | t, [] => some (t.paint .black)
  | t, f :: fs =>
      match f.colour, fs with
      | .black, fs => some (plug t (f :: fs))
      | .red, [] => none
      | .red, g :: fs =>
          if g.sibling.colour = .red then
            insertFix (nodeOn g.side .red (nodeOn f.side .black t f.elem f.sibling) g.elem
              (g.sibling.paint .black)) fs
          else if f.side = g.side then
            some (plug (nodeOn g.side g.colour t f.elem
              (nodeOn g.side .red (f.sibling.paint .black) g.elem g.sibling)) fs)
          else
            match t with
            | .nil => none
            | .node _ l x r =>
                some (plug (nodeOn g.side g.colour
                  (nodeOn g.side .red f.sibling f.elem ((g.side.pick l r).paint .black)) x
                  (nodeOn g.side .red ((g.side.pick r l).paint .black) g.elem g.sibling)) fs)

section InsertFix

variable {t u near far : BinTree α} {fs : List (Frame α)} {f g : Frame α} {c : Colour} {n : Nat}
  {s : Side} {a x p : α} {sib uncle : BinTree α}

theorem insertFix_black (hf : f.colour = .black) :
    insertFix t (f :: fs) = some (plug t (f :: fs)) := by
  rw [insertFix.eq_def]
  simp only [hf]

theorem insertFix_uncle (hf : f.colour = .red) (hg : g.sibling.colour = .red) :
    insertFix t (f :: g :: fs) =
      insertFix (nodeOn g.side .red (nodeOn f.side .black t f.elem f.sibling) g.elem
        (g.sibling.paint .black)) fs := by
  rw [insertFix.eq_def]
  simp only [hf, if_pos hg]

theorem insertFix_aligned (hf : f.colour = .red) (hg : g.sibling.colour = .black)
    (hs : f.side = g.side) :
    insertFix t (f :: g :: fs) =
      some (plug (nodeOn g.side g.colour t f.elem
        (nodeOn g.side .red (f.sibling.paint .black) g.elem g.sibling)) fs) := by
  rw [insertFix.eq_def]
  simp only [hf, hg, if_pos hs, reduceCtorEq, if_false]

theorem insertFix_crossed (hf : f.colour = .red) (hg : g.sibling.colour = .black)
    (hs : f.side ≠ g.side) :
    insertFix (nodeOn g.side c near x far) (f :: g :: fs) =
      some (plug (nodeOn g.side g.colour (nodeOn g.side .red f.sibling f.elem (near.paint .black)) x
        (nodeOn g.side .red (far.paint .black) g.elem g.sibling)) fs) := by
  rw [insertFix.eq_def]
  simp only [hf, hg, if_neg hs, reduceCtorEq, if_false]
  cases g.side <;> rfl

/-- **The repair after an insertion** succeeds: the elements stay where they are, and the result
is balanced. -/
theorem insertFix_spec (ht : BlackBalanced t .red n) (hhole : Hole fs .black n) :
    ∃ u, insertFix t fs = some u ∧ u.toList = (plug t fs).toList ∧ ∃ m, BlackBalanced u .black m := by
  induction t, fs using insertFix.induct generalizing n with
  | case1 t => exact ⟨_, rfl, toList_paint _ _, _, ht.paint_black_of_red⟩
  | case2 t f fs hf =>
      rw [insertFix_black hf]
      obtain ⟨s, cf, p, sib⟩ := f
      cases hf
      cases hhole with
      | black hsib hrest => exact ⟨_, rfl, rfl, Hole.plug (.black hsib hrest) ht⟩
  | case3 t f hf =>
      -- A red node is never the root.
      obtain ⟨s, cf, p, sib⟩ := f
      cases hf
      cases hhole with
      | red _ hroot => cases hroot
  | case4 t f g fs hf hg ih =>
      rw [insertFix_uncle hf hg]
      obtain ⟨s, cf, p, sib⟩ := f
      obtain ⟨s', cg, q, uncle⟩ := g
      cases hf
      cases hhole with
      | red hsib hrest =>
          cases hrest with
          | @black _ _ _ _ cu _ _ huncle hrest =>
              -- The uncle is painted black, and the grandparent is a red root of the same height.
              obtain rfl : cu = .red := huncle.colour_eq.symm.trans hg
              obtain ⟨u, hu, hlist, hbal⟩ :=
                ih (.redOn s' (.blackOn s ht hsib) huncle.paint_black_of_red) hrest
              refine ⟨u, hu, hlist.trans ?_, hbal⟩
              apply toList_plug_congr
              cases s <;> cases s' <;> simp [Frame.fill, nodeOn]
  | case5 t f g fs hf hg hs =>
      have hg : g.sibling.colour = .black := Colour.eq_black_of_ne_red hg
      rw [insertFix_aligned hf hg hs]
      obtain ⟨s, cf, p, sib⟩ := f
      obtain ⟨s', cg, q, uncle⟩ := g
      cases hf
      cases hs
      cases hhole with
      | red hsib hrest =>
          cases hrest with
          | @black _ _ _ _ cu _ _ huncle hrest =>
              -- Over a black uncle the rotation at the grandparent ends the repair.
              obtain rfl : cu = .black := huncle.colour_eq.symm.trans hg
              refine ⟨_, rfl, ?_, ?_⟩
              · apply toList_plug_congr
                cases s <;> simp [Frame.fill, nodeOn]
              · refine hrest.plug (.blackOn s ht (.redOn s ?_ huncle))
                rwa [hsib.paint_black_of_black]
  | case6 f g fs hf hg hs => cases ht
  | case7 f g fs hf hg hs cx l x r =>
      have hg : g.sibling.colour = .black := Colour.eq_black_of_ne_red hg
      obtain ⟨_, near, _, far, heq⟩ := exists_nodeOn (t := .node cx l x r) g.side (by rintro ⟨⟩)
      rw [heq] at ht ⊢
      rw [insertFix_crossed hf hg hs]
      obtain ⟨s, cf, p, sib⟩ := f
      obtain ⟨s', cg, q, uncle⟩ := g
      cases hf
      -- The node stands between its parent and its grandparent.
      obtain rfl : s = s'.other := Side.eq_other_of_ne hs
      cases hhole with
      | red hsib hrest =>
          cases hrest with
          | @black _ _ _ _ cu _ _ huncle hrest =>
              obtain rfl : cu = .black := huncle.colour_eq.symm.trans hg
              cases ht.colour_eq.symm.trans (colour_nodeOn _ _ _ _ _)
              obtain ⟨-, hnear, hfar⟩ := ht.of_redOn
              refine ⟨_, rfl, ?_, ?_⟩
              · apply toList_plug_congr
                cases s' <;> simp [Frame.fill, nodeOn, Side.other]
              · refine hrest.plug (.blackOn s' (.redOn s' hsib ?_) (.redOn s' ?_ huncle))
                · rwa [hnear.paint_black_of_black]
                · rwa [hfar.paint_black_of_black]

end InsertFix

/-! ## The repair after a deletion -/

/-- The tree `t` is one black node short, and the sibling in its frame is black. What takes the
parent's place, and whether that is still one short. -/
def eraseAt (t : BinTree α) (f : Frame α) : Option (BinTree α × Bool) :=
  match f.sibling with
  | .nil => none
  | .node _ l x r =>
      if (f.side.pick r l).colour = .black then
        if (f.side.pick l r).colour = .black then
          match f.colour with
          | .red => some (nodeOn f.side .black t f.elem (.node .red l x r), false)
          | .black => some (nodeOn f.side .black t f.elem (.node .red l x r), true)
        else
          match f.side.pick l r with
          | .nil => none
          | .node _ l' y r' =>
              some (nodeOn f.side f.colour (nodeOn f.side .black t f.elem (f.side.pick l' r')) y
                (nodeOn f.side .black ((f.side.pick r' l').paint .black) x (f.side.pick r l)), false)
      else
        some (nodeOn f.side f.colour (nodeOn f.side .black t f.elem (f.side.pick l r)) x
          ((f.side.pick r l).paint .black), false)

/-- A red sibling is rotated above the parent first; the parent, now red, gets a black one. -/
def eraseFix : BinTree α → List (Frame α) → Option (BinTree α)
  | t, [] => some t
  | t, f :: fs =>
      match f.sibling with
      | .nil => none
      | .node .red l x r =>
          (eraseAt t ⟨f.side, .red, f.elem, (f.side.pick l r).paint .black⟩).map fun p =>
            plug p.1 (⟨f.side, f.colour, x, f.side.pick r l⟩ :: fs)
      | .node .black _ _ _ =>
          match eraseAt t f with
          | none => none
          | some (u, true) => eraseFix u fs
          | some (u, false) => some (plug u fs)

section EraseFix

variable {t near far near' far' : BinTree α} {fs : List (Frame α)} {c cs cy : Colour} {n : Nat}
  {s : Side} {a p x y : α}

theorem eraseAt_flip (hfar : far.colour = .black) (hnear : near.colour = .black) :
    eraseAt t ⟨s, c, p, nodeOn s cs near x far⟩ =
      some (nodeOn s .black t p (nodeOn s .red near x far), decide (c = .black)) := by
  cases s <;> cases c <;> simp only [eraseAt, nodeOn, Side.pick, hfar, hnear, if_true] <;> rfl

theorem eraseAt_near (hfar : far.colour = .black) :
    eraseAt t ⟨s, c, p, nodeOn s cs (nodeOn s .red near' y far') x far⟩ =
      some (nodeOn s c (nodeOn s .black t p near') y
        (nodeOn s .black (far'.paint .black) x far), false) := by
  have hred : ∀ l a r, (BinTree.node .red l a r : BinTree α).colour = .red := fun _ _ _ => rfl
  cases s <;> simp only [eraseAt, nodeOn, Side.pick, hfar, hred, reduceCtorEq, if_true, if_false]

theorem eraseAt_far (hfar : far.colour = .red) :
    eraseAt t ⟨s, c, p, nodeOn s cs near x far⟩ =
      some (nodeOn s c (nodeOn s .black t p near) x (far.paint .black), false) := by
  cases s <;> simp only [eraseAt, nodeOn, Side.pick, hfar, reduceCtorEq, if_false]

theorem eraseFix_red :
    eraseFix t (⟨s, c, p, nodeOn s .red near x far⟩ :: fs) =
      (eraseAt t ⟨s, .red, p, near.paint .black⟩).map fun q =>
        plug q.1 (⟨s, c, x, far⟩ :: fs) := by
  cases s <;> rfl

theorem eraseFix_black :
    eraseFix t (⟨s, c, p, nodeOn s .black near x far⟩ :: fs) =
      match eraseAt t ⟨s, c, p, nodeOn s .black near x far⟩ with
      | none => none
      | some (u, true) => eraseFix u fs
      | some (u, false) => some (plug u fs) := by
  cases s <;> rfl

/-- With a black sibling of the right height one of the cases applies. Only below a black node can
the result be short. -/
theorem eraseAt_spec (ht : BlackBalanced t .black n) {sib : BinTree α}
    (hsib : BlackBalanced sib .black (n + 1)) :
    ∃ u short, eraseAt t ⟨s, c, p, sib⟩ = some (u, short) ∧
      u.toList = (Frame.fill ⟨s, c, p, sib⟩ t).toList ∧
      (short = true → c = .black ∧ BlackBalanced u .black (n + 1)) ∧
      (short = false →
        BlackBalanced u c (n + 1 + c.weight) ∨ c = .red ∧ BlackBalanced u .black (n + 1)) := by
  obtain ⟨cs, near, x, far, rfl⟩ := exists_nodeOn s hsib.ne_nil_of_succ
  cases (colour_nodeOn s cs near x far).symm.trans hsib.colour_eq
  obtain ⟨m, cn, cf, -, hm, hnear, hfar⟩ := hsib.of_blackOn
  cases hm
  -- A red nephew makes up for the black node that is missing.
  cases hcf : far.colour with
  | red =>
      obtain rfl : cf = .red := hfar.colour_eq.symm.trans hcf
      refine ⟨_, _, eraseAt_far hcf, ?_, by rintro ⟨⟩, fun _ => .inl ?_⟩
      · cases s <;> simp [Frame.fill, nodeOn]
      · exact .colouredOn s c (.blackOn s ht hnear) hfar.paint_black_of_red
  | black =>
      obtain rfl : cf = .black := hfar.colour_eq.symm.trans hcf
      cases cn with
      | red =>
          obtain ⟨cy, near', y, far', rfl⟩ := exists_nodeOn s (t := near) (by
            rintro rfl
            cases hnear)
          cases (colour_nodeOn s cy near' y far').symm.trans hnear.colour_eq
          obtain ⟨-, hnear', hfar'⟩ := hnear.of_redOn
          refine ⟨_, _, eraseAt_near hcf, ?_, by rintro ⟨⟩, fun _ => .inl ?_⟩
          · cases s <;> simp [Frame.fill, nodeOn]
          · have hpaint : BlackBalanced (far'.paint .black) .black n := by
              rwa [hfar'.paint_black_of_black]
            exact .colouredOn s c (.blackOn s ht hnear') (.blackOn s hpaint hfar)
      | black =>
          -- No red nephew: the sibling becomes one short as well, and so the parent's tree.
          have hflip : BlackBalanced (nodeOn s .black t p (nodeOn s .red near x far)) .black (n + 1) :=
            .blackOn s ht (.redOn s hnear hfar)
          refine ⟨_, _, eraseAt_flip hcf hnear.colour_eq, ?_, ?_, ?_⟩
          · cases s <;> simp [Frame.fill, nodeOn]
          · intro hshort
            exact ⟨of_decide_eq_true hshort, hflip⟩
          · intro hshort
            cases c with
            | red => exact .inr ⟨rfl, hflip⟩
            | black => cases hshort

/-- **The repair after a deletion** succeeds when the hole is meant for one black node more: the
elements stay where they are, and the result is balanced. -/
theorem eraseFix_spec (ht : BlackBalanced t .black n) (hhole : Hole fs c (n + 1)) :
    ∃ u, eraseFix t fs = some u ∧ u.toList = (plug t fs).toList ∧ ∃ m, BlackBalanced u .black m := by
  induction fs generalizing t n c with
  | nil => exact ⟨t, rfl, rfl, n, ht⟩
  | cons f fs ih =>
      obtain ⟨s, cf, p, sib⟩ := f
      -- What the hole says of the sibling, and of where the parent's tree fits.
      have hparts : ∃ cs, BlackBalanced sib cs (n + 1) ∧ (cf = .red → cs = .black) ∧
          Hole fs cf (n + 1 + cf.weight) := by
        cases hhole with
        | red hsib hrest => exact ⟨_, hsib, fun _ => rfl, hrest⟩
        | black hsib hrest => exact ⟨_, hsib, by rintro ⟨⟩, hrest⟩
      obtain ⟨cs, hsib, hred, hrest⟩ := hparts
      obtain ⟨cs', near, x, far, rfl⟩ := exists_nodeOn s hsib.ne_nil_of_succ
      obtain rfl : cs' = cs := (colour_nodeOn s cs' near x far).symm.trans hsib.colour_eq
      cases cs' with
      | red =>
          -- The parent is black; with the sibling above it, it is a red node over a black sibling.
          obtain rfl : cf = .black := by
            cases cf with
            | red => exact absurd (hred rfl) (by rintro ⟨⟩)
            | black => rfl
          obtain ⟨-, hnear, hfar⟩ := hsib.of_redOn
          obtain ⟨u, short, hu, hlist, hbal⟩ := eraseAt_spec (s := s) (c := .red) (p := p) ht hnear
          rw [eraseFix_red, hnear.paint_black_of_black, hu, Option.map_some]
          refine ⟨_, rfl, ?_, ?_⟩
          · rw [plug_cons, plug_cons]
            apply toList_plug_congr
            have hrot : ((Frame.mk s .black x far).fill u).toList =
                ((Frame.mk s .black x far).fill (Frame.fill ⟨s, .red, p, near⟩ t)).toList := by
              cases s <;> simp [Frame.fill, nodeOn, hlist]
            rw [hrot]
            cases s <;> simp [Frame.fill, nodeOn]
          · cases short with
            | true => cases (hbal.1 rfl).1
            | false =>
                rcases hbal.2 rfl with hbal | ⟨-, hbal⟩
                · exact Hole.plug (.black hfar hrest) hbal
                · exact Hole.plug (.black hfar hrest) hbal
      | black =>
          obtain ⟨u, short, hu, hlist, hbal⟩ := eraseAt_spec (s := s) (c := cf) (p := p) ht hsib
          rw [eraseFix_black, hu]
          cases short with
          | true =>
              -- Still short: the induction goes on above.
              obtain ⟨rfl, hone⟩ := hbal.1 rfl
              obtain ⟨v, hv, hvlist, hvbal⟩ := ih hone hrest
              exact ⟨v, hv, hvlist.trans (toList_plug_congr hlist fs), hvbal⟩
          | false =>
              refine ⟨_, rfl, toList_plug_congr hlist fs, ?_⟩
              rcases hbal.2 rfl with hsame | ⟨rfl, hblack⟩
              · exact hrest.plug hsame
              · exact hrest.to_black.plug hblack

end EraseFix

/-! ## Taking a node out -/

/-- The frames down to the leftmost node, and this node with its right child. -/
def leftmost : BinTree α → List (Frame α) → Option (List (Frame α) × Colour × α × BinTree α)
  | .nil, _ => none
  | .node c .nil a r, fs => some (fs, c, a, r)
  | .node c (.node cl l b m) a r, fs => leftmost (.node cl l b m) (⟨.left, c, a, r⟩ :: fs)

/-- A black leaf leaves its place one short. -/
def leavesShort : Colour → BinTree α → Bool
  | .black, .nil => true
  | _, _ => false

/-- Takes the root of `t` out: a tree for the hole, its frames, and whether it is one short. With
two children the next node to the right takes the place of the root. -/
def detach : BinTree α → List (Frame α) → Option (BinTree α × List (Frame α) × Bool)
  | .nil, _ => none
  | .node c .nil _ .nil, fs => some (.nil, fs, leavesShort c (.nil : BinTree α))
  | .node c .nil _ (.node _ l b r), fs => some (.node c l b r, fs, false)
  | .node c (.node _ l b r) _ .nil, fs => some (.node c l b r, fs, false)
  | .node c (.node cl l b r) _ (.node cr l' b' r'), fs =>
      (leftmost (.node cr l' b' r') []).map fun q =>
        (q.2.2.2.paint .black, q.1 ++ ⟨.right, c, q.2.2.1, .node cl l b r⟩ :: fs,
          leavesShort q.2.1 q.2.2.2)

/-- Takes the root of `t` out and repairs the balance. -/
def remove (t : BinTree α) (fs : List (Frame α)) : Option (BinTree α) :=
  match detach t fs with
  | none => none
  | some (u, gs, true) => eraseFix u gs
  | some (u, gs, false) => some (plug u gs)

section Remove

variable {t u : BinTree α} {fs gs hs : List (Frame α)} {c : Colour} {n : Nat} {a b : α}

/-- The leftmost node sits below frames that all go left. -/
theorem leftmost_spec (fs : List (Frame α)) (h : t ≠ .nil) :
    ∃ gs c a r, leftmost t fs = some (gs ++ fs, c, a, r) ∧ plug (.node c .nil a r) gs = t ∧
      ∀ g ∈ gs, g.side = .left := by
  induction t generalizing fs with
  | nil => exact absurd rfl h
  | node c l a r ihl _ =>
      cases l with
      | nil => exact ⟨[], c, a, r, rfl, rfl, by simp⟩
      | node cl l b m =>
          obtain ⟨gs, c', a', r', hrun, hplug, hside⟩ :=
            ihl (⟨.left, c, a, r⟩ :: fs) (by rintro ⟨⟩)
          refine ⟨gs ++ [⟨.left, c, a, r⟩], c', a', r', ?_, ?_, ?_⟩
          · rw [leftmost, hrun, List.append_assoc]
            rfl
          · rw [plug_append, hplug]
            rfl
          · intro g hg
            rcases List.mem_append.mp hg with hg | hg
            · exact hside g hg
            · rw [List.mem_singleton.mp hg]

theorem leftmost_length {r : BinTree α} (h : leftmost t fs = some (gs, c, a, r)) :
    fs.length ≤ gs.length := by
  induction t generalizing fs with
  | nil => cases h
  | node c' l b r' ihl _ =>
      cases l with
      | nil =>
          cases h
          exact Nat.le_refl _
      | node cl ll bl lr => exact Nat.le_of_succ_le (ihl h)

theorem before_left (h : ∀ g ∈ gs, g.side = .left) : before gs = [] := by
  induction gs with
  | nil => rfl
  | cons g gs ih =>
      rw [before, h g List.mem_cons_self]
      exact ih fun g' hg' => h g' (List.mem_cons_of_mem g hg')

theorem before_append : before (fs ++ gs) = before gs ++ before fs := by
  induction fs with
  | nil => simp [before]
  | cons f fs ih =>
      obtain ⟨s, c, a, sib⟩ := f
      cases s <;> simp [before, ih]

theorem after_append : after (fs ++ gs) = after fs ++ after gs := by
  induction fs with
  | nil => rfl
  | cons f fs ih =>
      obtain ⟨s, c, a, sib⟩ := f
      cases s <;> simp [after, ih]

/-- A hole does not depend on the elements of its frames. -/
theorem Hole.replace {s : Side} {cf : Colour} {sib : BinTree α}
    (h : Hole (⟨s, cf, a, sib⟩ :: fs) c n) : Hole (⟨s, cf, b, sib⟩ :: fs) c n := by
  cases h with
  | red hsib hrest => exact .red hsib hrest
  | black hsib hrest => exact .black hsib hrest

/-- Nor does the balance of a tree. -/
theorem BinTree.BlackBalanced.replace {l r : BinTree α} (h : BlackBalanced (.node c l a r) c n) :
    BlackBalanced (.node c l b r) c n := by
  cases h with
  | red hl hr => exact .red hl hr
  | black hl hr => exact .black hl hr

theorem balanced_replace {l r : BinTree α} (h : BlackBalanced (plug (.node c l a r) fs) .black n) :
    ∃ k, BlackBalanced (plug (.node c l b r) fs) .black k := by
  obtain ⟨c', m, ht, hhole⟩ := hole_of_balanced h
  obtain rfl : c = c' := ht.colour_eq
  exact hhole.plug ht.replace

/-- A node without a left child, taken out: the hole is one short after a black leaf, and takes the
right child, painted black, in every other case. -/
theorem Hole.without {r : BinTree α} (ht : BlackBalanced (.node c .nil a r) c n)
    (hhole : Hole fs c n) :
    (leavesShort c r = true → r = .nil ∧ Hole fs c 1) ∧
      (leavesShort c r = false → BlackBalanced (r.paint .black) .black n ∧ Hole fs .black n) := by
  cases ht with
  | red hl hr =>
      cases hl
      refine ⟨by rintro ⟨⟩, fun _ => ⟨?_, hhole.to_black⟩⟩
      rwa [hr.paint_black_of_black]
  | black hl hr =>
      cases hl
      cases hr with
      | nil => exact ⟨fun _ => ⟨rfl, hhole⟩, by rintro ⟨⟩⟩
      | red hrl hrr => exact ⟨by rintro ⟨⟩, fun _ => ⟨.black hrl hrr, hhole⟩⟩

/-- What is left after the root of `t` is taken out. -/
theorem detach_spec {l r : BinTree α} (ht : BlackBalanced (.node c l a r) c n) (hhole : Hole fs c n) :
    ∃ u gs short, detach (.node c l a r) fs = some (u, gs, short) ∧
      (plug u gs).toList = before fs ++ l.toList ++ r.toList ++ after fs ∧
      (short = true → u = .nil ∧ ∃ c', Hole gs c' 1) ∧
      (short = false → ∃ m, BlackBalanced u .black m ∧ Hole gs .black m) := by
  cases l with
  | nil =>
      have hfit := hhole.without ht
      cases r with
      | nil =>
          refine ⟨_, _, _, rfl, by simp [toList_plug], ?_, ?_⟩
          · intro hshort
            exact ⟨rfl, c, (hfit.1 hshort).2⟩
          · intro hshort
            exact ⟨n, hfit.2 hshort⟩
      | node cr l' b r' =>
          refine ⟨_, _, _, rfl, by simp [toList_plug], by rintro ⟨⟩, fun _ => ?_⟩
          cases ht with
          | red hl hr =>
              cases hl
              cases hr
          | black => exact ⟨_, hfit.2 rfl⟩
  | node cl l b m =>
      cases r with
      | nil =>
          refine ⟨_, _, _, rfl, by simp [toList_plug], by rintro ⟨⟩, fun _ => ?_⟩
          cases ht with
          | red hl hr =>
              cases hr
              cases hl
          | black hl hr =>
              cases hr
              cases hl with
              | red hll hlr => exact ⟨1, .black hll hlr, hhole⟩
      | node cr l' b' r' =>
          obtain ⟨gs, c', a', s, hrun, hplug, hside⟩ :=
            leftmost_spec (t := BinTree.node cr l' b' r') [] (by rintro ⟨⟩)
          rw [List.append_nil] at hrun
          have hlist : a' :: s.toList ++ after gs = (BinTree.node cr l' b' r').toList := by
            rw [← hplug, toList_plug, before_left hside]
            rfl
          -- The hole below the successor, in the right subtree.
          have hright : ∃ cs ms, BlackBalanced (.node cr l' b' r') cs ms ∧
              Hole (⟨.right, c, a', .node cl l b m⟩ :: fs) cs ms := by
            cases ht with
            | red hl hr => exact ⟨_, _, hr, .red hl hhole⟩
            | black hl hr => exact ⟨_, _, hr, .black hl hhole⟩
          obtain ⟨cs, ms, hbal, hframe⟩ := hright
          obtain ⟨c'', k, hsucc, hhole'⟩ := Hole.append gs hframe (by rwa [hplug])
          obtain rfl : c' = c'' := hsucc.colour_eq
          have hfit := hhole'.without hsucc
          refine ⟨s.paint .black, gs ++ ⟨.right, c, a', .node cl l b m⟩ :: fs, leavesShort c' s,
            ?_, ?_, ?_, ?_⟩
          · rw [detach, hrun]
            rfl
          · rw [← hlist, toList_plug, before_append, after_append, before_left hside]
            simp [before, after]
          · intro hshort
            obtain ⟨rfl, hone⟩ := hfit.1 hshort
            exact ⟨rfl, _, hone⟩
          · intro hshort
            exact ⟨_, hfit.2 hshort⟩

theorem leavesShort_eq_true : leavesShort c t = true ↔ t = .nil ∧ c = .black := by
  cases c <;> cases t <;> simp [leavesShort]

/-- Only an empty place is short. -/
theorem detach_short {l r : BinTree α} (h : detach (.node c l a r) fs = some (u, gs, true)) :
    u = .nil := by
  cases l with
  | nil =>
      cases r with
      | nil =>
          rw [detach, Option.some.injEq, Prod.mk.injEq] at h
          exact h.1.symm
      | node cr l' b r' => cases h
  | node cl l b m =>
      cases r with
      | nil => cases h
      | node cr l' b' r' =>
          obtain ⟨hs, c', a', s, hrun, -, -⟩ :=
            leftmost_spec (t := BinTree.node cr l' b' r') [] (by rintro ⟨⟩)
          rw [detach, hrun, Option.map_some, Option.some.injEq, Prod.mk.injEq, Prod.mk.injEq] at h
          rw [← h.1, (leavesShort_eq_true.mp h.2.2).1]
          rfl

/-- The place that may be short is no deeper than the tree was. -/
theorem detach_length {l r : BinTree α} {short : Bool}
    (h : detach (.node c l a r) fs = some (u, gs, short)) :
    gs.length ≤ fs.length + max l.height r.height := by
  cases l with
  | nil =>
      cases r <;> cases h <;> exact Nat.le_add_right _ _
  | node cl l b m =>
      cases r with
      | nil =>
          cases h
          exact Nat.le_add_right _ _
      | node cr l' b' r' =>
          obtain ⟨hs, c', a', s, hrun, hplug, -⟩ :=
            leftmost_spec (t := BinTree.node cr l' b' r') [] (by rintro ⟨⟩)
          rw [detach, hrun] at h
          cases h
          have hlen := length_add_height (.node c' .nil a' s) hs
          rw [hplug, BinTree.height] at hlen
          simp only [List.append_nil, List.length_append, List.length_cons]
          omega

/-- **A node taken out** of a balanced tree leaves a balanced tree of the others, in order. -/
theorem remove_spec {l r : BinTree α} (hbal : BlackBalanced (plug (.node c l a r) fs) .black n) :
    ∃ u, remove (.node c l a r) fs = some u ∧
      u.toList = before fs ++ l.toList ++ r.toList ++ after fs ∧ ∃ m, BlackBalanced u .black m := by
  obtain ⟨c', m, ht, hhole⟩ := hole_of_balanced hbal
  obtain rfl : c = c' := ht.colour_eq
  obtain ⟨u, gs, short, hrun, hlist, htrue, hfalse⟩ := detach_spec ht hhole
  rw [remove, hrun]
  cases short with
  | true =>
      obtain ⟨rfl, cg, hgs⟩ := htrue rfl
      obtain ⟨v, hv, hvlist, hvbal⟩ := eraseFix_spec (n := 0) .nil hgs
      exact ⟨v, hv, hvlist.trans hlist, hvbal⟩
  | false =>
      obtain ⟨k, hu, hgs⟩ := hfalse rfl
      exact ⟨_, rfl, hlist, hgs.plug hu⟩

end Remove

end RedBlack
end Base
end EmbeddedOS
