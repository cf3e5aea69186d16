import EmbeddedOS.Base.Loop
import EmbeddedOS.Base.RedBlack

/-!
# `rbtree.c` and `rbtree.h`

Nodes live in memory, each with two children and one word that holds the address of its parent and,
in the lowest bit, its colour. An access through `NULL` or to an address without a node is undefined.
The source writes out every rebalancing step twice, with left and right exchanged; here a step takes
the side it is for. The callbacks of the augmented variants are empty.
-/

namespace EmbeddedOS
namespace Stdlib

set_option linter.style.nameCheck false

open Base
open Base.RedBlack (Side)

/-- `rb_node` -/
structure RbNode where
  __rb_parent_color : BitVec 64
  rb_right : BitVec 64
  rb_left : BitVec 64
  deriving DecidableEq, Repr

/-- The nodes, and `root->rb_node` of one tree. -/
structure RbMem where
  nodes : BitVec 64 → Option RbNode
  root : BitVec 64

def RB_RED : BitVec 64 := 0#64
def RB_BLACK : BitVec 64 := 1#64

def __rb_parent (pc : BitVec 64) : BitVec 64 := pc &&& ~~~3#64
def __rb_color (pc : BitVec 64) : BitVec 64 := pc &&& 1#64
def __rb_is_black (pc : BitVec 64) : Bool := __rb_color pc != 0#64
def __rb_is_red (pc : BitVec 64) : Bool := !(__rb_color pc != 0#64)

namespace RbNode

def rb_parent (n : RbNode) : BitVec 64 := __rb_parent n.__rb_parent_color
def rb_color (n : RbNode) : BitVec 64 := __rb_color n.__rb_parent_color
def rb_is_red (n : RbNode) : Bool := __rb_is_red n.__rb_parent_color
def rb_is_black (n : RbNode) : Bool := __rb_is_black n.__rb_parent_color

/-- `rb_left` or `rb_right` -/
def child (s : Side) (n : RbNode) : BitVec 64 := s.pick n.rb_left n.rb_right

def setChild (s : Side) (x : BitVec 64) (n : RbNode) : RbNode :=
  match s with
  | .left => { n with rb_left := x }
  | .right => { n with rb_right := x }

end RbNode

namespace RbMem

/-- `*p` -/
def load (m : RbMem) (p : BitVec 64) : Option RbNode :=
  if p = 0#64 then none else m.nodes p

def set (m : RbMem) (p : BitVec 64) (n : RbNode) : RbMem :=
  { m with nodes := Function.update m.nodes p (some n) }

def modify (m : RbMem) (p : BitVec 64) (f : RbNode → RbNode) : Option RbMem :=
  (m.load p).map fun n => m.set p (f n)

/-- `p && rb_is_red(p)` -/
def redAt (m : RbMem) (p : BitVec 64) : Option Bool :=
  if p = 0#64 then some false else (m.load p).map RbNode.rb_is_red

end RbMem

/-! ## `rbtree.h` -/

def rb_set_parent (m : RbMem) (rb p : BitVec 64) : Option RbMem :=
  m.modify rb fun n => { n with __rb_parent_color := n.rb_color ||| p }

def rb_set_parent_color (m : RbMem) (rb p color : BitVec 64) : Option RbMem :=
  m.modify rb fun n => { n with __rb_parent_color := p ||| color }

/-- `if (rb) rb_set_parent_color(rb, p, color)` -/
def setParentColorIf (m : RbMem) (rb p color : BitVec 64) : Option RbMem :=
  if rb ≠ 0#64 then rb_set_parent_color m rb p color else some m

/-- `if (rb) rb_set_parent(rb, p)` -/
def setParentIf (m : RbMem) (rb p : BitVec 64) : Option RbMem :=
  if rb ≠ 0#64 then rb_set_parent m rb p else some m

def __rb_change_child (m : RbMem) (oldN newN parent : BitVec 64) : Option RbMem :=
  if parent ≠ 0#64 then do
    let n ← m.load parent
    if n.rb_left = oldN then m.modify parent (RbNode.setChild .left newN)
    else m.modify parent (RbNode.setChild .right newN)
  else some { m with root := newN }

/-- Where `rb_link` points: at the root, or at a child of a node. -/
inductive RbLink where
  | root
  | child (parent : BitVec 64) (s : Side)
  deriving DecidableEq, Repr

/-- `*link` -/
def RbMem.follow (m : RbMem) : RbLink → Option (BitVec 64)
  | .root => some m.root
  | .child p s => (m.load p).map (RbNode.child s)

def RbMem.setLink (m : RbMem) (x : BitVec 64) : RbLink → Option RbMem
  | .root => some { m with root := x }
  | .child p s => m.modify p (RbNode.setChild s x)

def rb_link_node (m : RbMem) (node parent : BitVec 64) (rb_link : RbLink) : Option RbMem := do
  let m ← m.modify node fun _ => ⟨parent, 0#64, 0#64⟩
  m.setLink node rb_link

/-- The loop of the `do ... while` in `__rb_erase_augmented`: `parent`, `successor` and `tmp`. -/
def successorPass (m : RbMem) :
    BitVec 64 × BitVec 64 × BitVec 64 →
      Option (Pass (BitVec 64 × BitVec 64 × BitVec 64) (BitVec 64 × BitVec 64))
  | (_, successor, tmp) => do
      let n ← m.load tmp
      if n.rb_left ≠ 0#64 then some (.again (successor, tmp, n.rb_left))
      else some (.done (successor, tmp))

/-- The end of cases 2 and 3 of `__rb_erase_augmented`: `successor` takes the place of `node`. -/
def rbEraseSplice (m : RbMem) (node parent successor child2 : BitVec 64) :
    Option (RbMem × BitVec 64) := do
  let n ← m.load node
  let tmp := n.rb_left
  let m ← m.modify successor (RbNode.setChild .left tmp)
  let m ← rb_set_parent m tmp successor
  let n ← m.load node
  let pc := n.__rb_parent_color
  let m ← __rb_change_child m node successor (__rb_parent pc)
  if child2 ≠ 0#64 then
    let m ← rb_set_parent_color m child2 parent RB_BLACK
    let m ← m.modify successor fun s => { s with __rb_parent_color := pc }
    some (m, 0#64)
  else
    let s ← m.load successor
    let rebalance := if s.rb_is_black then parent else 0#64
    let m ← m.modify successor fun s => { s with __rb_parent_color := pc }
    some (m, rebalance)

/-- The memory, and `rebalance`. -/
def __rb_erase_augmented (fuel : Nat) (m : RbMem) (node : BitVec 64) :
    Option (RbMem × BitVec 64) := do
  let n ← m.load node
  let child := n.rb_right
  let tmp := n.rb_left
  let pc := n.__rb_parent_color
  if tmp = 0#64 then
    -- Case 1: no more than one child
    let parent := __rb_parent pc
    let m ← __rb_change_child m node child parent
    if child ≠ 0#64 then
      let m ← m.modify child fun c => { c with __rb_parent_color := pc }
      some (m, 0#64)
    else some (m, if __rb_is_black pc then parent else 0#64)
  else if child = 0#64 then
    let m ← m.modify tmp fun t => { t with __rb_parent_color := pc }
    let parent := __rb_parent pc
    let m ← __rb_change_child m node tmp parent
    some (m, 0#64)
  else
    let c ← m.load child
    let tmp := c.rb_left
    if tmp = 0#64 then
      -- Case 2: the successor is the right child
      rbEraseSplice m node child child c.rb_right
    else
      -- Case 3: the successor is leftmost under the right child
      let (parent, successor) ← loop (successorPass m) fuel (child, child, tmp)
      let s ← m.load successor
      let child2 := s.rb_right
      let m ← m.modify parent (RbNode.setChild .left child2)
      let m ← m.modify successor (RbNode.setChild .right child)
      let m ← rb_set_parent m child successor
      rbEraseSplice m node parent successor child2

/-! ## `rbtree.c`: insertion -/

def rb_set_black (m : RbMem) (rb : BitVec 64) : Option RbMem :=
  m.modify rb fun n => { n with __rb_parent_color := n.__rb_parent_color ||| RB_BLACK }

/-- The parent of a red node. -/
def rb_red_parent (red : RbNode) : BitVec 64 := red.__rb_parent_color

def __rb_rotate_set_parents (m : RbMem) (old new color : BitVec 64) : Option RbMem := do
  let o ← m.load old
  let parent := o.rb_parent
  let m ← m.modify new fun n => { n with __rb_parent_color := o.__rb_parent_color }
  let m ← rb_set_parent_color m old new color
  __rb_change_child m old new parent

/-- The corrective action below a red parent, which is the child on side `s` of `gparent`. -/
def rbInsertSide (s : Side) (m : RbMem) (node parent gparent : BitVec 64) :
    Option (Pass (RbMem × BitVec 64 × BitVec 64) RbMem) := do
  let g ← m.load gparent
  let tmp := g.child s.other
  if ← m.redAt tmp then
    -- Case 1: the uncle is red
    let m ← rb_set_parent_color m tmp gparent RB_BLACK
    let m ← rb_set_parent_color m parent gparent RB_BLACK
    let n ← m.load gparent
    let up := n.rb_parent
    let m ← rb_set_parent_color m gparent up RB_RED
    some (.again (m, gparent, up))
  else
    let p ← m.load parent
    let tmp := p.child s.other
    let (m, parent, tmp) ←
      if node = tmp then do
        -- Case 2: rotate at the parent
        let n ← m.load node
        let tmp := n.child s
        let m ← m.modify parent (RbNode.setChild s.other tmp)
        let m ← m.modify node (RbNode.setChild s parent)
        let m ← setParentColorIf m tmp parent RB_BLACK
        let m ← rb_set_parent_color m parent node RB_RED
        let n ← m.load node
        some (m, node, n.child s.other)
      else some (m, parent, tmp)
    -- Case 3: rotate at the grandparent
    let m ← m.modify gparent (RbNode.setChild s tmp)
    let m ← m.modify parent (RbNode.setChild s.other gparent)
    let m ← setParentColorIf m tmp gparent RB_BLACK
    let m ← __rb_rotate_set_parents m gparent parent RB_RED
    some (.done m)

/-- One pass of the loop of `__rb_insert`: `node` and `parent`. -/
def rbInsertPass :
    RbMem × BitVec 64 × BitVec 64 → Option (Pass (RbMem × BitVec 64 × BitVec 64) RbMem)
  | (m, node, parent) =>
      if parent = 0#64 then (rb_set_parent_color m node 0#64 RB_BLACK).map .done
      else do
        let p ← m.load parent
        if p.rb_is_black then some (.done m)
        else
          let gparent := rb_red_parent p
          let g ← m.load gparent
          if parent ≠ g.rb_right then rbInsertSide .left m node parent gparent
          else rbInsertSide .right m node parent gparent

def __rb_insert (fuel : Nat) (m : RbMem) (node : BitVec 64) : Option RbMem := do
  let n ← m.load node
  loop rbInsertPass fuel (m, node, rb_red_parent n)

def rb_insert_color (fuel : Nat) (m : RbMem) (node : BitVec 64) : Option RbMem :=
  __rb_insert fuel m node

/-! ## `rbtree.c`: deletion -/

/-- Case 4 of `____rb_erase_color`, for a `node` on side `s`: rotate at the parent. -/
def rbEraseRotate (s : Side) (m : RbMem) (parent sibling tmp1 : BitVec 64) : Option RbMem := do
  let b ← m.load sibling
  let tmp2 := b.child s
  let m ← m.modify parent (RbNode.setChild s.other tmp2)
  let m ← m.modify sibling (RbNode.setChild s parent)
  let m ← rb_set_parent_color m tmp1 sibling RB_BLACK
  let m ← setParentIf m tmp2 parent
  __rb_rotate_set_parents m parent sibling RB_BLACK

/-- Cases 2 to 4, with a black `sibling`. -/
def rbEraseBlack (s : Side) (m : RbMem) (parent sibling : BitVec 64) :
    Option (Pass (RbMem × BitVec 64 × BitVec 64) RbMem) := do
  let b ← m.load sibling
  let tmp1 := b.child s.other
  if ← m.redAt tmp1 then (rbEraseRotate s m parent sibling tmp1).map .done
  else
    let tmp2 := b.child s
    if ← m.redAt tmp2 then
      -- Case 3: rotate at the sibling
      let t ← m.load tmp2
      let tmp1 := t.child s.other
      let m ← m.modify sibling (RbNode.setChild s tmp1)
      let m ← m.modify tmp2 (RbNode.setChild s.other sibling)
      let m ← m.modify parent (RbNode.setChild s.other tmp2)
      let m ← setParentColorIf m tmp1 sibling RB_BLACK
      (rbEraseRotate s m parent tmp2 sibling).map .done
    else
      -- Case 2: flip the colour of the sibling
      let m ← rb_set_parent_color m sibling parent RB_RED
      let p ← m.load parent
      if p.rb_is_red then (rb_set_black m parent).map .done
      else if p.rb_parent ≠ 0#64 then some (.again (m, parent, p.rb_parent))
      else some (.done m)

/-- A pass of the loop, for a `node` on side `s` of its parent. -/
def rbEraseSide (s : Side) (m : RbMem) (parent : BitVec 64) :
    Option (Pass (RbMem × BitVec 64 × BitVec 64) RbMem) := do
  let p ← m.load parent
  let sibling := p.child s.other
  let b ← m.load sibling
  if b.rb_is_red then
    -- Case 1: rotate at the parent
    let tmp1 := b.child s
    let m ← m.modify parent (RbNode.setChild s.other tmp1)
    let m ← m.modify sibling (RbNode.setChild s parent)
    let m ← rb_set_parent_color m tmp1 parent RB_BLACK
    let m ← __rb_rotate_set_parents m parent sibling RB_RED
    rbEraseBlack s m parent tmp1
  else rbEraseBlack s m parent sibling

/-- One pass of the loop of `____rb_erase_color`: `node` and `parent`. -/
def rbErasePass :
    RbMem × BitVec 64 × BitVec 64 → Option (Pass (RbMem × BitVec 64 × BitVec 64) RbMem)
  | (m, node, parent) => do
      let p ← m.load parent
      if node ≠ p.rb_right then rbEraseSide .left m parent
      else rbEraseSide .right m parent

def ____rb_erase_color (fuel : Nat) (m : RbMem) (parent : BitVec 64) : Option RbMem :=
  loop rbErasePass fuel (m, 0#64, parent)

def rb_erase (fuel : Nat) (m : RbMem) (node : BitVec 64) : Option RbMem := do
  let (m, rebalance) ← __rb_erase_augmented fuel m node
  if rebalance ≠ 0#64 then ____rb_erase_color fuel m rebalance else some m

/-! ## Adding and finding -/

/-- One pass of the loop of `rb_add`: `link` and `parent`. -/
def rbAddPass (less : BitVec 64 → BitVec 64 → Bool) (m : RbMem) (node : BitVec 64) :
    RbLink × BitVec 64 → Option (Pass (RbLink × BitVec 64) (RbLink × BitVec 64))
  | (link, parent) => do
      let p ← m.follow link
      if p = 0#64 then some (.done (link, parent))
      else if less node p then some (.again (.child p .left, p))
      else some (.again (.child p .right, p))

def rb_add (fuel : Nat) (less : BitVec 64 → BitVec 64 → Bool) (m : RbMem) (node : BitVec 64) :
    Option RbMem := do
  let (link, parent) ← loop (rbAddPass less m node) fuel (.root, 0#64)
  let m ← rb_link_node m node parent link
  rb_insert_color fuel m node

/-- One pass of the loop of `rb_find_add`, which ends at a link or returns a node. -/
def rbFindAddPass (cmp : BitVec 64 → BitVec 64 → Int) (m : RbMem) (node : BitVec 64) :
    RbLink × BitVec 64 → Option (Pass (RbLink × BitVec 64) (BitVec 64 ⊕ RbLink × BitVec 64))
  | (link, parent) => do
      let p ← m.follow link
      if p = 0#64 then some (.done (.inr (link, parent)))
      else
        let c := cmp node p
        if c < 0 then some (.again (.child p .left, p))
        else if c > 0 then some (.again (.child p .right, p))
        else some (.done (.inl p))

def rb_find_add (fuel : Nat) (cmp : BitVec 64 → BitVec 64 → Int) (m : RbMem) (node : BitVec 64) :
    Option (RbMem × BitVec 64) := do
  match ← loop (rbFindAddPass cmp m node) fuel (.root, 0#64) with
  | .inl p => some (m, p)
  | .inr (link, parent) =>
      let m ← rb_link_node m node parent link
      let m ← rb_insert_color fuel m node
      some (m, 0#64)

/-- One pass of the loop of `rb_find`. `cmp` compares the key that is looked for. -/
def rbFindPass (cmp : BitVec 64 → Int) (m : RbMem) (node : BitVec 64) :
    Option (Pass (BitVec 64) (BitVec 64)) :=
  if node = 0#64 then some (.done 0#64)
  else do
    let c := cmp node
    let n ← m.load node
    if c < 0 then some (.again n.rb_left)
    else if c > 0 then some (.again n.rb_right)
    else some (.done node)

def rb_find (fuel : Nat) (cmp : BitVec 64 → Int) (m : RbMem) : Option (BitVec 64) :=
  loop (rbFindPass cmp m) fuel m.root

/-- One pass of the loop of `rb_find_first`: `node` and `match`. -/
def rbFindFirstPass (cmp : BitVec 64 → Int) (m : RbMem) :
    BitVec 64 × BitVec 64 → Option (Pass (BitVec 64 × BitVec 64) (BitVec 64))
  | (node, found) =>
      if node = 0#64 then some (.done found)
      else do
        let c := cmp node
        let n ← m.load node
        if c ≤ 0 then some (.again (n.rb_left, if c = 0 then node else found))
        else some (.again (n.rb_right, found))

def rb_find_first (fuel : Nat) (cmp : BitVec 64 → Int) (m : RbMem) : Option (BitVec 64) :=
  loop (rbFindFirstPass cmp m) fuel (m.root, 0#64)

/-! ## Traversal -/

/-- `RB_EMPTY_NODE` -/
def RB_EMPTY_NODE (node : BitVec 64) (n : RbNode) : Bool := n.__rb_parent_color == node

/-- `while (node->rb_left) node = node->rb_left`, or with the right child. -/
def rbDeepPass (s : Side) (m : RbMem) (node : BitVec 64) :
    Option (Pass (BitVec 64) (BitVec 64)) := do
  let n ← m.load node
  if n.child s ≠ 0#64 then some (.again (n.child s)) else some (.done node)

/-- `while ((parent = rb_parent(node)) && node == parent->rb_right) node = parent`, or with the left
child. -/
def rbClimbPass (s : Side) (m : RbMem) (node : BitVec 64) :
    Option (Pass (BitVec 64) (BitVec 64)) := do
  let n ← m.load node
  let parent := n.rb_parent
  if parent = 0#64 then some (.done parent)
  else
    let p ← m.load parent
    if node = p.child s then some (.again parent) else some (.done parent)

/-- `rb_next` for the right side, `rb_prev` for the left. -/
def rbStep (s : Side) (fuel : Nat) (m : RbMem) (node : BitVec 64) : Option (BitVec 64) := do
  let n ← m.load node
  if RB_EMPTY_NODE node n then some 0#64
  else if n.child s ≠ 0#64 then loop (rbDeepPass s.other m) fuel (n.child s)
  else loop (rbClimbPass s m) fuel node

def rb_next (fuel : Nat) (m : RbMem) (node : BitVec 64) : Option (BitVec 64) :=
  rbStep .right fuel m node

def rb_prev (fuel : Nat) (m : RbMem) (node : BitVec 64) : Option (BitVec 64) :=
  rbStep .left fuel m node

/-- `rb_first` for the left side, `rb_last` for the right. -/
def rbEnd (s : Side) (fuel : Nat) (m : RbMem) : Option (BitVec 64) :=
  if m.root = 0#64 then some 0#64 else loop (rbDeepPass s m) fuel m.root

def rb_first (fuel : Nat) (m : RbMem) : Option (BitVec 64) := rbEnd .left fuel m

def rb_last (fuel : Nat) (m : RbMem) : Option (BitVec 64) := rbEnd .right fuel m

def rb_next_match (fuel : Nat) (cmp : BitVec 64 → Int) (m : RbMem) (node : BitVec 64) :
    Option (BitVec 64) := do
  let node ← rb_next fuel m node
  if node ≠ 0#64 ∧ cmp node ≠ 0 then some 0#64 else some node

/-- A round of `rb_for_each`: the node it is at, and the nodes before, the last one first. -/
def rbForEachPass (fuel : Nat) (cmp : BitVec 64 → Int) (m : RbMem) :
    BitVec 64 × List (BitVec 64) →
      Option (Pass (BitVec 64 × List (BitVec 64)) (List (BitVec 64)))
  | (node, seen) =>
      if node = 0#64 then some (.done seen.reverse)
      else (rb_next_match fuel cmp m node).map fun next => .again (next, node :: seen)

/-- The nodes that `rb_for_each` visits, in at most `rounds` rounds. -/
def rb_for_each (fuel rounds : Nat) (cmp : BitVec 64 → Int) (m : RbMem) :
    Option (List (BitVec 64)) := do
  let node ← rb_find_first fuel cmp m
  loop (rbForEachPass fuel cmp m) rounds (node, [])

def rbLeftDeepestPass (m : RbMem) (node : BitVec 64) : Option (Pass (BitVec 64) (BitVec 64)) := do
  let n ← m.load node
  if n.rb_left ≠ 0#64 then some (.again n.rb_left)
  else if n.rb_right ≠ 0#64 then some (.again n.rb_right)
  else some (.done node)

def rb_left_deepest_node (fuel : Nat) (m : RbMem) (node : BitVec 64) : Option (BitVec 64) :=
  loop (rbLeftDeepestPass m) fuel node

def rb_first_postorder (fuel : Nat) (m : RbMem) : Option (BitVec 64) :=
  if m.root = 0#64 then some 0#64 else rb_left_deepest_node fuel m m.root

def rb_next_postorder (fuel : Nat) (m : RbMem) (node : BitVec 64) : Option (BitVec 64) :=
  if node = 0#64 then some 0#64
  else do
    let n ← m.load node
    let parent := n.rb_parent
    if parent = 0#64 then some parent
    else
      let p ← m.load parent
      if node = p.rb_left ∧ p.rb_right ≠ 0#64 then rb_left_deepest_node fuel m p.rb_right
      else some parent

def rb_replace_node (m : RbMem) (victim new : BitVec 64) : Option RbMem := do
  let v ← m.load victim
  let parent := v.rb_parent
  let m ← m.modify new fun _ => v
  let m ← setParentIf m v.rb_left new
  let m ← setParentIf m v.rb_right new
  __rb_change_child m victim new parent

end Stdlib
end EmbeddedOS
