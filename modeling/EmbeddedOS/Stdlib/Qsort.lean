import EmbeddedOS.Base.Loop

/-!
# `qsort.c`

Quicksort with a stack of its own, which stops at ranges of a few elements, and an insertion sort
over the whole array. Pointers are indices, and `SWAP` and the moves of the insertion are of whole
elements, which the source copies byte by byte. Outside the array an access is undefined, and so is
the step to before its first element.
-/

namespace EmbeddedOS
namespace Stdlib

open Base

variable {α : Type}

def MAX_THRESH : Nat := 4

def STACK_SIZE : Nat := 64

/-- `(*cmp) (&xs[i], &xs[j], arg)` -/
def compareAt (cmp : α → α → Int) (xs : List α) (i j : Nat) : Option Int := do
  let x ← xs[i]?
  let y ← xs[j]?
  some (cmp x y)

def SWAP (xs : List α) (i j : Nat) : Option (List α) := do
  let x ← xs[i]?
  let y ← xs[j]?
  some ((xs.set i y).set j x)

/-- `ptr - size` -/
def stepBack (i : Nat) : Option Nat :=
  if i = 0 then none else some (i - 1)

/-- `(size_t) (a - b) <= max_thresh`, where a negative difference is a large `size_t`. -/
def withinThresh (a b : Nat) : Prop := b ≤ a ∧ a - b ≤ MAX_THRESH

instance (a b : Nat) : Decidable (withinThresh a b) :=
  inferInstanceAs (Decidable (b ≤ a ∧ a - b ≤ MAX_THRESH))

/-- The bounds on the stack, the last ones first. The bottom holds `NULL`. -/
abbrev SortStack := List (Option (Nat × Nat))

def PUSH (stack : SortStack) (low high : Nat) : Option SortStack :=
  if stack.length < STACK_SIZE then some (some (low, high) :: stack) else none

section Quick

variable (cmp : α → α → Int)

/-- `if ((*cmp) (&xs[i], &xs[j], arg) < 0) SWAP (&xs[i], &xs[j], size)` -/
def swapIfLess (xs : List α) (i j : Nat) : Option (List α) := do
  let c ← compareAt cmp xs i j
  if c < 0 then SWAP xs i j else some xs

/-- The median of three goes to `mid`. -/
def medianOfThree (xs : List α) (lo mid hi : Nat) : Option (List α) := do
  let xs ← swapIfLess cmp xs mid lo
  let c ← compareAt cmp xs hi mid
  if c < 0 then
    let xs ← SWAP xs mid hi
    swapIfLess cmp xs mid lo
  else some xs

/-- `while ((*cmp) (left_ptr, mid, arg) < 0) left_ptr += size` -/
def leftPass (xs : List α) (mid left : Nat) : Option (Pass Nat Nat) := do
  let c ← compareAt cmp xs left mid
  if c < 0 then some (.again (left + 1)) else some (.done left)

/-- `while ((*cmp) (mid, right_ptr, arg) < 0) right_ptr -= size`, and the same loop with `run_ptr` and
`tmp_ptr`. -/
def rightPass (xs : List α) (mid right : Nat) : Option (Pass Nat Nat) := do
  let c ← compareAt cmp xs mid right
  if c < 0 then (stepBack right).map .again else some (.done right)

/-- One pass of the `do ... while`: the array, `mid`, `left_ptr` and `right_ptr`. -/
def collapsePass (fuel : Nat) :
    List α × Nat × Nat × Nat → Option (Pass (List α × Nat × Nat × Nat) (List α × Nat × Nat))
  | (xs, mid, left, right) => do
      let left ← loop (leftPass cmp xs mid) fuel left
      let right ← loop (rightPass cmp xs mid) fuel right
      if left < right then
        let xs ← SWAP xs left right
        -- The pivot may be one of the two.
        let mid := if mid = left then right else if mid = right then left else mid
        let left := left + 1
        let right ← stepBack right
        if left ≤ right then some (.again (xs, mid, left, right)) else some (.done (xs, left, right))
      else if left = right then
        let right ← stepBack right
        some (.done (xs, left + 1, right))
      else some (.done (xs, left, right))

/-- What is sorted next after a partition: `lo`, `hi` and the stack. -/
def nextRange (lo hi left right : Nat) (top : Option (Nat × Nat)) (stack : SortStack) :
    Option (Option (Nat × Nat) × SortStack) :=
  if withinThresh right lo then
    -- Both sides are short: what waits on the stack comes next.
    if withinThresh hi left then some (top, stack)
    else some (some (left, hi), top :: stack)
  else if withinThresh hi left then some (some (lo, right), top :: stack)
  -- Of two long sides the larger waits.
  else if (right : Int) - lo > (hi : Int) - left then
    (PUSH (top :: stack) lo right).map fun stack => (some (left, hi), stack)
  else (PUSH (top :: stack) left hi).map fun stack => (some (lo, right), stack)

/-- One pass of `while (STACK_NOT_EMPTY)`: the array, `lo` and `hi`, and the stack. -/
def quickPass (fuel : Nat) :
    List α × Option (Nat × Nat) × SortStack →
      Option (Pass (List α × Option (Nat × Nat) × SortStack) (List α))
  | (xs, _, []) => some (.done xs)
  | (_, none, _ :: _) => none
  | (xs, some (lo, hi), top :: stack) => do
      let mid := lo + (hi - lo) / 2
      let xs ← medianOfThree cmp xs lo mid hi
      let right ← stepBack hi
      let (xs, left, right) ← loop (collapsePass cmp fuel) fuel (xs, mid, lo + 1, right)
      let (range, stack) ← nextRange lo hi left right top stack
      some (.again (xs, range, stack))

end Quick

section Insertion

variable (cmp : α → α → Int)

/-- The loop that looks for the smallest of the first elements: `run_ptr` and `tmp_ptr`. -/
def smallestPass (xs : List α) (thresh : Nat) : Nat × Nat → Option (Pass (Nat × Nat) Nat)
  | (run, tmp) =>
      if run ≤ thresh then do
        let c ← compareAt cmp xs run tmp
        some (.again (run + 1, if c < 0 then run else tmp))
      else some (.done tmp)

/-- `for (hi = lo = trav; (lo -= size) >= tmp_ptr; hi = lo) *hi = *lo` -/
def shiftPass (tmp : Nat) : List α × Nat → Option (Pass (List α × Nat) (List α × Nat))
  | (xs, hi) =>
      if tmp < hi then do
        let x ← xs[hi - 1]?
        some (.again (xs.set hi x, hi - 1))
      else some (.done (xs, hi))

/-- The element at `run` is moved down to `tmp`. -/
def insertDown (fuel : Nat) (xs : List α) (run tmp : Nat) : Option (List α) := do
  let c ← xs[run]?
  let (xs, hi) ← loop (shiftPass tmp) fuel (xs, run)
  some (xs.set hi c)

/-- One pass of `while ((run_ptr += size) <= end_ptr)`: the array and `run_ptr`. -/
def insertPass (fuel last : Nat) : List α × Nat → Option (Pass (List α × Nat) (List α))
  | (xs, run) =>
      let run := run + 1
      if run ≤ last then do
        let tmp ← loop (rightPass cmp xs run) fuel (run - 1)
        let tmp := tmp + 1
        let xs ← if tmp ≠ run then insertDown fuel xs run tmp else some xs
        some (.again (xs, run))
      else some (.done xs)

/-- What `quicksort` does with the array, in at most `fuel` passes of each loop. -/
def quicksort (fuel : Nat) (xs : List α) : Option (List α) :=
  if xs.length = 0 then some xs
  else do
    let last := xs.length - 1
    let xs ←
      if xs.length > MAX_THRESH then
        loop (quickPass cmp fuel) fuel (xs, some (0, last), [none])
      else some xs
    let tmp ← loop (smallestPass cmp xs (min last MAX_THRESH)) fuel (1, 0)
    let xs ← if tmp ≠ 0 then SWAP xs tmp 0 else some xs
    loop (insertPass cmp fuel last) fuel (xs, 1)

end Insertion

end Stdlib
end EmbeddedOS
