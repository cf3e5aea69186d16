import EmbeddedOS.Base.RedBlack
import EmbeddedOS.Base.Sorting

/-!
# Searching and walking a tree

A search descends a tree whose elements are in order, and what it finds is a matter of the list of
elements alone. So is the neighbour of a node, in order or in postorder, seen from the node itself.
-/

namespace EmbeddedOS
namespace Base
namespace RedBlack

open BinTree

universe u

variable {α : Type u}

/-! ## Strict weak orders -/

/-- `less` compares by a key. -/
structure StrictWeak (less : α → α → Bool) : Prop where
  asymm : ∀ x y, less x y = true → less y x = false
  split : ∀ x y z, less x z = true → less x y = true ∨ less y z = true

/-- No element is less than one before it. -/
def Ordered (less : α → α → Bool) (xs : List α) : Prop :=
  xs.Pairwise fun x y => less y x = false

/-- The new element comes before the first one that it is less than. -/
def insertInto (less : α → α → Bool) (a : α) (xs : List α) : List α :=
  xs.takeWhile (fun x => !less a x) ++ a :: xs.dropWhile (fun x => !less a x)

section Order

variable {less : α → α → Bool} {xs ys : List α} {a : α}

theorem StrictWeak.trans_false (h : StrictWeak less) {x y z : α} (hxy : less x y = false)
    (hyz : less y z = false) : less x z = false := by
  cases hxz : less x z with
  | false => rfl
  | true =>
      rcases h.split x y z hxz with h' | h'
      · rw [hxy] at h'
        cases h'
      · rw [hyz] at h'
        cases h'

/-- `cmp` is the comparison that `less` belongs to. -/
def Compares (less : α → α → Bool) (cmp : α → α → Int) : Prop :=
  ∀ x y, (cmp x y < 0 ↔ less x y = true) ∧ (0 < cmp x y ↔ less y x = true)

/-- A list in order is in order for every key that is an element. -/
theorem Ordered.sortedFor {cmp : α → α → Int} (h : StrictWeak less) (hcmp : Compares less cmp)
    (hxs : Ordered less xs) (a : α) : SortedFor (cmp a) xs := by
  refine hxs.imp fun {x y} hyx => ⟨fun hax => ?_, fun hax => ?_⟩
  · rw [(hcmp a x).1] at hax
    rw [(hcmp a y).1]
    rcases h.split a y x hax with h' | h'
    · exact h'
    · rw [hyx] at h'
      cases h'
  · by_contra hpos
    have hya : less y a = true := (hcmp a y).2.mp (by omega)
    rcases h.split y x a hya with h' | h'
    · rw [hyx] at h'
      cases h'
    · have := (hcmp a x).2.mpr h'
      omega

/-- In order, whatever `a` is less than comes after everything it is not less than. -/
theorem Ordered.split (h : StrictWeak less) (hxs : Ordered less xs) :
    xs.Pairwise fun x y => less a x = true → less a y = true := by
  refine hxs.imp fun {x y} hyx hax => ?_
  rcases h.split a y x hax with h' | h'
  · exact h'
  · rw [hyx] at h'
    cases h'

theorem perm_insertInto : (insertInto less a xs).Perm (a :: xs) := by
  have hsplit : xs = xs.takeWhile (fun x => !less a x) ++ xs.dropWhile (fun x => !less a x) :=
    List.takeWhile_append_dropWhile.symm
  conv => rhs; rw [hsplit]
  exact List.perm_middle

theorem insertInto_append (hxs : ∀ x ∈ xs, less a x = false) (hys : ∀ y ∈ ys, less a y = true) :
    insertInto less a (xs ++ ys) = xs ++ a :: ys := by
  have htake : ∀ x ∈ xs, (!less a x) = true := by
    intro x hx
    rw [hxs x hx]
    rfl
  rw [insertInto, List.takeWhile_append_of_pos htake, List.dropWhile_append_of_pos htake]
  cases ys with
  | nil => simp
  | cons y ys => simp [hys y List.mem_cons_self]

/-- The elements that `a` is less than are those from some place on. -/
theorem exists_split {p : α → Bool} (h : xs.Pairwise fun x y => p x = true → p y = true) :
    ∃ ys zs, ys ++ zs = xs ∧ (∀ y ∈ ys, p y = false) ∧ ∀ z ∈ zs, p z = true := by
  induction xs with
  | nil => exact ⟨[], [], rfl, by simp, by simp⟩
  | cons x xs ih =>
      rw [List.pairwise_cons] at h
      cases hx : p x with
      | true =>
          refine ⟨[], x :: xs, rfl, by simp, ?_⟩
          intro z hz
          rcases List.mem_cons.mp hz with rfl | hz
          · exact hx
          · exact h.1 z hz hx
      | false =>
          obtain ⟨ys, zs, rfl, hys, hzs⟩ := ih h.2
          refine ⟨x :: ys, zs, rfl, ?_, hzs⟩
          intro y hy
          rcases List.mem_cons.mp hy with rfl | hy
          · exact hx
          · exact hys y hy

/-- An ordered list stays in order. -/
theorem Ordered.insertInto (h : StrictWeak less) (hxs : Ordered less xs) :
    Ordered less (insertInto less a xs) := by
  obtain ⟨ys, zs, rfl, hys, hzs⟩ := exists_split (hxs.split h (a := a))
  rw [insertInto_append hys hzs]
  obtain ⟨hord, hord', hcross⟩ := List.pairwise_append.mp hxs
  refine List.pairwise_append.mpr ⟨hord, List.pairwise_cons.mpr ⟨?_, hord'⟩, ?_⟩
  · exact fun z hz => h.asymm a z (hzs z hz)
  · intro y hy z hz
    rcases List.mem_cons.mp hz with rfl | hz
    · exact hys y hy
    · exact hcross y hy z hz

theorem Ordered.erase [DecidableEq α] (hxs : Ordered less xs) : Ordered less (xs.erase a) :=
  hxs.sublist List.erase_sublist

end Order

/-! ## The descent to a free place -/

/-- The frames on the way down to where `left` leads. -/
def descend (left : α → Bool) : BinTree α → List (Frame α) → List (Frame α)
  | .nil, fs => fs
  | .node c l a r, fs =>
      if left a = true then descend left l (⟨.left, c, a, r⟩ :: fs)
      else descend left r (⟨.right, c, a, l⟩ :: fs)

section Descend

variable {left : α → Bool} {t : BinTree α} {fs : List (Frame α)}

theorem plug_descend (left : α → Bool) (t : BinTree α) (fs : List (Frame α)) :
    plug .nil (descend left t fs) = plug t fs := by
  induction t generalizing fs with
  | nil => rfl
  | node c l a r ihl ihr =>
      rw [descend]
      by_cases h : left a = true
      · rw [if_pos h, ihl]
        rfl
      · rw [if_neg h, ihr]
        rfl

/-- What is left of the place is not to be right of it, and the other way round. -/
theorem descend_spec (fs : List (Frame α))
    (hmono : t.toList.Pairwise fun x y => left x = true → left y = true) :
    ∃ xs ys, before (descend left t fs) = before fs ++ xs ∧
      after (descend left t fs) = ys ++ after fs ∧ xs ++ ys = t.toList ∧
      (∀ x ∈ xs, left x = false) ∧ ∀ y ∈ ys, left y = true := by
  induction t generalizing fs with
  | nil => exact ⟨[], [], by simp [descend], by simp [descend], rfl, by simp, by simp⟩
  | node c l a r ihl ihr =>
      rw [toList_node, List.pairwise_append, List.pairwise_cons] at hmono
      obtain ⟨hl, ⟨har, hr⟩, hlr⟩ := hmono
      rw [descend]
      by_cases h : left a = true
      · rw [if_pos h]
        obtain ⟨xs, ys, hbefore, hafter, hlist, hxs, hys⟩ := ihl (⟨.left, c, a, r⟩ :: fs) hl
        refine ⟨xs, ys ++ a :: r.toList, hbefore, ?_, ?_, hxs, ?_⟩
        · rw [hafter]
          simp [after]
        · rw [← List.append_assoc, hlist, toList_node]
        · intro y hy
          rcases List.mem_append.mp hy with hy | hy
          · exact hys y hy
          · rcases List.mem_cons.mp hy with rfl | hy
            · exact h
            · exact har y hy h
      · rw [if_neg h]
        obtain ⟨xs, ys, hbefore, hafter, hlist, hxs, hys⟩ := ihr (⟨.right, c, a, l⟩ :: fs) hr
        refine ⟨l.toList ++ a :: xs, ys, ?_, hafter, ?_, ?_, hys⟩
        · rw [hbefore]
          simp [before]
        · rw [toList_node, ← hlist, List.append_assoc]
          rfl
        · intro x hx
          rcases List.mem_append.mp hx with hx | hx
          · rw [Bool.eq_false_iff]
            exact fun hleft => h (hlr x hx a List.mem_cons_self hleft)
          · rcases List.mem_cons.mp hx with rfl | hx
            · exact Bool.eq_false_iff.mpr h
            · exact hxs x hx

end Descend

/-! ## The search for a key -/

/-- The descent that a key leads, and where it ends. `cmp a` is the sign of the key against `a`. -/
def seek (cmp : α → Int) : BinTree α → Option α
  | .nil => none
  | .node _ l a r => if cmp a < 0 then seek cmp l else if cmp a > 0 then seek cmp r else some a

/-- The descent that goes left from every match, and the last match on it. -/
def seekFirst (cmp : α → Int) : BinTree α → Option α → Option α
  | .nil, found => found
  | .node _ l a r, found =>
      if cmp a ≤ 0 then seekFirst cmp l (if cmp a = 0 then some a else found)
      else seekFirst cmp r found

section Seek

variable {cmp : α → Int} {t : BinTree α} {found : Option α} {a : α}

theorem seek_sound (h : seek cmp t = some a) : a ∈ t.toList ∧ cmp a = 0 := by
  induction t with
  | nil => cases h
  | node c l b r ihl ihr =>
      rw [seek] at h
      rw [toList_node, List.mem_append, List.mem_cons]
      by_cases hneg : cmp b < 0
      · rw [if_pos hneg] at h
        exact ⟨.inl (ihl h).1, (ihl h).2⟩
      · rw [if_neg hneg] at h
        by_cases hpos : cmp b > 0
        · rw [if_pos hpos] at h
          exact ⟨.inr (.inr (ihr h).1), (ihr h).2⟩
        · rw [if_neg hpos] at h
          cases h
          exact ⟨.inr (.inl rfl), by omega⟩

/-- In an ordered tree the search does not miss a match. -/
theorem seek_none (hord : SortedFor cmp t.toList) (h : seek cmp t = none) :
    ∀ x ∈ t.toList, cmp x ≠ 0 := by
  induction t with
  | nil => simp
  | node c l b r ihl ihr =>
      rw [SortedFor, toList_node, List.pairwise_append, List.pairwise_cons] at hord
      obtain ⟨hl, ⟨hbr, hr⟩, hlr⟩ := hord
      rw [seek] at h
      intro x hx
      rw [toList_node, List.mem_append, List.mem_cons] at hx
      by_cases hneg : cmp b < 0
      · rw [if_pos hneg] at h
        rcases hx with hx | rfl | hx
        · exact ihl hl h x hx
        · omega
        · have := (hbr x hx).1 hneg
          omega
      · rw [if_neg hneg] at h
        by_cases hpos : cmp b > 0
        · rw [if_pos hpos] at h
          rcases hx with hx | rfl | hx
          · have := (hlr x hx b List.mem_cons_self).2
            omega
          · omega
          · exact ihr hr h x hx
        · rw [if_neg hpos] at h
          cases h

/-- **The first match in order** is what the other search finds. -/
theorem seekFirst_eq (hord : SortedFor cmp t.toList) :
    seekFirst cmp t found = (t.toList.find? fun x => cmp x = 0).or found := by
  induction t generalizing found with
  | nil => rfl
  | node c l b r ihl ihr =>
      rw [SortedFor, toList_node, List.pairwise_append, List.pairwise_cons] at hord
      obtain ⟨hl, ⟨hbr, hr⟩, hlr⟩ := hord
      rw [seekFirst, toList_node, List.find?_append, List.find?_cons]
      by_cases hle : cmp b ≤ 0
      · rw [if_pos hle, ihl hl]
        by_cases hzero : cmp b = 0
        · simp [hzero]
        · have hright : r.toList.find? (fun x => decide (cmp x = 0)) = none := by
            rw [List.find?_eq_none]
            intro x hx
            have := (hbr x hx).1 (by omega)
            simp only [decide_eq_true_eq]
            omega
          simp [hzero, hright]
      · rw [if_neg hle, ihr hr]
        have hleft : l.toList.find? (fun x => decide (cmp x = 0)) = none := by
          rw [List.find?_eq_none]
          intro x hx
          have := (hlr x hx b List.mem_cons_self).2
          simp only [decide_eq_true_eq]
          omega
        have hzero : cmp b ≠ 0 := by omega
        simp [hzero, hleft]

end Seek

/-- In a list in order for a key the matches are next to each other. -/
theorem matches_together {cmp : α → Int} {xs : List α} (h : SortedFor cmp xs) :
    ∃ us zs vs, us ++ (zs ++ vs) = xs ∧ (∀ u ∈ us, 0 < cmp u) ∧ (∀ z ∈ zs, cmp z = 0) ∧
      ∀ v ∈ vs, cmp v < 0 := by
  obtain ⟨us, ys, rfl, hus, hys⟩ := exists_split (p := fun x => decide (cmp x ≤ 0))
    (h.imp fun hxy hx => decide_eq_true (hxy.2 (of_decide_eq_true hx)))
  have hlater : SortedFor cmp ys := (List.pairwise_append.mp h).2.1
  obtain ⟨zs, vs, rfl, hzs, hvs⟩ := exists_split (p := fun x => decide (cmp x < 0))
    (hlater.imp fun hxy hx => decide_eq_true (hxy.1 (of_decide_eq_true hx)))
  refine ⟨us, zs, vs, rfl, ?_, ?_, fun v hv => of_decide_eq_true (hvs v hv)⟩
  · intro u hu
    have := of_decide_eq_false (hus u hu)
    omega
  · intro z hz
    have hle := of_decide_eq_true (hys z (List.mem_append_left vs hz))
    have hnot := of_decide_eq_false (hzs z hz)
    omega

/-! ## Postorder -/

/-- Children before their parent. -/
def BinTree.postorder : BinTree α → List α
  | .nil => []
  | .node _ l a r => l.postorder ++ (r.postorder ++ [a])

/-- What comes after a hole in postorder. -/
def postAfter : List (Frame α) → List α
  | [] => []
  | f :: fs =>
      match f.side with
      | .left => f.sibling.postorder ++ f.elem :: postAfter fs
      | .right => f.elem :: postAfter fs

/-- What comes before it. -/
def postBefore : List (Frame α) → List α
  | [] => []
  | f :: fs =>
      match f.side with
      | .left => postBefore fs
      | .right => postBefore fs ++ f.sibling.postorder

theorem postorder_plug (t : BinTree α) (fs : List (Frame α)) :
    (plug t fs).postorder = postBefore fs ++ t.postorder ++ postAfter fs := by
  induction fs generalizing t with
  | nil => simp [postBefore, postAfter]
  | cons f fs ih =>
      rw [plug_cons, ih]
      obtain ⟨s, c, a, sib⟩ := f
      cases s <;> simp [Frame.fill, nodeOn, postorder, postBefore, postAfter]

theorem postorder_perm (t : BinTree α) : t.postorder.Perm t.toList := by
  induction t with
  | nil => exact List.Perm.refl _
  | node c l a r ihl ihr =>
      rw [postorder, toList_node]
      refine ihl.append ((List.perm_append_singleton a r.postorder).trans (ihr.cons a))

end RedBlack
end Base
end EmbeddedOS
