import Mathlib.Algebra.Notation.Defs
import Mathlib.Tactic.ByContra

/-!
# Trees of index blocks

Blocks of a store refer to each other through their entries. Some roots lead into it, each over a
fixed number of levels, and an entry is reached by a path of indices. The value `0` refers to
nothing, and nothing lies below it. When no block is used in two places, setting an entry changes
what one path leads to.
-/

namespace EmbeddedOS
namespace Base

variable {ρ β σ ι : Type}

/-- The roots, how many indices lead from each of them to the end, and the entries of the blocks. -/
structure IndexTree (ρ β ι : Type) where
  root : ρ → β
  depth : ρ → Nat
  entry : β → ι → β

namespace IndexTree

variable [Zero β] [DecidableEq β] {T T' : IndexTree ρ β ι} {place : β → σ} {r r' : ρ} {is js : List ι}
  {i : ι} {v : β}

/-- What a path leads to. The last index comes first. -/
def walk (T : IndexTree ρ β ι) (r : ρ) : List ι → β
  | [] => T.root r
  | i :: is => if T.walk r is = 0 then 0 else T.entry (T.walk r is) i

theorem walk_cons_missing (h : T.walk r is = 0) : T.walk r (i :: is) = 0 :=
  if_pos h

theorem walk_cons_present (h : T.walk r is ≠ 0) : T.walk r (i :: is) = T.entry (T.walk r is) i :=
  if_neg h

/-- The block `b` is on a path, and not at its end. -/
def Node (T : IndexTree ρ β ι) (b : β) : Prop :=
  b ≠ 0 ∧ ∃ r is, is.length < T.depth r ∧ T.walk r is = b

/-- No place holds two blocks of the tree, and no block is used twice. -/
def Unshared (T : IndexTree ρ β ι) (place : β → σ) : Prop :=
  ∀ r is r' is', is.length < T.depth r → is'.length < T.depth r' → T.walk r is ≠ 0 →
    place (T.walk r is) = place (T.walk r' is') → T.walk r' is' ≠ 0 → r = r' ∧ is = is'

/-- `T'` is `T` with `v` as entry `i` of the block at the end of `is`, as far as the blocks of `T`
are concerned. -/
structure SetAt (T T' : IndexTree ρ β ι) (place : β → σ) (r : ρ) (is : List ι) (i : ι) (v : β) :
    Prop where
  root : T'.root = T.root
  depth : T'.depth = T.depth
  inner : is.length < T.depth r
  present : T.walk r is ≠ 0
  here : T'.entry (T.walk r is) i = v
  there : ∀ b j, T.Node b → place b ≠ place (T.walk r is) ∨ j ≠ i → T'.entry b j = T.entry b j
  below : is.length + 1 < T.depth r → T.walk r (i :: is) = 0 ∧ ∀ j, T'.entry v j = 0

/-- **One entry is set.** The path to it leads to the new value, and every other path to where it
led before. -/
theorem SetAt.walk_eq [DecidableEq ρ] [DecidableEq ι] (hset : SetAt T T' place r is i v)
    (hU : T.Unshared place) (hlen : js.length ≤ T.depth r') :
    T'.walk r' js = if r' = r ∧ js = i :: is then v else T.walk r' js := by
  induction js with
  | nil =>
      rw [if_neg (by simp)]
      exact congrFun hset.root r'
  | cons j js ih =>
      have hinner : js.length < T.depth r' := hlen
      have ih := ih (Nat.le_of_lt hinner)
      by_cases hat : r' = r ∧ js = i :: is
      · -- Below the entry: there was nothing, and the new block is empty.
        rcases hat with ⟨rfl, rfl⟩
        rw [if_pos ⟨rfl, rfl⟩] at ih
        rcases hset.below hinner with ⟨hmissing, hempty⟩
        have hlonger : ¬ (r' = r' ∧ j :: i :: is = i :: is) := by
          rintro ⟨-, h⟩
          exact absurd (congrArg List.length h) (by simp)
        rw [if_neg hlonger, walk_cons_missing hmissing]
        by_cases hv : v = 0
        · exact walk_cons_missing (ih.trans hv)
        · rw [walk_cons_present (ih.symm ▸ hv), ih, hempty]
      · rw [if_neg hat] at ih
        by_cases hmissing : T.walk r' js = 0
        · rw [walk_cons_missing (ih.trans hmissing), walk_cons_missing hmissing, if_neg]
          rintro ⟨rfl, h⟩
          rw [List.cons.injEq] at h
          exact hset.present (h.2 ▸ hmissing)
        · rw [walk_cons_present (ih.symm ▸ hmissing), ih, walk_cons_present hmissing]
          by_cases hhere : r' = r ∧ j :: js = i :: is
          · rw [if_pos hhere]
            rcases hhere with ⟨rfl, h⟩
            rw [List.cons.injEq] at h
            rw [h.1, h.2]
            exact hset.here
          · rw [if_neg hhere]
            refine hset.there _ _ ⟨hmissing, r', js, hinner, rfl⟩ ?_
            by_contra hboth
            rw [not_or, not_not, not_not] at hboth
            rcases hU r' js r is hinner hset.inner hmissing hboth.1 hset.present with ⟨rfl, rfl⟩
            exact hhere ⟨rfl, by rw [hboth.2]⟩

/-- A new block in a place of its own leaves no block used twice. -/
theorem SetAt.unshared [DecidableEq ρ] [DecidableEq ι] (hset : SetAt T T' place r is i v)
    (hU : T.Unshared place) (hfresh : ∀ b, T.Node b → place b ≠ place v) : T'.Unshared place := by
  intro r₁ is₁ r₂ is₂ hlen₁ hlen₂ h₁ hplace h₂
  rw [hset.depth] at hlen₁ hlen₂
  have hwalk₁ := hset.walk_eq hU (Nat.le_of_lt hlen₁)
  have hwalk₂ := hset.walk_eq hU (Nat.le_of_lt hlen₂)
  rw [hwalk₁] at h₁ hplace
  rw [hwalk₂] at h₂ hplace
  by_cases hat₁ : r₁ = r ∧ is₁ = i :: is <;> by_cases hat₂ : r₂ = r ∧ is₂ = i :: is
  · exact ⟨hat₁.1.trans hat₂.1.symm, hat₁.2.trans hat₂.2.symm⟩
  · rw [if_pos hat₁, if_neg hat₂] at hplace
    rw [if_neg hat₂] at h₂
    exact absurd hplace.symm (hfresh _ ⟨h₂, r₂, is₂, hlen₂, rfl⟩)
  · rw [if_neg hat₁, if_pos hat₂] at hplace
    rw [if_neg hat₁] at h₁
    exact absurd hplace (hfresh _ ⟨h₁, r₁, is₁, hlen₁, rfl⟩)
  · rw [if_neg hat₁] at h₁ hplace
    rw [if_neg hat₂] at h₂ hplace
    exact hU r₁ is₁ r₂ is₂ hlen₁ hlen₂ h₁ hplace h₂

end IndexTree

end Base
end EmbeddedOS
