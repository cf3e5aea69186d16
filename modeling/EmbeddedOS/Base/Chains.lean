import Mathlib.Data.List.Induction
import Mathlib.Data.List.Nodup
import Mathlib.Logic.Function.Basic

/-!
# Chains of cells

Cells with two links and a value, and the doubly linked chains that they form: from one end to the
other, each cell has its neighbours in its links. What a chain needs of the store are its own cells.
-/

namespace EmbeddedOS
namespace Base

universe u

structure Cell (α : Type u) where
  prev : Nat
  next : Nat
  value : α
  deriving DecidableEq, Repr

/-- The cells by address. -/
abbrev Cells (α : Type u) := Nat → Option (Cell α)

/-- The addresses that following one link visits, up to the null address. -/
def Follows {α : Type u} (link : Cell α → Nat) (cells : Cells α) : Nat → List Nat → Prop
  | p, [] => p = 0
  | p, q :: qs => p = q ∧ p ≠ 0 ∧ ∃ c, cells p = some c ∧ Follows link cells (link c) qs

/-- The cells from `first` to `last` are chained up, between `before` and `after`. -/
def Chain {α : Type u} (cells : Cells α) (first before : Nat) :
    List (Nat × α) → Nat → Nat → Prop
  | [], last, after => first = after ∧ last = before
  | (a, v) :: es, last, after =>
      first = a ∧ a ≠ 0 ∧ ∃ next, cells a = some ⟨before, next, v⟩ ∧
        Chain cells next a es last after

/-- The addresses of a chain. -/
abbrev addresses {α : Type u} (es : List (Nat × α)) : List Nat := es.map Prod.fst

variable {α : Type u} {cells cells' : Cells α} {first before last after : Nat}
  {es es' : List (Nat × α)} {a : Nat} {v : α}

theorem nodup_concat :
    (addresses (es ++ [(a, v)])).Nodup ↔ a ∉ addresses es ∧ (addresses es).Nodup := by
  rw [addresses, List.map_append, List.nodup_append_comm]
  exact List.nodup_cons

namespace Chain

/-- A chain depends on its own cells only. -/
theorem frame (h : Chain cells first before es last after)
    (hsame : ∀ b ∈ addresses es, cells' b = cells b) : Chain cells' first before es last after := by
  induction es generalizing first before with
  | nil => exact h
  | cons e es ih =>
      rcases h with ⟨hfirst, hnull, next, hcell, hrest⟩
      refine ⟨hfirst, hnull, next, ?_, ih hrest fun b hb => hsame b (List.mem_cons_of_mem _ hb)⟩
      rw [hsame e.1 List.mem_cons_self, hcell]

theorem frame_update (h : Chain cells first before es last after) (ha : a ∉ addresses es)
    (c : Option (Cell α)) : Chain (Function.update cells a c) first before es last after :=
  h.frame fun _ hb => Function.update_of_ne (ne_of_mem_of_not_mem hb ha) _ _

end Chain

theorem chain_append : Chain cells first before (es ++ es') last after ↔
    ∃ middle back, Chain cells first before es back middle ∧
      Chain cells middle back es' last after := by
  induction es generalizing first before with
  | nil =>
      constructor
      · intro h
        exact ⟨first, before, ⟨rfl, rfl⟩, h⟩
      · rintro ⟨middle, back, ⟨rfl, rfl⟩, h⟩
        exact h
  | cons e es ih =>
      constructor
      · rintro ⟨hfirst, hnull, next, hcell, hrest⟩
        rcases ih.mp hrest with ⟨middle, back, hfront, htail⟩
        exact ⟨middle, back, ⟨hfirst, hnull, next, hcell, hfront⟩, htail⟩
      · rintro ⟨middle, back, ⟨hfirst, hnull, next, hcell, hfront⟩, htail⟩
        exact ⟨hfirst, hnull, next, hcell, ih.mpr ⟨middle, back, hfront, htail⟩⟩

/-- The last cell of a chain. -/
theorem chain_concat : Chain cells first before (es ++ [(a, v)]) last after ↔
    ∃ back, Chain cells first before es back a ∧ a ≠ 0 ∧ cells a = some ⟨back, after, v⟩ ∧
      last = a := by
  rw [chain_append]
  constructor
  · rintro ⟨middle, back, hfront, rfl, hnull, next, hcell, rfl, rfl⟩
    exact ⟨back, hfront, hnull, hcell, rfl⟩
  · rintro ⟨back, hfront, hnull, hcell, rfl⟩
    exact ⟨last, back, hfront, rfl, hnull, after, hcell, rfl, rfl⟩

namespace Chain

/-- Another cell behind the last one. -/
theorem setNext (h : Chain cells first before (es ++ [(a, v)]) last after) (ha : a ∉ addresses es)
    (after' : Nat) :
    ∃ c, cells a = some c ∧
      Chain (Function.update cells a (some { c with next := after' })) first before
        (es ++ [(a, v)]) last after' := by
  rcases chain_concat.mp h with ⟨back, hfront, hnull, hcell, hlast⟩
  refine ⟨_, hcell, chain_concat.mpr ⟨back, hfront.frame_update ha _, hnull, ?_, hlast⟩⟩
  rw [Function.update_self]

/-- Another cell in front of the first one. -/
theorem setPrev (h : Chain cells first before ((a, v) :: es) last after) (ha : a ∉ addresses es)
    (before' : Nat) :
    ∃ c, cells a = some c ∧
      Chain (Function.update cells a (some { c with prev := before' })) first before'
        ((a, v) :: es) last after := by
  rcases h with ⟨hfirst, hnull, next, hcell, hrest⟩
  refine ⟨_, hcell, hfirst, hnull, next, ?_, hrest.frame_update ha _⟩
  rw [Function.update_self]

theorem live (h : Chain cells first before es last after) {b : Nat} (hb : b ∈ addresses es) :
    b ≠ 0 ∧ ∃ c, cells b = some c := by
  induction es generalizing first before with
  | nil => cases hb
  | cons e es ih =>
      rcases h with ⟨_, hnull, next, hcell, hrest⟩
      rcases List.mem_cons.mp hb with rfl | hb
      · exact ⟨hnull, _, hcell⟩
      · exact ih hrest hb

theorem values (h : Chain cells first before es last after) :
    ∀ e ∈ es, ∃ c, cells e.1 = some c ∧ c.value = e.2 := by
  induction es generalizing first before with
  | nil =>
      intro e he
      cases he
  | cons e' es ih =>
      rcases h with ⟨_, _, next, hcell, hrest⟩
      intro e he
      rcases List.mem_cons.mp he with rfl | he
      · exact ⟨_, hcell, rfl⟩
      · exact ih hrest e he

theorem forward (h : Chain cells first before es last 0) :
    Follows Cell.next cells first (addresses es) := by
  induction es generalizing first before with
  | nil => exact h.1
  | cons e es ih =>
      rcases h with ⟨rfl, hnull, next, hcell, hrest⟩
      exact ⟨rfl, hnull, _, hcell, ih hrest⟩

theorem backward (h : Chain cells first 0 es last after) :
    Follows Cell.prev cells last (addresses es).reverse := by
  -- From the last cell on, as the links lead.
  induction es using List.reverseRecOn generalizing last after with
  | nil => exact h.2
  | append_singleton es e ih =>
      rcases chain_concat.mp h with ⟨back, hfront, hnull, hcell, rfl⟩
      rw [addresses, List.map_append, List.reverse_append]
      exact ⟨rfl, hnull, _, hcell, ih hfront⟩

/-- The null address ends an empty chain only. -/
theorem first_eq_zero (h : Chain cells first before es last 0) : first = 0 ↔ es = [] := by
  cases es with
  | nil => simp [h.1]
  | cons e es =>
      rcases h with ⟨rfl, hnull, _⟩
      simp [hnull]

theorem last_eq_zero (h : Chain cells first 0 es last after) : last = 0 ↔ es = [] := by
  rcases List.eq_nil_or_concat es with rfl | ⟨es', e, rfl⟩
  · simp [h.2]
  · rw [List.concat_eq_append] at h ⊢
    rcases chain_concat.mp h with ⟨_, _, hnull, _, rfl⟩
    simp [hnull]

theorem first_mem (h : Chain cells first before es last after) (hne : es ≠ []) :
    first ∈ addresses es := by
  obtain ⟨e, es, rfl⟩ := List.exists_cons_of_ne_nil hne
  rw [h.1]
  exact List.mem_cons_self

theorem last_mem (h : Chain cells first before es last after) (hne : es ≠ []) :
    last ∈ addresses es := by
  obtain ⟨es, e, rfl⟩ := (List.eq_nil_or_concat es).resolve_left hne
  rw [List.concat_eq_append] at h ⊢
  obtain ⟨_, _, _, _, rfl⟩ := chain_concat.mp h
  simp

end Chain

/-- The last cell visited has no other behind it. -/
theorem Follows.ends {link : Cell α → Nat} {p : Nat} {qs : List Nat}
    (h : Follows link cells p (qs ++ [a])) : ∃ c, cells a = some c ∧ link c = 0 := by
  induction qs generalizing p with
  | nil =>
      rcases h with ⟨rfl, _, c, hcell, hend⟩
      exact ⟨c, hcell, hend⟩
  | cons q qs ih =>
      rcases h with ⟨_, _, c, _, hrest⟩
      exact ih hrest

end Base
end EmbeddedOS
