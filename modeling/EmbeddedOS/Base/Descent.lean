import Mathlib.Logic.Relation

/-!
# Descents that end

A property that holds at a node and at all nodes below it, along descents all of which end: as an
inductive predicate, for proofs along the descent, and as well-foundedness together with the
property of every node that is reached.
-/

namespace EmbeddedOS
namespace Base

universe u

variable {α : Type u}

/-- `P` holds at the node and below it, and every descent along `r` ends. -/
inductive Throughout (r : α → α → Prop) (P : α → Prop) : α → Prop
  | mk {a : α} (here : P a) (below : ∀ b, r b a → Throughout r P b) : Throughout r P a

namespace Throughout

variable {r : α → α → Prop} {P : α → Prop} {a : α}

theorem acc (h : Throughout r P a) : Acc r a := by
  induction h with
  | mk _ _ ih => exact Acc.intro _ ih

theorem reached (h : Throughout r P a) {b : α} (hb : Relation.ReflTransGen r b a) : P b := by
  induction h with
  | mk here _ ih =>
      rcases Relation.ReflTransGen.cases_tail hb with rfl | ⟨c, hbc, hca⟩
      · exact here
      · exact ih c hca hbc

theorem of_acc (hacc : Acc r a) (h : ∀ b, Relation.ReflTransGen r b a → P b) :
    Throughout r P a := by
  induction hacc with
  | intro a _ ih =>
      refine .mk (h a Relation.ReflTransGen.refl) ?_
      intro b hb
      exact ih b hb fun c hc => h c (hc.tail hb)

theorem iff_acc :
    Throughout r P a ↔ Acc r a ∧ ∀ b, Relation.ReflTransGen r b a → P b := by
  constructor
  · intro h
    exact ⟨h.acc, fun b => h.reached⟩
  · rintro ⟨hacc, h⟩
    exact of_acc hacc h

end Throughout

end Base
end EmbeddedOS
