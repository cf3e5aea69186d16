import EmbeddedOS.Base.Runs
import Mathlib.Data.Set.Insert
import Mathlib.Data.List.ReduceOption

/-!
# Taking items from a set

An allocator reduced to the set of its free items: a call takes a free one, or finds none left.
Over any run the items taken are distinct, were free at the start and are no longer free at the
end.
-/

namespace EmbeddedOS
namespace Base

universe u

variable {α : Type u} {free free' : Set α} {rs : List (Option α)}

/-- One call, with the item it returns. -/
inductive Takes : Set α → Option α → Set α → Prop where
  | item {free : Set α} {b : α} (h : b ∈ free) : Takes free (some b) (free \ {b})
  | nothing {free : Set α} (h : free = ∅) : Takes free none free

theorem Takes.subset {r : Option α} (h : Takes free r free') : free' ⊆ free := by
  cases h with
  | item _ =>
      intro b hb
      exact hb.1
  | nothing _ => exact Set.Subset.refl free

/-- The items taken in a run are free at its start. -/
theorem Run.taken_mem (h : Run Takes free rs free') {b : α} (hb : some b ∈ rs) : b ∈ free := by
  induction h with
  | nil _ => simp at hb
  | cons hstep _ ih =>
      rcases List.mem_cons.mp hb with hhead | htail
      · subst hhead
        cases hstep with
        | item hmem => exact hmem
      · exact hstep.subset (ih htail)

/-- No item is taken twice. -/
theorem Run.taken_nodup (h : Run Takes free rs free') : rs.reduceOption.Nodup := by
  induction h with
  | nil _ => exact List.nodup_nil
  | cons hstep hrest ih =>
      cases hstep with
      | nothing _ => exact ih
      | item hmem =>
          rw [List.reduceOption_cons_of_some, List.nodup_cons]
          refine ⟨?_, ih⟩
          intro htwice
          have hlater := hrest.taken_mem (List.reduceOption_mem_iff.mp htwice)
          exact hlater.2 rfl

end Base
end EmbeddedOS
