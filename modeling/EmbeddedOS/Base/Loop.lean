/-!
# Loops

A loop whose body is undefined, goes round again or leaves with a result, run for a bounded number
of passes. That it returns is a statement about some bound, and then about every larger one. Where
a pass leaves a trace, that of the loop is the traces of its passes one behind the other.
-/

namespace EmbeddedOS
namespace Base

universe u v

/-- What one pass of a loop does. -/
inductive Pass (σ : Type u) (ρ : Type v) where
  | again (s : σ)
  | done (r : ρ)

variable {σ : Type u} {ρ : Type v} (body : σ → Option (Pass σ ρ))

/-- The loop, for at most `fuel` passes. -/
def loop : Nat → σ → Option ρ
  | 0, _ => none
  | fuel + 1, s =>
      match body s with
      | some (.again t) => loop fuel t
      | some (.done r) => some r
      | none => none

/-- The loop comes to an end, with result `r`. -/
def Returns (s : σ) (r : ρ) : Prop :=
  ∃ fuel, loop body fuel s = some r

variable {body} {s t : σ} {r r' : ρ} {fuel : Nat}

theorem loop_again (h : body s = some (.again t)) : loop body (fuel + 1) s = loop body fuel t := by
  rw [loop, h]

theorem loop_done (h : body s = some (.done r)) : loop body (fuel + 1) s = some r := by
  rw [loop, h]

theorem loop_undefined (h : body s = none) : loop body fuel s = none := by
  cases fuel with
  | zero => rfl
  | succ fuel => rw [loop, h]

/-- More passes change nothing once the loop has returned. -/
theorem loop_mono {more : Nat} (h : loop body fuel s = some r) (hle : fuel ≤ more) :
    loop body more s = some r := by
  induction fuel generalizing s more with
  | zero => cases h
  | succ fuel ih =>
      obtain ⟨more, rfl⟩ : ∃ m, more = m + 1 := ⟨more - 1, by omega⟩
      cases hbody : body s with
      | none =>
          rw [loop_undefined hbody] at h
          cases h
      | some pass =>
          cases pass with
          | again t =>
              rw [loop_again hbody] at h ⊢
              exact ih h (Nat.le_of_succ_le_succ hle)
          | done r =>
              rw [loop_done hbody] at h ⊢
              exact h

/-- A loop whose passes keep an invariant and lower a bound leaves with what the last pass gives. -/
theorem loop_variant {I : σ → Prop} {P : ρ → Prop} (bound : σ → Nat)
    (hpass : ∀ s, I s → (∃ t, body s = some (.again t) ∧ I t ∧ bound t < bound s) ∨
      ∃ r, body s = some (.done r) ∧ P r)
    (hs : I s) (hfuel : bound s < fuel) : ∃ r, loop body fuel s = some r ∧ P r := by
  induction fuel generalizing s with
  | zero => exact absurd hfuel (Nat.not_lt_zero _)
  | succ fuel ih =>
      rcases hpass s hs with ⟨t, hbody, ht, hlt⟩ | ⟨r, hbody, hr⟩
      · rw [loop_again hbody]
        exact ih ht (Nat.lt_of_lt_of_le hlt (Nat.le_of_lt_succ hfuel))
      · exact ⟨r, loop_done hbody, hr⟩

/-! ## When a loop returns -/

theorem returns_again (h : body s = some (.again t)) : Returns body s r ↔ Returns body t r := by
  constructor
  · rintro ⟨fuel, hrun⟩
    cases fuel with
    | zero => cases hrun
    | succ fuel =>
        rw [loop_again h] at hrun
        exact ⟨fuel, hrun⟩
  · rintro ⟨fuel, hrun⟩
    refine ⟨fuel + 1, ?_⟩
    rw [loop_again h]
    exact hrun

theorem returns_done (h : body s = some (.done r')) : Returns body s r ↔ r' = r := by
  constructor
  · rintro ⟨fuel, hrun⟩
    cases fuel with
    | zero => cases hrun
    | succ fuel =>
        rw [loop_done h] at hrun
        exact Option.some.inj hrun
  · rintro rfl
    exact ⟨1, loop_done h⟩

theorem not_returns_undefined (h : body s = none) : ¬ Returns body s r := by
  rintro ⟨fuel, hrun⟩
  rw [loop_undefined h] at hrun
  cases hrun

/-- What every pass preserves holds of the result. -/
theorem Returns.invariant {I : σ → Prop} {P : ρ → Prop}
    (hagain : ∀ s t, I s → body s = some (.again t) → I t)
    (hdone : ∀ s r, I s → body s = some (.done r) → P r)
    (h : Returns body s r) (hs : I s) : P r := by
  rcases h with ⟨fuel, hrun⟩
  induction fuel generalizing s with
  | zero => cases hrun
  | succ fuel ih =>
      cases hbody : body s with
      | none =>
          rw [loop_undefined hbody] at hrun
          cases hrun
      | some pass =>
          cases pass with
          | again t =>
              rw [loop_again hbody] at hrun
              exact ih (hagain s t hs hbody) hrun
          | done r' =>
              rw [loop_done hbody] at hrun
              cases hrun
              exact hdone s r hs hbody

/-- Where the states of the passes are known as long as the loop goes on, it returns exactly if
some pass leaves it and all before go round again. -/
theorem returns_iff_pass {states : Nat → σ}
    (hnext : ∀ j t, body (states j) = some (.again t) → t = states (j + 1)) :
    Returns body (states 0) r ↔
      ∃ i, (∀ j < i, body (states j) = some (.again (states (j + 1)))) ∧
        body (states i) = some (.done r) := by
  constructor
  · rintro ⟨fuel, hrun⟩
    -- from any pass on; the passes before it are no matter
    suffices hfrom : ∀ k, loop body fuel (states k) = some r → ∃ i, k ≤ i ∧
        (∀ j, k ≤ j → j < i → body (states j) = some (.again (states (j + 1)))) ∧
          body (states i) = some (.done r) by
      rcases hfrom 0 hrun with ⟨i, _, hagain, hdone⟩
      exact ⟨i, fun j => hagain j (Nat.zero_le j), hdone⟩
    clear hrun
    induction fuel with
    | zero =>
        intro k hrun
        cases hrun
    | succ fuel ih =>
        intro k hrun
        cases hbody : body (states k) with
        | none =>
            rw [loop_undefined hbody] at hrun
            cases hrun
        | some pass =>
            cases pass with
            | again t =>
                have ht : t = states (k + 1) := hnext k t hbody
                rw [loop_again hbody, ht] at hrun
                rcases ih (k + 1) hrun with ⟨i, hle, hagain, hdone⟩
                refine ⟨i, Nat.le_of_succ_le hle, ?_, hdone⟩
                intro j hkj hji
                rcases Nat.eq_or_lt_of_le hkj with rfl | hkj
                · rw [hbody, ht]
                · exact hagain j hkj hji
            | done r' =>
                rw [loop_done hbody] at hrun
                cases hrun
                refine ⟨k, Nat.le_refl k, ?_, hbody⟩
                intro j hkj hjk
                exact absurd hjk (Nat.not_lt.mpr hkj)
  · rintro ⟨i, hagain, hdone⟩
    induction i generalizing states with
    | zero => exact ⟨1, loop_done hdone⟩
    | succ i ih =>
        rw [returns_again (hagain 0 (Nat.succ_pos i))]
        refine @ih (fun j => states (j + 1)) (fun j => hnext (j + 1))
          (fun j hj => hagain (j + 1) (Nat.succ_lt_succ hj)) hdone

/-! ## Loops with a trace -/

/-- The loop returns `r` from `s`, and its passes leave the trace `w`. -/
inductive Traced {α : Type u} (body : σ → Option (Pass σ ρ)) (emits : σ → List α → Prop) :
    σ → List α → ρ → Prop where
  | done {s : σ} {r : ρ} {w : List α} (h : body s = some (.done r)) (hw : emits s w) :
      Traced body emits s w r
  | again {s t : σ} {r : ρ} {w w' : List α} (h : body s = some (.again t)) (hw : emits s w)
      (hrest : Traced body emits t w' r) : Traced body emits s (w ++ w') r

/-- A loop that returns leaves a trace if each of its passes does. -/
theorem Returns.traced {α : Type u} {emits : σ → List α → Prop} (htotal : ∀ s, ∃ w, emits s w)
    (h : Returns body s r) : ∃ w, Traced body emits s w r := by
  rcases h with ⟨fuel, hrun⟩
  induction fuel generalizing s with
  | zero => cases hrun
  | succ fuel ih =>
      rcases htotal s with ⟨w, hw⟩
      cases hbody : body s with
      | none =>
          rw [loop_undefined hbody] at hrun
          cases hrun
      | some pass =>
          cases pass with
          | again t =>
              rw [loop_again hbody] at hrun
              rcases ih hrun with ⟨w', hrest⟩
              exact ⟨w ++ w', .again hbody hw hrest⟩
          | done r' =>
              rw [loop_done hbody] at hrun
              cases hrun
              exact ⟨w, .done hbody hw⟩

section Inversion

variable {α : Type u} {emits : σ → List α → Prop} {w : List α}

theorem Traced.of_done (ht : Traced body emits s w r) (h : body s = some (.done r')) :
    emits s w := by
  cases ht with
  | done _ hw => exact hw
  | again hpass _ _ =>
      rw [h] at hpass
      cases hpass

theorem Traced.of_again (ht : Traced body emits s w r) (h : body s = some (.again t)) :
    ∃ u u', emits s u ∧ Traced body emits t u' r ∧ w = u ++ u' := by
  cases ht with
  | done hpass _ =>
      rw [h] at hpass
      cases hpass
  | again hpass hw hrest =>
      rw [h] at hpass
      cases hpass
      exact ⟨_, _, hw, hrest, rfl⟩

theorem not_traced_undefined (h : body s = none) : ¬ Traced body emits s w r := by
  rintro (⟨hpass, _⟩ | ⟨hpass, _, _⟩)
  · rw [h] at hpass
    cases hpass
  · rw [h] at hpass
    cases hpass

end Inversion

theorem Traced.returns {α : Type u} {emits : σ → List α → Prop} {w : List α}
    (h : Traced body emits s w r) : Returns body s r := by
  induction h with
  | done h _ => exact (returns_done h).mpr rfl
  | again h _ _ ih => exact (returns_again h).mpr ih

end Base
end EmbeddedOS
