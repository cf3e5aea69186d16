/-!
# Labelled runs

Finite runs of a step relation whose steps carry a label, and the invariant rule: what one step
preserves, a whole run preserves. For a program whose calls return a result and a new state, the
runs all of whose calls behave well, and the rule that finds them by a condition on each call.
-/

namespace EmbeddedOS
namespace Base

universe u v

variable {σ : Type u} {α : Type v}

/-- `Run step s as t`: the steps labelled `as` lead from `s` to `t`. -/
inductive Run (step : σ → α → σ → Prop) : σ → List α → σ → Prop where
  | nil (s : σ) : Run step s [] s
  | cons {s t u : σ} {a : α} {as : List α} :
      step s a t → Run step t as u → Run step s (a :: as) u

namespace Run

variable {step step' : σ → α → σ → Prop} {s t u : σ} {a : α} {as bs : List α}

theorem single (h : step s a t) : Run step s [a] t :=
  .cons h (.nil t)

theorem append (h : Run step s as t) (h' : Run step t bs u) : Run step s (as ++ bs) u := by
  induction h with
  | nil s => exact h'
  | cons hstep _ ih => exact .cons hstep (ih h')

/-- A run over a concatenation passes through a state between its two parts. -/
theorem split : ∀ {as : List α} {s : σ}, Run step s (as ++ bs) u →
    ∃ t, Run step s as t ∧ Run step t bs u := by
  intro as
  induction as with
  | nil =>
      intro s h
      exact ⟨s, .nil s, h⟩
  | cons a as ih =>
      intro s h
      cases h with
      | cons hstep hrest =>
          rcases ih hrest with ⟨t, hleft, hright⟩
          exact ⟨t, .cons hstep hleft, hright⟩

theorem mono (hsub : ∀ s a t, step s a t → step' s a t) (h : Run step s as t) :
    Run step' s as t := by
  induction h with
  | nil s => exact .nil s
  | cons hstep _ ih => exact .cons (hsub _ _ _ hstep) ih

/-- What every step preserves holds at the end of every run. -/
theorem invariant {Inv : σ → Prop} (hstep : ∀ s a t, Inv s → step s a t → Inv t)
    (h : Run step s as t) (h0 : Inv s) : Inv t := by
  induction h with
  | nil s => exact h0
  | cons hs _ ih => exact ih (hstep _ _ _ h0 hs)

/-- In a deterministic system the labels of a run determine where it ends. -/
theorem deterministic (hdet : ∀ s a t t', step s a t → step s a t' → t = t')
    (h : Run step s as t) (h' : Run step s as u) : t = u := by
  induction h with
  | nil s =>
      cases h'
      rfl
  | cons hs _ ih =>
      cases h' with
      | cons hs' hrest' =>
          cases hdet _ _ _ _ hs hs'
          exact ih hrest'

end Run

/-! ## Runs of calls -/

section Calls

universe w

variable {β : Type w} (step : σ → α → Option (β × σ))

/-- Every call of a run returns, and what it does is good. -/
def EachCall (good : σ → α → β → σ → Prop) : σ → List α → Prop
  | _, [] => True
  | s, a :: as => ∃ b t, step s a = some (b, t) ∧ good s a b t ∧ EachCall good t as

/-- Every call of a run meets a condition on the state before it. -/
def Guarded (guard : σ → α → Prop) : σ → List α → Prop
  | _, [] => True
  | s, a :: as => guard s a ∧ ∀ b t, step s a = some (b, t) → Guarded guard t as

variable {step}

/-- Where one allowed call is good exactly under its guard, a run of allowed calls is good exactly if
it is guarded. -/
theorem eachCall_iff_guarded_within {good : σ → α → β → σ → Prop} {guard allowed : σ → α → Prop}
    (Inv : σ → Prop)
    (hstep : ∀ s a b t, Inv s → allowed s a → guard s a → step s a = some (b, t) → Inv t)
    (hguard : ∀ s a, Inv s → allowed s a →
      ((∃ b t, step s a = some (b, t) ∧ good s a b t) ↔ guard s a))
    {s : σ} (hs : Inv s) {as : List α} (has : Guarded step allowed s as) :
    EachCall step good s as ↔ Guarded step guard s as := by
  induction as generalizing s with
  | nil => exact Iff.rfl
  | cons a as ih =>
      rcases has with ⟨hallowed, has⟩
      constructor
      · rintro ⟨b, t, hrun, hgood, htail⟩
        have hmeets : guard s a := (hguard s a hs hallowed).mp ⟨b, t, hrun, hgood⟩
        refine ⟨hmeets, ?_⟩
        intro b' t' hrun'
        cases hrun.symm.trans hrun'
        exact (ih (hstep s a b t hs hallowed hmeets hrun) (has b t hrun)).mp htail
      · rintro ⟨hmeets, htail⟩
        rcases (hguard s a hs hallowed).mpr hmeets with ⟨b, t, hrun, hgood⟩
        exact ⟨b, t, hrun, hgood,
          (ih (hstep s a b t hs hallowed hmeets hrun) (has b t hrun)).mpr (htail b t hrun)⟩

/-- Where every allowed call returns, does what is good and keeps the invariant, so does a run. -/
theorem eachCall_of_allowed {good : σ → α → β → σ → Prop} {allowed : σ → α → Prop} (Inv : σ → Prop)
    (hcall : ∀ s a, Inv s → allowed s a → ∃ b t, step s a = some (b, t) ∧ good s a b t ∧ Inv t)
    {s : σ} (hs : Inv s) {as : List α} (has : Guarded step allowed s as) :
    EachCall step good s as := by
  induction as generalizing s with
  | nil => trivial
  | cons a as ih =>
      rcases has with ⟨hallowed, has⟩
      rcases hcall s a hs hallowed with ⟨b, t, hrun, hgood, ht⟩
      exact ⟨b, t, hrun, hgood, ih ht (has b t hrun)⟩

theorem guarded_of_forall {guard : σ → α → Prop} (h : ∀ s a, guard s a) (s : σ) (as : List α) :
    Guarded step guard s as := by
  induction as generalizing s with
  | nil => trivial
  | cons a as ih => exact ⟨h s a, fun _ t _ => ih t⟩

theorem guarded_of_mem {p : α → Prop} {as : List α} (h : ∀ a ∈ as, p a) (s : σ) :
    Guarded step (fun _ a => p a) s as := by
  induction as generalizing s with
  | nil => trivial
  | cons a as ih =>
      refine ⟨h a List.mem_cons_self, fun _ t _ => ?_⟩
      exact ih (fun b hb => h b (List.mem_cons_of_mem a hb)) t

/-- Where one call is good exactly under its guard, a run is good exactly if it is guarded. -/
theorem eachCall_iff_guarded {good : σ → α → β → σ → Prop} {guard : σ → α → Prop}
    (Inv : σ → Prop)
    (hstep : ∀ s a b t, Inv s → guard s a → step s a = some (b, t) → Inv t)
    (hguard : ∀ s a, Inv s → ((∃ b t, step s a = some (b, t) ∧ good s a b t) ↔ guard s a))
    {s : σ} (hs : Inv s) (as : List α) :
    EachCall step good s as ↔ Guarded step guard s as := by
  have hall : Guarded step (fun _ _ => True) s as := guarded_of_forall (fun _ _ => trivial) s as
  exact eachCall_iff_guarded_within Inv (fun s a b t hs _ => hstep s a b t hs)
    (fun s a hs _ => hguard s a hs) hs hall

end Calls

end Base
end EmbeddedOS
