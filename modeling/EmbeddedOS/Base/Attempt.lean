import EmbeddedOS.Base.Loop

/-!
# Computations that may give up

A computation acts on a state. It returns a value, or it gives up in the state that it has come to,
as a loop does whose rounds are used up. A triple has a postcondition for either end, so that what
it says of a device's history holds of the history up to any point at which the computation stops.
-/

namespace EmbeddedOS
namespace Base

universe u v

/-- From a state to a value, if there is one, and the state at the end. -/
def Attempt (σ : Type u) (α : Type v) : Type (max u v) := σ → Option α × σ

namespace Attempt

variable {σ : Type u} {α β : Type v}

instance : Monad (Attempt σ) where
  pure a := fun s => (some a, s)
  bind x f := fun s =>
    match x s with
    | (some a, t) => f a t
    | (none, t) => (none, t)

/-- The state, or a part of it. -/
def gets (f : σ → α) : Attempt σ α := fun s => (some (f s), s)

/-- A change of the state. -/
def update (f : σ → σ) : Attempt σ PUnit := fun s => (some ⟨⟩, f s)

/-- No result. -/
def giveUp : Attempt σ α := fun s => (none, s)

/-- A value that may be missing. -/
def need : Option α → Attempt σ α
  | some a => pure a
  | none => giveUp

/-- `while`, for at most so many rounds. -/
def rounds (body : α → Attempt σ (Pass α β)) : Nat → α → Attempt σ β
  | 0, _ => giveUp
  | fuel + 1, a => do
      let pass ← body a
      match pass with
      | .again a => rounds body fuel a
      | .done b => pure b

/-- `while (cond && cnt--)`: the counter after it. -/
def countdown (cond : Attempt σ Bool) (body : Attempt σ PUnit) : Nat → Attempt σ Int
  | 0 => do
      let b ← cond
      if b then pure (-1) else pure 0
  | cnt + 1 => do
      let b ← cond
      if b then
        body
        countdown cond body cnt
      else pure (cnt + 1)

/-- From `P` the computation returns a value and a state as in `Q`, or gives up in `R`. -/
structure Triple (P : σ → Prop) (x : Attempt σ α) (Q : α → σ → Prop) (R : σ → Prop) : Prop where
  returns : ∀ s a t, P s → x s = (some a, t) → Q a t
  givesUp : ∀ s t, P s → x s = (none, t) → R t

/-- The computation keeps an invariant, however it ends. -/
abbrev Keeps (I : σ → Prop) (x : Attempt σ α) : Prop := Triple I x (fun _ => I) I

variable {P P' R R' I : σ → Prop} {Q Q' : α → σ → Prop} {S : β → σ → Prop} {x : Attempt σ α}
  {f : α → Attempt σ β}

namespace Triple

theorem weaken (h : Triple P x Q R) (hpre : ∀ s, P' s → P s) (hpost : ∀ a s, Q a s → Q' a s)
    (hup : ∀ s, R s → R' s) : Triple P' x Q' R' where
  returns s a t hs hrun := hpost a t (h.returns s a t (hpre s hs) hrun)
  givesUp s t hs hrun := hup t (h.givesUp s t (hpre s hs) hrun)

theorem post (h : Triple P x Q R) (hpost : ∀ a s, Q a s → Q' a s) : Triple P x Q' R :=
  h.weaken (fun _ => id) hpost fun _ => id

theorem pre (h : Triple P x Q R) (hpre : ∀ s, P' s → P s) : Triple P' x Q R :=
  h.weaken hpre (fun _ _ => id) fun _ => id

theorem ret (a : α) (h : ∀ s, P s → Q a s) : Triple P (pure a) Q R where
  returns s a' t hs hrun := by
    cases hrun
    exact h s hs
  givesUp s t _ hrun := by cases hrun

theorem bind (hx : Triple P x Q R) (hf : ∀ a, Triple (Q a) (f a) S R) :
    Triple P (x >>= f) S R where
  returns s b u hs hrun := by
    simp only [Bind.bind] at hrun
    -- If `x` gives up then so does the whole, and nothing is left of `f`.
    rcases hx' : x s with ⟨o, t⟩
    rw [hx'] at hrun
    cases o with
    | none => cases hrun
    | some a => exact (hf a).returns t b u (hx.returns s a t hs hx') hrun
  givesUp s u hs hrun := by
    simp only [Bind.bind] at hrun
    rcases hx' : x s with ⟨o, t⟩
    rw [hx'] at hrun
    cases o with
    | none =>
        cases hrun
        exact hx.givesUp s _ hs hx'
    | some a => exact (hf a).givesUp t u (hx.returns s a t hs hx') hrun

theorem ite {c : Prop} [Decidable c] {y : Attempt σ α}
    (ht : c → Triple P x Q R) (hf : ¬ c → Triple P y Q R) : Triple P (if c then x else y) Q R := by
  by_cases hc : c
  · rw [if_pos hc]
    exact ht hc
  · rw [if_neg hc]
    exact hf hc

theorem update {g : σ → σ} {T : PUnit → σ → Prop} (h : ∀ s, P s → T ⟨⟩ (g s)) :
    Triple P (update g) T R where
  returns s a t hs hrun := by
    cases hrun
    exact h s hs
  givesUp s t _ hrun := by cases hrun

theorem gets {g : σ → α} (h : ∀ s, P s → Q (g s) s) : Triple P (gets g) Q R where
  returns s a t hs hrun := by
    cases hrun
    exact h s hs
  givesUp s t _ hrun := by cases hrun

theorem giveUp (h : ∀ s, P s → R s) : Triple P (giveUp : Attempt σ α) Q R where
  returns s a t _ hrun := by cases hrun
  givesUp s t hs hrun := by
    cases hrun
    exact h s hs

theorem need (o : Option α) (h : ∀ a s, P s → Q a s) (hup : ∀ s, P s → R s) :
    Triple P (need o) Q R := by
  cases o with
  | none => exact giveUp hup
  | some a => exact ret a (h a)

/-- A loop keeps what its rounds keep. -/
theorem rounds {I : α → σ → Prop} {body : α → Attempt σ (Pass α β)}
    (hbody : ∀ a, Triple (I a) (body a)
      (fun pass s => (∀ a, pass = .again a → I a s) ∧ ∀ b, pass = .done b → S b s) R)
    (hup : ∀ a s, I a s → R s) (fuel : Nat) (a : α) : Triple (I a) (rounds body fuel a) S R := by
  induction fuel generalizing a with
  | zero => exact giveUp (hup a)
  | succ fuel ih =>
      -- Either another round from its state, or the result.
      refine bind (hbody a) fun pass => ?_
      cases pass with
      | again a => exact (ih a).pre fun s hs => hs.1 a rfl
      | done b => exact ret b fun s hs => hs.2 b rfl

/-- A loop with a counter leaves only after a test, or with a counter that is used up. -/
theorem countdown {cond : Attempt σ Bool} {body : Attempt σ PUnit} (hcond : Keeps I cond)
    (hbody : Keeps I body) (cnt : Nat) : Keeps I (countdown cond body cnt) := by
  induction cnt with
  | zero => exact bind hcond fun b => ite (fun _ => ret _ fun _ => id) fun _ => ret _ fun _ => id
  | succ cnt ih =>
      refine bind hcond fun b => ite (fun _ => ?_) fun _ => ret _ fun _ => id
      exact bind hbody fun _ => ih

end Triple

end Attempt

end Base
end EmbeddedOS
