import Mathlib.Tactic.Linarith

/-!
# Intervals in order

A list of intervals `[start a, stop a)` that follow one another. `Ascends` allows gaps between
them, `Tiles` does not. Both are read along the list, so a change in the middle of the list only
concerns the interval that changes.
-/

namespace EmbeddedOS
namespace Base

universe u

variable {α : Type u} {start stop : α → Nat} {lo hi : Nat} {l l' : List α} {a b c : α}

/-- The intervals of `l` lie in `[lo, hi)`, each after the one before. -/
def Ascends (start stop : α → Nat) : Nat → List α → Nat → Prop
  | lo, [], hi => lo ≤ hi
  | lo, a :: l, hi => lo ≤ start a ∧ start a ≤ stop a ∧ Ascends start stop (stop a) l hi

/-- The intervals of `l`, in order, cover `[lo, hi)` with no gap and no overlap. -/
def Tiles (start stop : α → Nat) : Nat → List α → Nat → Prop
  | lo, [], hi => lo = hi
  | lo, a :: l, hi => lo = start a ∧ start a ≤ stop a ∧ Tiles start stop (stop a) l hi

/-! ## Ascending intervals -/

namespace Ascends

theorem le (h : Ascends start stop lo l hi) : lo ≤ hi := by
  induction l generalizing lo with
  | nil => exact h
  | cons a l ih =>
      have htail := ih h.2.2
      have h1 := h.1
      have h2 := h.2.1
      omega

theorem mono {lo' hi' : Nat} (h : Ascends start stop lo l hi) (hlo : lo' ≤ lo) (hhi : hi ≤ hi') :
    Ascends start stop lo' l hi' := by
  induction l generalizing lo lo' with
  | nil => exact hlo.trans (Nat.le_trans h hhi)
  | cons a l ih => exact ⟨hlo.trans h.1, h.2.1, ih h.2.2 (Nat.le_refl _)⟩

theorem append_iff : Ascends start stop lo (l ++ l') hi ↔
    ∃ mid, Ascends start stop lo l mid ∧ Ascends start stop mid l' hi := by
  induction l generalizing lo with
  | nil =>
      constructor
      · intro h
        exact ⟨lo, Nat.le_refl _, h⟩
      · rintro ⟨mid, hle, h⟩
        exact h.mono hle (Nat.le_refl _)
  | cons a l ih =>
      simp only [List.cons_append, Ascends, ih]
      constructor
      · rintro ⟨h1, h2, mid, h3, h4⟩
        exact ⟨mid, ⟨h1, h2, h3⟩, h4⟩
      · rintro ⟨mid, ⟨h1, h2, h3⟩, h4⟩
        exact ⟨h1, h2, mid, h3, h4⟩

theorem bounds (h : Ascends start stop lo l hi) (ha : a ∈ l) :
    lo ≤ start a ∧ start a ≤ stop a ∧ stop a ≤ hi := by
  rcases List.append_of_mem ha with ⟨pre, post, rfl⟩
  rcases append_iff.1 h with ⟨mid, hpre, hmid, hle, hpost⟩
  exact ⟨hpre.le.trans hmid, hle, hpost.le⟩

theorem pairwise (h : Ascends start stop lo l hi) :
    l.Pairwise (fun a b => stop a ≤ start b) := by
  induction l generalizing lo with
  | nil => exact .nil
  | cons a l ih =>
      refine List.pairwise_cons.2 ⟨?_, ih h.2.2⟩
      intro b hb
      exact (h.2.2.bounds hb).1

/-- The position of one element splits the bounds of the others. -/
theorem split (h : Ascends start stop lo (l ++ a :: l') hi) :
    Ascends start stop lo l (start a) ∧ start a ≤ stop a ∧ Ascends start stop (stop a) l' hi := by
  rcases append_iff.1 h with ⟨mid, hpre, hmid, hle, hpost⟩
  exact ⟨hpre.mono (Nat.le_refl _) hmid, hle, hpost⟩

theorem join (hl : Ascends start stop lo l (start a)) (ha : start a ≤ stop a)
    (hl' : Ascends start stop (stop a) l' hi) : Ascends start stop lo (l ++ a :: l') hi :=
  append_iff.2 ⟨start a, hl, Nat.le_refl _, ha, hl'⟩

end Ascends

/-! ## Tilings -/

namespace Tiles

theorem append_iff : Tiles start stop lo (l ++ l') hi ↔
    ∃ mid, Tiles start stop lo l mid ∧ Tiles start stop mid l' hi := by
  induction l generalizing lo with
  | nil => simp [Tiles]
  | cons a l ih =>
      simp only [List.cons_append, Tiles, ih]
      constructor
      · rintro ⟨h1, h2, mid, h3, h4⟩
        exact ⟨mid, ⟨h1, h2, h3⟩, h4⟩
      · rintro ⟨mid, ⟨h1, h2, h3⟩, h4⟩
        exact ⟨h1, h2, mid, h3, h4⟩

/-- A tiling says where it ends. -/
theorem end_eq {hi' : Nat} (h : Tiles start stop lo l hi) (h' : Tiles start stop lo l hi') :
    hi = hi' := by
  induction l generalizing lo with
  | nil => exact h.symm.trans h'
  | cons a l ih => exact ih h.2.2 h'.2.2

/-- Only the intervals matter, not what they stand for. -/
theorem map_iff : Tiles Prod.fst Prod.snd lo (l.map fun a => (start a, stop a)) hi ↔
    Tiles start stop lo l hi := by
  induction l generalizing lo with
  | nil => rfl
  | cons a l ih => simp only [List.map_cons, Tiles, ih]

theorem ascends_self (h : Tiles start stop lo l hi) : Ascends start stop lo l hi := by
  induction l generalizing lo with
  | nil => exact Nat.le_of_eq h
  | cons a l ih => exact ⟨Nat.le_of_eq h.1, h.2.1, ih h.2.2⟩

/-- Two neighbouring pieces may be replaced by one that spans both. -/
theorem merge (h : Tiles start stop lo (l ++ a :: b :: l') hi) (hstart : start c = start a)
    (hstop : stop c = stop b) : Tiles start stop lo (l ++ c :: l') hi := by
  rcases append_iff.1 h with ⟨mid, hpre, rfl, hab, hb, hle, hpost⟩
  refine append_iff.2 ⟨_, hpre, hstart.symm, by omega, ?_⟩
  rw [hstop]
  exact hpost

/-- Only the ends of a piece matter. -/
theorem replace (h : Tiles start stop lo (l ++ c :: l') hi) (hstart : start a = start c)
    (hstop : stop a = stop c) : Tiles start stop lo (l ++ a :: l') hi := by
  rcases append_iff.1 h with ⟨mid, hpre, rfl, hle, hpost⟩
  refine append_iff.2 ⟨_, hpre, hstart.symm, by omega, ?_⟩
  rw [hstop]
  exact hpost

end Tiles

end Base
end EmbeddedOS
