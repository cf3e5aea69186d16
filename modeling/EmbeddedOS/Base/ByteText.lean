import EmbeddedOS.Base.ByteMem

/-!
# Texts in memory

The bytes that stand from an address on, as a list, and the strings that a zero ends.
-/

namespace EmbeddedOS
namespace Base
namespace ByteMem

/-- From `a` on the memory holds these bytes. -/
def Holds (m : ByteMem) : Nat → List UInt8 → Prop
  | _, [] => True
  | a, c :: cs => m a = c ∧ Holds m (a + 1) cs

/-- The string at `a`. -/
def StringAt (m : ByteMem) (a : Nat) (text : List UInt8) : Prop :=
  0 ∉ text ∧ Holds m a (text ++ [0])

variable {m m' : ByteMem} {a : Nat} {cs cs' : List UInt8}

theorem holds_iff : Holds m a cs ↔ ∀ (i : Nat) (h : i < cs.length), m (a + i) = cs[i] := by
  induction cs generalizing a with
  | nil => simp [Holds]
  | cons c cs ih =>
      rw [Holds, ih]
      constructor
      · rintro ⟨hhead, htail⟩ i hi
        cases i with
        | zero => simpa using hhead
        | succ i =>
            have hbyte := htail i (by simpa using hi)
            rw [Nat.add_assoc, Nat.add_comm 1] at hbyte
            simpa using hbyte
      · intro h
        refine ⟨h 0 (Nat.succ_pos _), fun i hi => ?_⟩
        have hbyte := h (i + 1) (by simpa using hi)
        rw [Nat.add_assoc, Nat.add_comm 1]
        simpa using hbyte

theorem holds_append : Holds m a (cs ++ cs') ↔ Holds m a cs ∧ Holds m (a + cs.length) cs' := by
  induction cs generalizing a with
  | nil => simp [Holds]
  | cons c cs ih =>
      have haddr : a + 1 + cs.length = a + (cs.length + 1) := by omega
      rw [List.cons_append, Holds, ih, Holds, List.length_cons, haddr, and_assoc]

theorem Holds.congr (h : Holds m a cs) (hsame : AgreeOn m' m a (a + cs.length)) :
    Holds m' a cs := by
  rw [holds_iff] at h ⊢
  intro i hi
  rw [hsame (a + i) (by omega) (by omega)]
  exact h i hi

end ByteMem
end Base
end EmbeddedOS
