import EmbeddedOS.Base.ByteText
import EmbeddedOS.Stdlib.StringOps

/-!
# Line input

The buffer of 4096 bytes that `shell` and `get_events` fill from the keyboard, with the cases of
their `switch` that edit it. No case looks at the size of the buffer.
-/

namespace EmbeddedOS
namespace Stdlib

open Base Base.ByteMem

/-- Backspace or delete. -/
abbrev IsErase (ch : UInt8) : Prop := ch = 8 ∨ ch = 127

/-- Newline or carriage return. -/
abbrev IsLineEnd (ch : UInt8) : Prop := ch = 10 ∨ ch = 13

structure LineBuffer where
  mem : ByteMem
  buf : Nat
  buflen : Nat

namespace LineBuffer

/-- `memset(buf, '\0', 4096); buflen = 0;` -/
def clear (b : LineBuffer) : LineBuffer :=
  { b with mem := memset b.mem b.buf 0 4096, buflen := 0 }

/-- A key that does not end the line. -/
def key (b : LineBuffer) (ch : UInt8) : LineBuffer :=
  if IsErase ch then
    if b.buflen > 0 then
      let buflen := b.buflen - 1
      { b with mem := setByte b.mem (b.buf + buflen) 0, buflen }
    else b
  else
    { b with mem := setByte b.mem (b.buf + b.buflen) ch, buflen := (b.buflen + 1) % 4294967296 }

end LineBuffer

/-- The line that is meant, one key later. -/
def edited (line : List UInt8) (ch : UInt8) : List UInt8 :=
  if IsErase ch then line.dropLast else line ++ [ch]

/-- The buffer holds the line, and zeros behind it. -/
structure Reads (b : LineBuffer) (line : List UInt8) : Prop where
  bound : b.buflen ≤ 4095
  length : b.buflen = line.length
  typed : Holds b.mem b.buf line
  rest : ∀ i, b.buflen ≤ i → i < 4096 → b.mem (b.buf + i) = 0

namespace Reads

variable {b : LineBuffer} {line : List UInt8} {ch : UInt8}

theorem clear (b : LineBuffer) : Reads b.clear [] where
  bound := Nat.zero_le _
  length := rfl
  typed := trivial
  rest := by
    intro i _ hi
    simp only [LineBuffer.clear, memset_eq_fill, fill]
    rw [if_pos (by omega)]

theorem erase (h : Reads b line) (hch : IsErase ch) : Reads (b.key ch) (edited line ch) := by
  have hbound := h.bound
  have hlen := h.length
  rw [LineBuffer.key, if_pos hch, edited, if_pos hch]
  rcases List.eq_nil_or_concat line with rfl | ⟨line, c, rfl⟩
  · rw [if_neg (by rw [hlen]; simp)]
    exact h
  · rw [List.concat_eq_append] at h hlen ⊢
    rw [List.length_append, List.length_singleton] at hlen
    rw [if_pos (by omega), List.dropLast_concat]
    refine ⟨by simp only; omega, by simp only; omega, ?_, ?_⟩
    · refine (holds_append.mp h.typed).1.congr fun x _ hx => ?_
      simp only [setByte]
      rw [if_neg (by omega)]
    · intro i hi hi'
      simp only [setByte] at hi ⊢
      by_cases hlast : i = b.buflen - 1
      · rw [if_pos (by omega)]
      · rw [if_neg (by omega)]
        exact h.rest i (by omega) hi'

theorem put (h : Reads b line) (hch : ¬ IsErase ch) (hroom : line.length < 4095) :
    Reads (b.key ch) (edited line ch) := by
  have hlen := h.length
  have hnext : (b.buflen + 1) % 4294967296 = line.length + 1 := by omega
  rw [LineBuffer.key, if_neg hch, edited, if_neg hch]
  refine ⟨by simp only; omega, by simpa using hnext, ?_, ?_⟩
  · refine holds_append.mpr ⟨h.typed.congr fun x _ hx => ?_, ?_, trivial⟩
    · simp only [setByte]
      rw [if_neg (by omega)]
    · simp only [setByte]
      rw [if_pos (by omega)]
  · intro i hi hi'
    simp only [setByte] at hi ⊢
    rw [if_neg (by omega)]
    exact h.rest i (by omega) hi'

/-- A full line takes no other character. -/
theorem full (h : Reads b line) (hch : ¬ IsErase ch) (hroom : ¬ line.length < 4095)
    {line' : List UInt8} : ¬ Reads (b.key ch) line' := by
  intro h'
  have hbound := h'.bound
  have hlen := h.length
  have := h.bound
  rw [LineBuffer.key, if_neg hch] at hbound
  simp only at hbound
  omega

/-- The line is a string in the buffer unless it has a terminator in it. -/
theorem stringAt (h : Reads b line) : StringAt b.mem b.buf line ↔ 0 ∉ line := by
  have hbound := h.bound
  have hlen := h.length
  have hend := h.rest line.length (by omega) (by omega)
  exact ⟨fun hstr => hstr.1, fun hzero => ⟨hzero, holds_append.mpr ⟨h.typed, hend, trivial⟩⟩⟩

end Reads

end Stdlib
end EmbeddedOS
