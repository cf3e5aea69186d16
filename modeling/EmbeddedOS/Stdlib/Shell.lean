import EmbeddedOS.Base.Runs
import EmbeddedOS.Stdlib.LineInput

/-!
# The shell's line buffer

`shell` of `shell.c` as a machine that reads keys. What a command does is a parameter: it may write
anywhere. The buffer holds the typed line as long as the line leaves room for its terminator.
-/

namespace EmbeddedOS
namespace Stdlib

open Base Base.ByteMem

def SHUTDOWN_CODE : Int := 0x12345

structure Shell where
  line : LineBuffer
  ret : Int
  /-- The loop has not been left. -/
  running : Bool

section Step

-- `run(buf, buflen)`: what it returns, and the memory after it.
variable (run : ByteMem → Nat → Nat → Int × ByteMem)

/-- One key, with the buffer as `run` gets it if the key ends the line. -/
def shellStep (s : Shell) (ch : UInt8) : Option (Option LineBuffer × Shell) :=
  if s.running = false then some (none, s)
  else if IsLineEnd ch then
    let (ret, mem) := run s.line.mem s.line.buf s.line.buflen
    let line := { s.line with mem }
    if ret = SHUTDOWN_CODE then some (some s.line, { line, ret, running := false })
    else some (some s.line, { s with line := line.clear, ret })
  else some (none, { s with line := s.line.key ch })

/-- The shell, and the line that is meant. -/
def typeStep : Shell × List UInt8 → UInt8 → Option (Option LineBuffer × Shell × List UInt8)
  | (s, line), ch =>
      (shellStep run s ch).map fun (given, s') =>
        (given, s', if IsLineEnd ch then [] else edited line ch)

/-- After `new` and the first `memset`. -/
def shellStart (mem : ByteMem) (buf : Nat) : Shell × List UInt8 :=
  ({ line := LineBuffer.clear ⟨mem, buf, 0⟩, ret := 0, running := true }, [])

end Step

/-- While the shell runs its buffer holds the typed line, and what `run` gets is that line as a
string that ends inside the buffer. -/
def ShellGood : Shell × List UInt8 → UInt8 → Option LineBuffer → Shell × List UInt8 → Prop
  | (_, line), _, given, (s', line') =>
      (∀ b, given = some b → StringAt b.mem b.buf line ∧ line.length < 4096) ∧
        (s'.running = true → Reads s'.line line')

/-- No line grows beyond 4095 characters, and none that is run has a NUL in it. -/
def ShellGuard : Shell × List UInt8 → UInt8 → Prop
  | (s, line), ch =>
      s.running = true →
        (IsLineEnd ch → 0 ∉ line) ∧ (¬ IsLineEnd ch → ¬ IsErase ch → line.length < 4095)

variable {run : ByteMem → Nat → Nat → Int × ByteMem}

/-- A running shell holds the line. -/
def ShellInv (p : Shell × List UInt8) : Prop :=
  p.1.running = true → Reads p.1.line p.2

theorem typeStep_stopped {s : Shell} (h : s.running = false) (line : List UInt8) (ch : UInt8) :
    typeStep run (s, line) ch = some (none, s, if IsLineEnd ch then [] else edited line ch) := by
  simp [typeStep, shellStep, h]

theorem typeStep_edit {s : Shell} (h : s.running = true) {ch : UInt8} (hch : ¬ IsLineEnd ch)
    (line : List UInt8) :
    typeStep run (s, line) ch =
      some (none, { s with line := s.line.key ch }, edited line ch) := by
  simp only [typeStep, shellStep, h, Bool.true_eq_false, if_false, if_neg hch, Option.map_some]

/-- After a command the shell has stopped, or its buffer is clear. -/
theorem typeStep_run {s : Shell} (h : s.running = true) {ch : UInt8} (hch : IsLineEnd ch)
    (line : List UInt8) :
    ∃ s', typeStep run (s, line) ch = some (some s.line, s', []) ∧
      (s'.running = true → Reads s'.line []) := by
  simp only [typeStep, shellStep, h, Bool.true_eq_false, if_false, if_pos hch]
  by_cases hret : (run s.line.mem s.line.buf s.line.buflen).1 = SHUTDOWN_CODE
  · simp only [if_pos hret, Option.map_some]
    exact ⟨_, rfl, fun hrunning => by cases hrunning⟩
  · simp only [if_neg hret, Option.map_some]
    exact ⟨_, rfl, fun _ => Reads.clear _⟩

/-- One key does what it is to do exactly if it is guarded. -/
theorem typeStep_good_iff {s : Shell} {line : List UInt8} (hinv : ShellInv (s, line)) (ch : UInt8) :
    (∃ given t, typeStep run (s, line) ch = some (given, t) ∧ ShellGood (s, line) ch given t) ↔
      ShellGuard (s, line) ch := by
  -- A shell that has stopped reads no more keys.
  cases hrunning : s.running with
  | false =>
      refine iff_of_true ⟨_, _, typeStep_stopped hrunning line ch, ?_, ?_⟩ ?_
      · intro b hb
        cases hb
      · intro h
        rw [hrunning] at h
        cases h
      · intro h
        rw [hrunning] at h
        cases h
  | true =>
      have hreads : Reads s.line line := hinv hrunning
      -- A line end runs the line; any other key edits it.
      by_cases hend : IsLineEnd ch
      · rcases @typeStep_run run s hrunning ch hend line with ⟨s', hrun, hclear⟩
        constructor
        · rintro ⟨given, t, hrun', hgood⟩ -
          cases hrun.symm.trans hrun'
          exact ⟨fun _ => hreads.stringAt.mp (hgood.1 _ rfl).1, fun hnot => absurd hend hnot⟩
        · intro hguard
          refine ⟨_, _, hrun, ?_, hclear⟩
          intro b hb
          cases hb
          have hbound := hreads.bound
          have hlen := hreads.length
          exact ⟨hreads.stringAt.mpr ((hguard hrunning).1 hend), by omega⟩
      · have hrun := @typeStep_edit run s hrunning ch hend line
        constructor
        · rintro ⟨given, t, hrun', hgood⟩ -
          cases hrun.symm.trans hrun'
          refine ⟨fun hnot => absurd hnot hend, fun _ herase => ?_⟩
          by_contra hroom
          exact hreads.full herase hroom (hgood.2 hrunning)
        · intro hguard
          refine ⟨_, _, hrun, ?_, fun _ => ?_⟩
          · intro b hb
            cases hb
          · by_cases herase : IsErase ch
            · exact hreads.erase herase
            · exact hreads.put herase ((hguard hrunning).2 hend herase)

/-- **When the shell keeps its line.** Whatever the commands do, the buffer holds the typed line
after every key, and `run` gets that line, exactly if no line grows beyond 4095 characters and no
line that is run has a NUL in it. -/
theorem shell_keeps_line_iff (run : ByteMem → Nat → Nat → Int × ByteMem) (mem : ByteMem) (buf : Nat)
    (keys : List UInt8) :
    EachCall (typeStep run) ShellGood (shellStart mem buf) keys ↔
      Guarded (typeStep run) ShellGuard (shellStart mem buf) keys := by
  refine eachCall_iff_guarded ShellInv ?_ ?_ (fun _ => Reads.clear _) keys
  · rintro ⟨s, line⟩ ch given t hinv hguard hrun
    rcases (typeStep_good_iff hinv ch).mpr hguard with ⟨given', t', hrun', hgood⟩
    cases hrun.symm.trans hrun'
    exact hgood.2
  · rintro ⟨s, line⟩ ch hinv
    exact typeStep_good_iff hinv ch

/-- A good run of one character over and over ends before the buffer does. -/
theorem eachCall_replicate {s : Shell} {line : List UInt8} {ch : UInt8} (hrunning : s.running = true)
    (hreads : Reads s.line line) (hend : ¬ IsLineEnd ch) (herase : ¬ IsErase ch) {k : Nat}
    (h : EachCall (typeStep run) ShellGood (s, line) (List.replicate k ch)) :
    line.length + k ≤ 4095 := by
  induction k generalizing s line with
  | zero =>
      have hbound := hreads.bound
      have hlen := hreads.length
      omega
  | succ k ih =>
      rw [List.replicate_succ] at h
      rcases h with ⟨given, t, hrun, hgood, hrest⟩
      cases (typeStep_edit hrunning hend line).symm.trans hrun
      have hlonger := ih (s := { s with line := s.line.key ch }) hrunning (hgood.2 hrunning) hrest
      rw [edited, if_neg herase, List.length_append, List.length_singleton] at hlonger
      omega

/-- 4096 characters without a line end. -/
theorem shell_overflows :
    ¬ EachCall (typeStep fun mem _ _ => (0, mem)) ShellGood (shellStart (fun _ => 0) 4096)
      (List.replicate 4096 97) := by
  intro h
  have hlen := eachCall_replicate rfl (Reads.clear _) (by decide) (by decide) h
  omega

end Stdlib
end EmbeddedOS
