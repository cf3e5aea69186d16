import EmbeddedOS.Perf.Events
import EmbeddedOS.Stdlib.Shell
import EmbeddedOS.Stdlib.Strings

/-!
# What the shell runs

`interpret` and `run` of `shell.c`, under the shell's loop. A command is found by its name at the
start of the line, or from the sixth character on where the line starts with `perf`. What the
commands and the counters do is a parameter; they may write anywhere.
-/

namespace EmbeddedOS
namespace Stdlib

open Base Base.ByteMem
open Perf (ascii)

inductive Command where
  | echo
  | clear
  | show_time
  | perf_list
  | ls
  | cat
  | shutdown
  | usage
  | memcpy_test
  | memset_test
  deriving DecidableEq

/-- The names in the order in which `interpret` tests them. -/
def commands : List (List UInt8 × Command) :=
  [(ascii "print", .echo), (ascii "clear", .clear), (ascii "time", .show_time),
    (ascii "listperf", .perf_list), (ascii "ls", .ls), (ascii "cat", .cat),
    (ascii "shutdown", .shutdown), (ascii "usage", .usage), (ascii "memcpy_test", .memcpy_test),
    (ascii "memset_test", .memset_test)]

/-- What `interpret` and `run` print themselves. -/
inductive Notice where
  | newline
  | unknown
  deriving DecidableEq

/-- A command that is called, with the address of its argument. -/
structure Call where
  profiled : Bool
  command : Command
  arg : Nat
  deriving DecidableEq

/-- The rest of the kernel: the commands and the counters. -/
structure Kernel where
  command : Command → Nat → ByteMem → Int × ByteMem
  begin_profiling : ByteMem → ByteMem
  end_profiling : ByteMem → Nat × ByteMem
  perf_print : ByteMem → ByteMem
  perf_cleanup : ByteMem → Int × ByteMem

structure Ran where
  ret : Int
  mem : ByteMem
  notices : List Notice
  calls : List Call

/-- `!strncmp(name, buf, n)`, the `n` being the length of the name. -/
def startsWith (m : ByteMem) (buf : Nat) (name : List UInt8) : Bool :=
  strncmp name ((List.range name.length).map fun i => m (buf + i)) name.length = 0

def interpret (m : ByteMem) (buf : Nat) (buflen : Int) : Option Command × List Notice :=
  match commands.find? fun c => startsWith m buf c.1 with
  | some c => (some c.2, [])
  | none => if buflen = 0 then (none, [.newline]) else (none, [.unknown])

/-- `shutdown` is the command that only returns a code. -/
def Kernel.call (k : Kernel) (c : Command) (arg : Nat) (m : ByteMem) : Int × ByteMem :=
  if c = .shutdown then (SHUTDOWN_CODE, m) else k.command c arg m

def run (k : Kernel) (m : ByteMem) (buf buflen : Nat) : Ran :=
  if startsWith m buf (ascii "perf") then
    let (func, notices) := interpret m (buf + 5) ((buflen : Int) - 4)
    match func with
    | none => ⟨0, m, notices, []⟩
    | some c =>
        let m := k.begin_profiling m
        let (ret, m) := k.call c (buf + 5) m
        let (_, m) := k.end_profiling m
        let calls := [Call.mk true c (buf + 5)]
        if ret ≠ 0 then ⟨ret, m, notices, calls⟩
        else
          let (ret, m) := k.perf_cleanup (k.perf_print m)
          ⟨ret, m, notices, calls⟩
  else
    let (func, notices) := interpret m buf buflen
    match func with
    | none => ⟨0, m, .newline :: notices, []⟩
    | some c =>
        let (ret, m) := k.call c buf m
        ⟨ret, m, .newline :: notices, [Call.mk false c buf]⟩

/-- The shell over `run`. -/
def shellRun (k : Kernel) (m : ByteMem) (buf buflen : Nat) : Int × ByteMem :=
  ((run k m buf buflen).ret, (run k m buf buflen).mem)

/-! ## What a line means -/

/-- The command whose name the text starts with. -/
def named (text : List UInt8) : Option Command :=
  (commands.find? fun c => c.1.isPrefixOf text).map Prod.snd

/-- The call that a line asks for, with the place of the argument in the line. -/
def meant (line : List UInt8) : Option (Bool × Command × Nat) :=
  if (ascii "perf").isPrefixOf line then (named (line.drop 5)).map fun c => (true, c, 5)
  else (named line).map fun c => (false, c, 0)

theorem commands_prefixFree : ∀ c ∈ commands, ∀ d ∈ commands, c.1 <+: d.1 → c = d := by
  decide

theorem commands_ne_zero : ∀ c ∈ commands, (0 : UInt8) ∉ c.1 ∧ c.1.length ≤ 11 := by
  decide

/-- No name is the start of another: the order of the tests does not matter. -/
theorem named_iff (text : List UInt8) (c : Command) :
    named text = some c ↔ ∃ name, (name, c) ∈ commands ∧ name <+: text := by
  have hfound : ∀ {d}, (commands.find? fun c => c.1.isPrefixOf text) = some d →
      d ∈ commands ∧ d.1 <+: text := by
    intro d hd
    rw [List.find?_eq_some_iff_append] at hd
    obtain ⟨hstart, as, bs, hsplit, -⟩ := hd
    exact ⟨hsplit ▸ List.mem_append_right as List.mem_cons_self,
      List.isPrefixOf_iff_prefix.mp hstart⟩
  constructor
  · intro h
    obtain ⟨⟨name, c'⟩, hfind, hc⟩ := Option.map_eq_some_iff.mp h
    cases hc
    exact ⟨name, hfound hfind⟩
  · rintro ⟨name, hmem, hstart⟩
    have hsome : (commands.find? fun c => c.1.isPrefixOf text).isSome := by
      rw [List.find?_isSome]
      exact ⟨_, hmem, List.isPrefixOf_iff_prefix.mpr hstart⟩
    obtain ⟨d, hd⟩ := Option.isSome_iff_exists.mp hsome
    obtain ⟨hdmem, hdstart⟩ := hfound hd
    rw [named, hd]
    -- Of two names at the start of one text, one is the start of the other.
    rcases List.prefix_or_prefix_of_prefix hstart hdstart with hle | hle
    · rw [← commands_prefixFree _ hmem _ hdmem hle]
      rfl
    · rw [commands_prefixFree _ hdmem _ hmem hle]
      rfl

/-! ## Names in memory -/

theorem strncmp_eq_zero {name text : List UInt8} (hzero : 0 ∉ name) :
    strncmp name text name.length = 0 ↔
      ∀ (i : Nat) (hi : i < name.length), text.getD i 0 = name[i] := by
  induction name generalizing text with
  | nil => simp [strncmp]
  | cons c name ih =>
      rw [List.mem_cons, not_or] at hzero
      have hdiff : ((c.toNat : Int) - (text.headD 0).toNat = 0) ↔ text.headD 0 = c := by
        rw [← UInt8.toNat_inj]
        omega
      have hhead : text.headD 0 = text.getD 0 0 := by cases text <;> rfl
      have htail : ∀ i, text.tail.getD i 0 = text.getD (i + 1) 0 := by
        cases text <;> intro i <;> rfl
      have hstep : strncmp (c :: name) text (c :: name).length =
          if (c.toNat : Int) - (text.headD 0).toNat ≠ 0 then (c.toNat : Int) - (text.headD 0).toNat
          else if c = 0 then 0 else strncmp name text.tail name.length := rfl
      rw [hstep]
      -- A character in common is no terminator, so the comparison goes on.
      by_cases hc : text.headD 0 = c
      · rw [if_neg (not_not_intro (hdiff.mpr hc)), if_neg (Ne.symm hzero.1), ih hzero.2]
        constructor
        · intro hall i hi
          cases i with
          | zero => exact hhead.symm.trans hc
          | succ i => exact (htail i).symm.trans (hall i (Nat.lt_of_succ_lt_succ hi))
        · intro hall i hi
          exact (htail i).trans (hall (i + 1) (Nat.succ_lt_succ hi))
      · have hne : ¬ ((c.toNat : Int) - (text.headD 0).toNat = 0) := fun h => hc (hdiff.mp h)
        rw [if_pos hne]
        exact iff_of_false hne fun hall => hc (hhead.trans (hall 0 (Nat.zero_lt_succ _)))

theorem startsWith_iff {m : ByteMem} {buf : Nat} {name : List UInt8} (hzero : 0 ∉ name) :
    startsWith m buf name = true ↔ Holds m buf name := by
  rw [startsWith, decide_eq_true_iff, strncmp_eq_zero hzero, holds_iff]
  refine forall_congr' fun i => forall_congr' fun hi => ?_
  rw [List.getD_eq_getElem?_getD, List.getElem?_map, List.getElem?_range hi]
  rfl

/-- A name is in the buffer where it is in the line. -/
theorem Reads.holds_iff {b : LineBuffer} {line name : List UInt8} (h : Reads b line)
    (hzero : 0 ∉ name) {k : Nat} (hk : k + name.length ≤ 4096) :
    Holds b.mem (b.buf + k) name ↔ name <+: line.drop k := by
  rw [ByteMem.holds_iff, List.prefix_iff_getElem?]
  refine forall_congr' fun i => forall_congr' fun hi => ?_
  have hlen := h.length
  rw [List.getElem?_drop, Nat.add_assoc]
  by_cases hin : k + i < line.length
  · rw [List.getElem?_eq_getElem hin, Option.some.injEq, (ByteMem.holds_iff.mp h.typed) (k + i) hin]
  · -- Behind the line there are zeros, and no name has one.
    rw [h.rest (k + i) (by omega) (by omega), List.getElem?_eq_none (by omega)]
    refine iff_of_false (fun heq => hzero ?_) (by rintro ⟨⟩)
    rw [heq]
    exact List.getElem_mem hi

theorem Reads.startsWith_eq {b : LineBuffer} {line name : List UInt8} (h : Reads b line)
    (hzero : 0 ∉ name) {k : Nat} (hk : k + name.length ≤ 4096) :
    startsWith b.mem (b.buf + k) name = name.isPrefixOf (line.drop k) := by
  rw [Bool.eq_iff_iff, startsWith_iff hzero, h.holds_iff hzero hk, List.isPrefixOf_iff_prefix]

theorem Reads.interpret_eq {b : LineBuffer} {line : List UInt8} (h : Reads b line) {k : Nat}
    (hk : k ≤ 5) (len : Int) : (interpret b.mem (b.buf + k) len).1 = named (line.drop k) := by
  have hfind : (commands.find? fun c => startsWith b.mem (b.buf + k) c.1) =
      commands.find? fun c => c.1.isPrefixOf (line.drop k) := by
    rw [← List.head?_filter, ← List.head?_filter]
    refine congrArg List.head? (List.filter_congr fun c hc => ?_)
    have hname := commands_ne_zero c hc
    exact h.startsWith_eq hname.1 (by omega)
  rw [interpret, hfind, named]
  cases commands.find? fun c => c.1.isPrefixOf (line.drop k) with
  | some c => rfl
  | none => by_cases hlen : len = 0 <;> simp only [hlen, if_true, if_false, Option.map_none]

/-! ## Runs -/

/-- The call that the line asks for is made, and no other. -/
theorem Reads.run_calls {b : LineBuffer} {line : List UInt8} (h : Reads b line) (k : Kernel) :
    (run k b.mem b.buf b.buflen).calls =
      (meant line).toList.map fun c => ⟨c.1, c.2.1, b.buf + c.2.2⟩ := by
  have hperf : startsWith b.mem b.buf (ascii "perf") = (ascii "perf").isPrefixOf line :=
    h.startsWith_eq (k := 0) (by decide) (by decide)
  rw [run, hperf, meant]
  -- Behind `perf` and one more character the same names are looked for.
  by_cases hp : (ascii "perf").isPrefixOf line = true
  · have hname := h.interpret_eq (le_refl 5) ((b.buflen : Int) - 4)
    rw [if_pos hp, if_pos hp]
    rcases hi : interpret b.mem (b.buf + 5) ((b.buflen : Int) - 4) with ⟨func, notices⟩
    rw [hi] at hname
    simp only at hname ⊢
    rw [← hname]
    cases func with
    | none => rfl
    | some c =>
        simp only
        split <;> rfl
  · have hname := h.interpret_eq (Nat.zero_le 5) (b.buflen : Int)
    rw [if_neg hp, if_neg hp]
    rw [Nat.add_zero, List.drop_zero] at hname
    rcases hi : interpret b.mem b.buf (b.buflen : Int) with ⟨func, notices⟩
    rw [hi] at hname
    simp only at hname ⊢
    rw [← hname]
    cases func <;> rfl

/-- The shell behind a command. -/
def Shell.after (s : Shell) (ran : Ran) : Shell :=
  if ran.ret = SHUTDOWN_CODE then ⟨{ s.line with mem := ran.mem }, ran.ret, false⟩
  else ⟨LineBuffer.clear { s.line with mem := ran.mem }, ran.ret, true⟩

theorem typeStep_lineEnd {s : Shell} (hrunning : s.running = true) {ch : UInt8} (hend : IsLineEnd ch)
    (line : List UInt8) (k : Kernel) :
    typeStep (shellRun k) (s, line) ch =
      some (some s.line, s.after (run k s.line.mem s.line.buf s.line.buflen), []) := by
  simp only [typeStep, shellStep, shellRun, Shell.after, hrunning, Bool.true_eq_false, if_false,
    if_pos hend]
  split <;> rfl

theorem Shell.after_spec (s : Shell) (ran : Ran) : (s.after ran).ret = ran.ret ∧
    ((s.after ran).running = false ↔ ran.ret = SHUTDOWN_CODE) ∧
    ((s.after ran).running = true → Reads (s.after ran).line []) := by
  by_cases hret : ran.ret = SHUTDOWN_CODE
  · rw [Shell.after, if_pos hret]
    exact ⟨rfl, iff_of_true rfl hret, by rintro ⟨⟩⟩
  · rw [Shell.after, if_neg hret]
    exact ⟨rfl, iff_of_false (by rintro ⟨⟩) hret, fun _ => Reads.clear _⟩

/-- A line end makes the call that the typed line asks for, and leaves the shell exactly if what is
returned is the code of `shutdown`; any other key makes no call. -/
def CallsMeant (k : Kernel) : Shell × List UInt8 → UInt8 → Option LineBuffer →
    Shell × List UInt8 → Prop
  | (s, line), ch, given, (s', _) =>
      if s.running = true ∧ IsLineEnd ch then
        ∃ b, given = some b ∧
          (run k b.mem b.buf b.buflen).calls =
            (meant line).toList.map (fun c => ⟨c.1, c.2.1, b.buf + c.2.2⟩) ∧
          s'.ret = (run k b.mem b.buf b.buflen).ret ∧
          (s'.running = false ↔ s'.ret = SHUTDOWN_CODE)
      else given = none ∧ s'.running = s.running

/-- No line grows beyond 4095 characters. -/
def ShellRoom : Shell × List UInt8 → UInt8 → Prop
  | (s, line), ch => s.running = true → ¬ IsLineEnd ch → ¬ IsErase ch → line.length < 4095

theorem length_edited_le (line : List UInt8) (ch : UInt8) :
    (edited line ch).length ≤ line.length + 1 := by
  rw [edited]
  split
  · rw [List.length_dropLast]
    omega
  · rw [List.length_append, List.length_singleton]

theorem typeStep_line {run : ByteMem → Nat → Nat → Int × ByteMem} {s s' : Shell}
    {line line' : List UInt8} {ch : UInt8} {given : Option LineBuffer}
    (h : typeStep run (s, line) ch = some (given, s', line')) :
    line' = if IsLineEnd ch then [] else edited line ch := by
  obtain ⟨⟨given', t⟩, -, ht⟩ := Option.map_eq_some_iff.mp h
  cases ht
  rfl

/-- However they are cut into lines, 4095 keys fit. -/
theorem shellRoom_of_length {run : ByteMem → Nat → Nat → Int × ByteMem} {keys line : List UInt8}
    (h : line.length + keys.length ≤ 4095) (s : Shell) :
    Guarded (typeStep run) ShellRoom (s, line) keys := by
  induction keys generalizing s line with
  | nil => trivial
  | cons ch keys ih =>
      rw [List.length_cons] at h
      refine ⟨fun _ _ _ => by omega, ?_⟩
      rintro given ⟨s', line'⟩ hrun
      refine ih ?_ s'
      rw [typeStep_line hrun]
      split
      · rw [List.length_nil]
        omega
      · have := length_edited_le line ch
        omega

/-- **The shell's sessions.** For every sequence of keys whose lines fit the buffer, and whatever
the commands do to memory. -/
theorem shell_calls (k : Kernel) (mem : ByteMem) (buf : Nat) (keys : List UInt8)
    (hroom : Guarded (typeStep (shellRun k)) ShellRoom (shellStart mem buf) keys) :
    EachCall (typeStep (shellRun k)) (CallsMeant k) (shellStart mem buf) keys := by
  refine eachCall_of_allowed ShellInv ?_ (fun _ => Reads.clear _) hroom
  rintro ⟨s, line⟩ ch hinv hguard
  cases hrunning : s.running with
  | false =>
      refine ⟨_, _, typeStep_stopped hrunning line ch, ?_, ?_⟩
      · rw [CallsMeant, if_neg (by rw [hrunning]; rintro ⟨⟨⟩, -⟩)]
        exact ⟨rfl, rfl⟩
      · intro h
        cases hrunning.symm.trans h
  | true =>
      have hreads : Reads s.line line := hinv hrunning
      by_cases hend : IsLineEnd ch
      · obtain ⟨hret, hstop, hclear⟩ := s.after_spec (run k s.line.mem s.line.buf s.line.buflen)
        refine ⟨_, _, typeStep_lineEnd hrunning hend line k, ?_, hclear⟩
        rw [CallsMeant, if_pos ⟨hrunning, hend⟩]
        exact ⟨s.line, rfl, hreads.run_calls k, hret, hret.symm ▸ hstop⟩
      · refine ⟨_, _, typeStep_edit hrunning hend line, ?_, fun _ => ?_⟩
        · rw [CallsMeant, if_neg fun hnot => hend hnot.2]
          exact ⟨rfl, rfl⟩
        · by_cases herase : IsErase ch
          · exact hreads.erase herase
          · exact hreads.put herase (hguard hrunning hend herase)

/-- A kernel whose commands do nothing. -/
def idleKernel : Kernel where
  command := fun _ _ m => (0, m)
  begin_profiling := id
  end_profiling := fun m => (0, m)
  perf_print := id
  perf_cleanup := fun m => (0, m)

theorem shell_calls_ls :
    EachCall (typeStep (shellRun idleKernel)) (CallsMeant idleKernel) (shellStart (fun _ => 0) 4096)
      (ascii "perf ls" ++ [13] ++ ascii "shutdown" ++ [13]) :=
  shell_calls idleKernel _ _ _ (shellRoom_of_length (by decide) _)

end Stdlib
end EmbeddedOS
