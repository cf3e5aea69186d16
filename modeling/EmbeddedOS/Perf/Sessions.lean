import EmbeddedOS.Base.Runs
import EmbeddedOS.Perf.Events
import EmbeddedOS.Stdlib.LineInput
import Mathlib.Data.List.Count
import Mathlib.Logic.Function.Basic

/-!
# Profiling sessions

`get_events` and `perf_cleanup` of `perf.c`, and the branch of `run` in `shell.c` that profiles a
command. They communicate through `n_events`, `events` and `names`. A session that is rejected keeps
what the last accepted one left there, and `run` cleans up after it all the same.
-/

namespace EmbeddedOS
namespace Perf

open Base Stdlib

/-! ## The code -/

/-- The globals. The blocks that `get_events` allocates are numbered in order; `dels` are those
passed to `del`, one behind the other. -/
structure PerfState where
  n_events : Nat
  events : Nat → Int
  names : Nat → Option Nat
  allocated : Nat
  dels : List Nat

/-- After `init_events`. -/
def PerfState.start : PerfState := ⟨0, fun _ => -1, fun _ => none, 0, []⟩

/-- What comes of reading keys: they end before the reader is done, a line grows beyond the 4096
bytes of `buf`, or something is read. -/
inductive Got (α : Type) where
  | waits
  | overruns
  | done (a : α)

/-- The loop `while (done == 0)`, with the keys behind the line end. -/
def readLine (line : List UInt8) : List UInt8 → Got (List UInt8 × List UInt8)
  | [] => .waits
  | ch :: keys =>
      if IsLineEnd ch then
        -- A full buffer is no string unless a NUL was typed.
        if line.length = 4096 ∧ 0 ∉ line then .overruns else .done (line, keys)
      else if ¬ IsErase ch ∧ line.length = 4096 then .overruns
      else readLine (edited line ch) keys

section Events

-- `perf_lookup`, as the number of the event found.
variable (lookup : List UInt8 → Option Nat)

/-- `for (int i = 0; i < chosen; i++)`, from `i` on. A block is to be had for the first `room` names.
Every pass reads a key, so their number bounds `fuel`. -/
def chooseFrom (room chosen : Nat) : Nat → Nat → List UInt8 → PerfState → Got PerfState
  | 0, _, _, _ => .waits
  | fuel + 1, i, keys, s =>
      if i < chosen then
        match readLine [] keys with
        | .waits => .waits
        | .overruns => .overruns
        | .done (buf, keys) =>
            match lookup (buf.takeWhile (· != 0)) with
            | none => chooseFrom room chosen fuel i keys s
            | some event_number =>
                let s := { s with events := Function.update s.events i event_number }
                if i < room then
                  let s := { s with
                    names := Function.update s.names i (some s.allocated)
                    allocated := s.allocated + 1 }
                  chooseFrom room chosen fuel (i + 1) keys s
                else .done { s with names := Function.update s.names i none }
      else .done s

/-- `get_events`, with whether it returns an error. -/
def get_events (room : Nat) (keys : List UInt8) (s : PerfState) : Got (Bool × PerfState) :=
  match keys with
  | [] => .waits
  | n_chosen :: keys =>
      let chosen : Int := (n_chosen.toNat : Int) - 48
      if chosen < 1 ∨ chosen > 9 then .done (true, s)
      else
        match chooseFrom lookup room chosen.toNat (keys.length + 1) 0 keys
          { s with n_events := chosen.toNat } with
        | .waits => .waits
        | .overruns => .overruns
        | .done s => .done (false, s)

/-- `for (int i = 0; i < n_events; i++)` of `perf_cleanup`, for the `k` last names from `i` on.
`cull` of a null pointer searches past the last region. -/
def cleanFrom : Nat → Nat → PerfState → Option PerfState
  | 0, _, s => some s
  | k + 1, i, s =>
      match s.names i with
      | none => none
      | some b =>
          cleanFrom k (i + 1)
            { s with events := Function.update s.events i (-1), dels := s.dels ++ [b] }

def perf_cleanup (s : PerfState) : Option PerfState := cleanFrom s.n_events 0 s

/-- A line `perf <command>`: whether `interpret` knows the command, the keys typed at `get_events`,
the number of names for which there is a block, and what the command returns. -/
structure PerfLine where
  known : Bool
  keys : List UInt8
  room : Nat
  ret : Int

/-- `run` behind `begin_profiling`, with whether the session ends without error. -/
def finish (s : PerfState) (x : PerfLine) : Option (Bool × PerfState) :=
  if x.ret ≠ 0 then some (false, s) else (perf_cleanup s).map fun s => (true, s)

/-- The branch of `run`, with whether a session came to an end without error. -/
def perfStep (s : PerfState) (x : PerfLine) : Option (Bool × PerfState) :=
  if x.known = false then some (false, s)
  else
    match get_events lookup x.room x.keys s with
    | .waits => none
    | .overruns => none
    -- `begin_profiling` returns early on an error, `run` does not.
    | .done (_, s) => finish s x

end Events

/-- No event is left, and every block that was allocated has been culled once. -/
def CleanedUp (s : PerfState) : Prop :=
  (∀ i < 10, s.events i = -1) ∧ ∀ b < s.allocated, s.dels.count b = 1

/-! ## What is typed -/

/-- What a user tells `get_events`: an invalid number, or one of events, each with its number. -/
inductive Choice where
  | rejected
  | accepted (chosen : Nat) (numbers : List Nat)

section Typed

variable (lookup : List UInt8 → Option Nat)

/-- The numbers of the events that are chosen, up to the first without a block. -/
def typedFrom (room chosen : Nat) : Nat → Nat → List UInt8 → Got (List Nat)
  | 0, _, _ => .waits
  | fuel + 1, i, keys =>
      if i < chosen then
        match readLine [] keys with
        | .waits => .waits
        | .overruns => .overruns
        | .done (buf, keys) =>
            match lookup (buf.takeWhile (· != 0)) with
            | none => typedFrom room chosen fuel i keys
            | some event_number =>
                if i < room then
                  match typedFrom room chosen fuel (i + 1) keys with
                  | .waits => .waits
                  | .overruns => .overruns
                  | .done numbers => .done (event_number :: numbers)
                else .done [event_number]
      else .done []

def typed (room : Nat) (keys : List UInt8) : Got Choice :=
  match keys with
  | [] => .waits
  | n_chosen :: keys =>
      let chosen : Int := (n_chosen.toNat : Int) - 48
      if chosen < 1 ∨ chosen > 9 then .done .rejected
      else
        match typedFrom lookup room chosen.toNat (keys.length + 1) 0 keys with
        | .waits => .waits
        | .overruns => .overruns
        | .done numbers => .done (.accepted chosen.toNat numbers)

end Typed

/-- What the numbers make of the globals, from `i` on. -/
def choose (room : Nat) : Nat → List Nat → PerfState → PerfState
  | _, [], s => s
  | i, event_number :: numbers, s =>
      let s := { s with events := Function.update s.events i event_number }
      if i < room then
        choose room (i + 1) numbers { s with
          names := Function.update s.names i (some s.allocated)
          allocated := s.allocated + 1 }
      else { s with names := Function.update s.names i none }

variable {lookup : List UInt8 → Option Nat} {room chosen : Nat}

theorem chooseFrom_eq (fuel i : Nat) (keys : List UInt8) (s : PerfState) :
    chooseFrom lookup room chosen fuel i keys s =
      match typedFrom lookup room chosen fuel i keys with
      | .waits => .waits
      | .overruns => .overruns
      | .done numbers => .done (choose room i numbers s) := by
  induction fuel generalizing i keys s with
  | zero => rfl
  | succ fuel ih =>
      rw [chooseFrom, typedFrom]
      by_cases hi : i < chosen
      · rw [if_pos hi, if_pos hi]
        cases readLine [] keys with
        | waits => rfl
        | overruns => rfl
        | done r =>
            simp only
            cases lookup (r.1.takeWhile (· != 0)) with
            | none => exact ih i r.2 s
            | some event_number =>
                simp only
                by_cases hroom : i < room
                · rw [if_pos hroom, if_pos hroom, ih]
                  cases typedFrom lookup room chosen fuel (i + 1) r.2 <;> simp [choose, hroom]
                · rw [if_neg hroom, if_neg hroom]
                  simp [choose, hroom]
      · rw [if_neg hi, if_neg hi]
        rfl

/-- One number for each name, and one more where there is no block for the next. -/
theorem typedFrom_length {fuel i : Nat} {keys : List UInt8} {numbers : List Nat} (hi : i ≤ chosen)
    (h : typedFrom lookup room chosen fuel i keys = .done numbers) :
    (chosen ≤ room → numbers.length = chosen - i) ∧
      (room < chosen → i ≤ room → numbers.length = room + 1 - i) := by
  induction fuel generalizing i keys numbers with
  | zero => cases h
  | succ fuel ih =>
      rw [typedFrom] at h
      by_cases hlt : i < chosen
      · rw [if_pos hlt] at h
        cases hread : readLine [] keys with
        | waits =>
            rw [hread] at h
            cases h
        | overruns =>
            rw [hread] at h
            cases h
        | done r =>
            rw [hread] at h
            simp only at h
            cases hfound : lookup (r.1.takeWhile (· != 0)) with
            | none =>
                rw [hfound] at h
                exact ih hi h
            | some event_number =>
                rw [hfound] at h
                simp only at h
                by_cases hroom : i < room
                · rw [if_pos hroom] at h
                  cases hrest : typedFrom lookup room chosen fuel (i + 1) r.2 with
                  | waits =>
                      rw [hrest] at h
                      cases h
                  | overruns =>
                      rw [hrest] at h
                      cases h
                  | done rest =>
                      rw [hrest] at h
                      cases h
                      have hlen := ih hlt hrest
                      simp only [List.length_cons]
                      omega
                · rw [if_neg hroom] at h
                  cases h
                  simp only [List.length_singleton]
                  omega
      · rw [if_neg hlt] at h
        cases h
        simp only [List.length_nil]
        omega

theorem get_events_eq (keys : List UInt8) (s : PerfState) :
    get_events lookup room keys s =
      match typed lookup room keys with
      | .waits => .waits
      | .overruns => .overruns
      | .done .rejected => .done (true, s)
      | .done (.accepted chosen numbers) =>
          .done (false, choose room 0 numbers { s with n_events := chosen }) := by
  cases keys with
  | nil => rfl
  | cons n_chosen keys =>
      simp only [get_events, typed]
      split
      · rfl
      · rw [chooseFrom_eq]
        cases typedFrom lookup room ((n_chosen.toNat : Int) - 48).toNat (keys.length + 1) 0 keys <;>
          rfl

theorem typed_accepted {keys : List UInt8} {numbers : List Nat}
    (h : typed lookup room keys = .done (.accepted chosen numbers)) :
    1 ≤ chosen ∧ chosen ≤ 9 ∧ (chosen ≤ room → numbers.length = chosen) ∧
      (room < chosen → numbers.length = room + 1) := by
  cases keys with
  | nil => cases h
  | cons n_chosen keys =>
      simp only [typed] at h
      split at h
      · cases h
      · rename_i hvalid
        cases hrest : typedFrom lookup room ((n_chosen.toNat : Int) - 48).toNat (keys.length + 1) 0
            keys with
        | waits =>
            rw [hrest] at h
            cases h
        | overruns =>
            rw [hrest] at h
            cases h
        | done rest =>
            rw [hrest] at h
            cases h
            have hlen := typedFrom_length (Nat.zero_le _) hrest
            omega

/-! ## What a session does to the globals -/

theorem choose_spec {i : Nat} {numbers : List Nat} (s : PerfState)
    (h : i + numbers.length ≤ room + 1) :
    (choose room i numbers s).n_events = s.n_events ∧
      (choose room i numbers s).dels = s.dels ∧
      (choose room i numbers s).allocated = s.allocated + min numbers.length (room - i) ∧
      (∀ j, j < i ∨ i + numbers.length ≤ j →
        (choose room i numbers s).events j = s.events j ∧
          (choose room i numbers s).names j = s.names j) ∧
      (∀ j, i ≤ j → j < i + numbers.length →
        (choose room i numbers s).names j =
          if j < room then some (s.allocated + (j - i)) else none) := by
  induction numbers generalizing i s with
  | nil =>
      refine ⟨rfl, rfl, by simp [choose], fun j _ => ⟨rfl, rfl⟩, fun j hj hj' => ?_⟩
      simp only [List.length_nil] at hj'
      omega
  | cons event_number numbers ih =>
      rw [List.length_cons] at h
      rw [choose]
      simp only [List.length_cons]
      -- Without a block the choice ends; this is the last number then.
      by_cases hroom : i < room
      · rw [if_pos hroom]
        obtain ⟨hn, hdels, hall, hout, hin⟩ := ih (i := i + 1)
          { s with
            events := Function.update s.events i (event_number : Int)
            names := Function.update s.names i (some s.allocated)
            allocated := s.allocated + 1 } (by omega)
        refine ⟨hn, hdels, by rw [hall]; simp only; omega, ?_, ?_⟩
        · intro j hj
          obtain ⟨hevents, hnames⟩ := hout j (by omega)
          rw [hevents, hnames]
          simp only
          rw [Function.update_of_ne (by omega), Function.update_of_ne (by omega)]
          exact ⟨rfl, rfl⟩
        · intro j hj hj'
          by_cases hfirst : j = i
          · subst hfirst
            rw [(hout j (by omega)).2, if_pos hroom]
            simp
          -- The blocks of the later names are counted from this one.
          · have hsum : s.allocated + 1 + (j - (i + 1)) = s.allocated + (j - i) := by omega
            rw [hin j (by omega) (by omega)]
            simp only [hsum]
      · rw [if_neg hroom]
        have hlast : numbers.length = 0 := by omega
        refine ⟨rfl, rfl, by simp only; omega, ?_, ?_⟩
        · intro j hj
          simp only
          rw [Function.update_of_ne (by omega), Function.update_of_ne (by omega)]
          exact ⟨rfl, rfl⟩
        · intro j hj hj'
          obtain rfl : j = i := by omega
          simp only
          rw [Function.update_self, if_neg hroom]

/-- What an accepted choice leaves. -/
structure Chosen (s s' : PerfState) (room chosen : Nat) : Prop where
  n_events : s'.n_events = chosen
  dels : s'.dels = s.dels
  allocated : s'.allocated = s.allocated + min chosen room
  given : ∀ j < chosen, j < room → s'.names j = some (s.allocated + j)
  refused : room < chosen → s'.names room = none
  kept : ∀ j, chosen ≤ j ∨ room < j → s'.events j = s.events j ∧ s'.names j = s.names j

theorem chosen_choose {keys : List UInt8} {numbers : List Nat}
    (h : typed lookup room keys = .done (.accepted chosen numbers)) (s : PerfState) :
    Chosen s (choose room 0 numbers { s with n_events := chosen }) room chosen := by
  obtain ⟨hone, -, hall, hsome⟩ := typed_accepted h
  have hlen : numbers.length = min chosen (room + 1) := by omega
  obtain ⟨hn, hdels, hallocated, hout, hin⟩ :=
    @choose_spec room 0 numbers { s with n_events := chosen } (by omega)
  refine ⟨hn, hdels, by rw [hallocated]; simp only; omega, ?_, ?_, ?_⟩
  · intro j hj hroom
    rw [hin j (Nat.zero_le j) (by omega), if_pos hroom, Nat.sub_zero]
  · intro hroom
    rw [hin room (Nat.zero_le room) (by omega), if_neg (Nat.lt_irrefl room)]
  · intro j hj
    exact hout j (by omega)

/-! ## The clean-up -/

/-- What the clean-up passes to `del`, and what it leaves. -/
theorem cleanFrom_spec {k i : Nat} {s s' : PerfState} (h : cleanFrom k i s = some s') :
    ∃ blocks : List Nat, blocks.length = k ∧ (∀ j < k, s.names (i + j) = blocks[j]?) ∧
      s'.n_events = s.n_events ∧ s'.names = s.names ∧ s'.allocated = s.allocated ∧
      s'.dels = s.dels ++ blocks ∧
      ∀ j, s'.events j = if i ≤ j ∧ j < i + k then -1 else s.events j := by
  induction k generalizing i s with
  | zero =>
      cases h
      refine ⟨[], rfl, fun j hj => by omega, rfl, rfl, rfl, (List.append_nil _).symm, fun j => ?_⟩
      rw [if_neg (by omega)]
  | succ k ih =>
      rw [cleanFrom] at h
      cases hb : s.names i with
      | none =>
          rw [hb] at h
          cases h
      | some b =>
          rw [hb] at h
          obtain ⟨blocks, hlen, hnames, hn, hkept, hall, hdels, hevents⟩ := ih h
          refine ⟨b :: blocks, by rw [List.length_cons, hlen], ?_, hn, hkept, hall, ?_, ?_⟩
          · intro j hj
            cases j with
            | zero => simpa using hb
            | succ j =>
                have hindex : i + (j + 1) = i + 1 + j := by omega
                rw [List.getElem?_cons_succ, hindex]
                exact hnames j (by omega)
          · rw [hdels, List.append_assoc]
            rfl
          · intro j
            rw [hevents j]
            simp only
            by_cases hfirst : j = i
            · subst hfirst
              rw [if_neg (by omega), Function.update_self, if_pos (by omega)]
            · rw [Function.update_of_ne hfirst]
              by_cases hin : i + 1 ≤ j ∧ j < i + 1 + k
              · rw [if_pos hin, if_pos (by omega)]
              · rw [if_neg hin, if_neg (by omega)]

theorem cleanFrom_isSome {k i : Nat} {s : PerfState} (h : ∀ j < k, ∃ b, s.names (i + j) = some b) :
    ∃ s', cleanFrom k i s = some s' := by
  induction k generalizing i s with
  | zero => exact ⟨s, rfl⟩
  | succ k ih =>
      rcases h 0 (Nat.succ_pos k) with ⟨b, hb⟩
      rw [Nat.add_zero] at hb
      rw [cleanFrom, hb]
      refine ih fun j hj => ?_
      have hlater := h (j + 1) (by omega)
      rwa [Nat.add_assoc, Nat.add_comm 1]

theorem perf_cleanup_spec {s s' : PerfState} (h : perf_cleanup s = some s') :
    ∃ blocks : List Nat, blocks.length = s.n_events ∧
      (∀ j < s.n_events, s.names j = blocks[j]?) ∧ s'.n_events = s.n_events ∧
      s'.names = s.names ∧ s'.allocated = s.allocated ∧ s'.dels = s.dels ++ blocks ∧
      ∀ j, s'.events j = if j < s.n_events then -1 else s.events j := by
  simpa using cleanFrom_spec h

/-- A name without a block stops the clean-up. -/
theorem perf_cleanup_null {s s' : PerfState} (h : perf_cleanup s = some s') {j : Nat}
    (hj : j < s.n_events) : s.names j ≠ none := by
  obtain ⟨blocks, hlen, hnames, -⟩ := perf_cleanup_spec h
  rw [hnames j hj, Ne, List.getElem?_eq_none_iff]
  omega

/-- A block without a name is not culled. -/
theorem perf_cleanup_kept {s s' : PerfState} (h : perf_cleanup s = some s') {b : Nat}
    (hb : ∀ j < s.n_events, s.names j ≠ some b) : s'.dels.count b = s.dels.count b := by
  obtain ⟨blocks, hlen, hnames, -, -, -, hdels, -⟩ := perf_cleanup_spec h
  have hnot : b ∉ blocks := by
    intro hmem
    rcases List.getElem?_of_mem hmem with ⟨j, hj⟩
    have hlt : j < s.n_events := hlen ▸ (List.getElem?_eq_some_iff.mp hj).1
    exact hb j hlt ((hnames j hlt).trans hj)
  rw [hdels, List.count_append, List.count_eq_zero_of_not_mem hnot, Nat.add_zero]

/-- A block with a name is culled. -/
theorem perf_cleanup_culled {s s' : PerfState} (h : perf_cleanup s = some s') {b j : Nat}
    (hj : j < s.n_events) (hb : s.names j = some b) : s.dels.count b < s'.dels.count b := by
  obtain ⟨blocks, hlen, hnames, -, -, -, hdels, -⟩ := perf_cleanup_spec h
  have hmem : b ∈ blocks := List.mem_of_getElem? ((hnames j hj).symm.trans hb)
  have hpos := List.count_pos_iff.mpr hmem
  rw [hdels, List.count_append]
  omega

/-- The blocks of one session are culled once each. -/
theorem perf_cleanup_fresh {s : PerfState} {old : Nat}
    (hnames : ∀ j < s.n_events, s.names j = some (old + j)) :
    ∃ s', perf_cleanup s = some s' ∧ ∀ b, s'.dels.count b =
      s.dels.count b + if old ≤ b ∧ b < old + s.n_events then 1 else 0 := by
  rcases cleanFrom_isSome (k := s.n_events) (i := 0) (s := s) (fun j hj => by
    rw [Nat.zero_add]
    exact ⟨_, hnames j hj⟩) with ⟨s', hs'⟩
  obtain ⟨blocks, hlen, hblocks, -, -, -, hdels, -⟩ := perf_cleanup_spec hs'
  -- The blocks of one session are numbered in a row.
  have hrange : blocks = List.range' old s.n_events := by
    refine List.ext_getElem? fun j => ?_
    by_cases hj : j < s.n_events
    · rw [← hblocks j hj, hnames j hj, List.getElem?_range' (by omega), Nat.one_mul]
    · rw [List.getElem?_eq_none (by omega), List.getElem?_eq_none (by simp; omega)]
  have hnodup : (List.range' old s.n_events).Nodup := List.nodup_range' 1
  refine ⟨s', hs', fun b => ?_⟩
  rw [hdels, List.count_append, hrange, hnodup.count]
  simp only [List.mem_range'_1]

/-- Where just the named blocks wait to be culled, the clean-up culls all that wait. -/
theorem perf_cleanup_pending {s : PerfState} {old : Nat} (hall : s.allocated = old + s.n_events)
    (hnames : ∀ j < s.n_events, s.names j = some (old + j))
    (hbefore : ∀ b < old, s.dels.count b = 1) (hafter : ∀ b, old ≤ b → s.dels.count b = 0)
    (hevents : ∀ i, s.n_events ≤ i → i < 10 → s.events i = -1) :
    ∃ s', perf_cleanup s = some s' ∧ CleanedUp s' ∧ s'.n_events = s.n_events ∧ s'.names = s.names ∧
      s'.allocated = s.allocated ∧ ∀ b, s'.allocated ≤ b → s'.dels.count b = 0 := by
  rcases perf_cleanup_fresh hnames with ⟨s', hs', hcount⟩
  obtain ⟨-, -, -, hn, hkept, hallocated, -, hcleared⟩ := perf_cleanup_spec hs'
  refine ⟨s', hs', ⟨?_, ?_⟩, hn, hkept, hallocated, ?_⟩
  · intro i hi
    rw [hcleared i]
    by_cases hlt : i < s.n_events
    · rw [if_pos hlt]
    · rw [if_neg hlt]
      exact hevents i (by omega) hi
  · intro b hb
    rw [hcount b]
    by_cases hold : b < old
    · rw [hbefore b hold, if_neg (by omega)]
    · rw [hafter b (by omega), if_pos (by omega)]
  · intro b hb
    rw [hcount b, hafter b (by omega), if_neg (by omega)]

theorem perfStep_eq {x : PerfLine} (hknown : x.known = true) (s : PerfState) :
    perfStep lookup s x =
      match typed lookup x.room x.keys with
      | .waits => none
      | .overruns => none
      | .done .rejected => finish s x
      | .done (.accepted chosen numbers) =>
          finish (choose x.room 0 numbers { s with n_events := chosen }) x := by
  rw [perfStep, if_neg (by simp [hknown]), get_events_eq]
  cases typed lookup x.room x.keys with
  | waits => rfl
  | overruns => rfl
  | done choice => cases choice <;> rfl

end Perf
end EmbeddedOS
