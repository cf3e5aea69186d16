import Mathlib.Computability.Language

/-!
# Structured control flow and its traces

A statement of an imperative language by the traces of its paths, one language for each way to
leave it: at its end, by `break` or `continue`, by a jump to the label of its function, or by a
return. A test may be left open, with both branches among the paths. For traces of pushes and pops
on a stack there is a rule for each form of statement, by which a function comes back to the level
it was called at and never drops below it.
-/

namespace EmbeddedOS
namespace Base

open Computability

/-! ## Statements -/

universe u

/-- The traces of the paths through a statement, by where they leave it. -/
structure Flow (α : Type u) where
  falls : Language α
  breaks : Language α
  continues : Language α
  exits : Language α
  returns : Language α

namespace Flow

variable {α : Type u}

def skip : Flow α := ⟨1, 0, 0, 0, 0⟩

/-- A statement with a trace of its own. -/
def emit (a : α) : Flow α := ⟨{[a]}, 0, 0, 0, 0⟩

/-- The call of a function with these traces. -/
def call (traces : Language α) : Flow α := ⟨traces, 0, 0, 0, 0⟩

def leave : Flow α := ⟨0, 1, 0, 0, 0⟩

def next : Flow α := ⟨0, 0, 1, 0, 0⟩

def exit : Flow α := ⟨0, 0, 0, 1, 0⟩

def ret : Flow α := ⟨0, 0, 0, 0, 1⟩

def seq (F G : Flow α) : Flow α where
  falls := F.falls * G.falls
  breaks := F.breaks + F.falls * G.breaks
  continues := F.continues + F.falls * G.continues
  exits := F.exits + F.falls * G.exits
  returns := F.returns + F.falls * G.returns

def block : List (Flow α) → Flow α
  | [] => skip
  | F :: Fs => F.seq (block Fs)

/-- An `if` whose test is left open. -/
def either (F G : Flow α) : Flow α where
  falls := F.falls + G.falls
  breaks := F.breaks + G.breaks
  continues := F.continues + G.continues
  exits := F.exits + G.exits
  returns := F.returns + G.returns

/-- An `if` without an `else`, its test left open. -/
def when (F : Flow α) : Flow α :=
  F.either skip

/-- A loop whose test is left open. -/
def loop (F : Flow α) : Flow α where
  falls := (F.falls + F.continues)∗ * (1 + F.breaks)
  breaks := 0
  continues := 0
  exits := (F.falls + F.continues)∗ * F.exits
  returns := (F.falls + F.continues)∗ * F.returns

/-- A function without a label. -/
def proc (body : Flow α) : Language α :=
  body.falls + body.returns

/-- A function with a label behind its body. -/
def func (body tail : Flow α) : Language α :=
  body.returns + (body.falls + body.exits) * proc tail

end Flow

/-! ## Pushes and pops -/

inductive Mark where
  | push
  | pop
deriving DecidableEq, Repr

/-- The level after a mark. -/
def Mark.move (d : Int) : Mark → Int
  | .push => d + 1
  | .pop => d - 1

/-- The place of the stack that a mark writes to. -/
def Mark.index (d : Int) : Mark → Int
  | .push => d
  | .pop => d - 1

/-- The level after a list of marks. -/
def level (d : Int) (w : List Mark) : Int :=
  w.foldl Mark.move d

/-- The level at the end is that of the start, and no level between is below it. -/
structure Balanced (w : List Mark) : Prop where
  kept : ∀ d, level d w = d
  above : ∀ d p, p <+: w → d ≤ level d p

/-- Every place that is written to is one of `n`. -/
def Within (n : Nat) (d : Int) (w : List Mark) : Prop :=
  ∀ p m, p ++ [m] <+: w → 0 ≤ m.index (level d p) ∧ m.index (level d p) < (n : Int)

/-- The levels from `a` on stay between 0 and `h`, and end at the level given. -/
def walk (h : Nat) : Nat → List Mark → Option Nat
  | a, [] => some a
  | a, .push :: w => if a < h then walk h (a + 1) w else none
  | 0, .pop :: _ => none
  | a + 1, .pop :: w => walk h a w

theorem level_append (d : Int) (w w' : List Mark) : level d (w ++ w') = level (level d w) w' :=
  List.foldl_append

section Walk

variable {h k a b c : Nat} {w w' : List Mark}

theorem walk_append (hw : walk h a w = some b) (hw' : walk h b w' = some c) :
    walk h a (w ++ w') = some c := by
  induction w generalizing a with
  | nil =>
      cases hw
      exact hw'
  | cons m w ih =>
      cases m with
      | push =>
          rw [walk] at hw
          split at hw
          · next hlt =>
              rw [List.cons_append, walk, if_pos hlt]
              exact ih hw
          · cases hw
      | pop =>
          cases a with
          | zero => cases hw
          | succ a => exact ih hw

/-- A walk may start further up, below a higher bound. -/
theorem walk_up (hw : walk h a w = some b) (hle : h + k ≤ c) :
    walk c (a + k) w = some (b + k) := by
  induction w generalizing a with
  | nil =>
      cases hw
      rfl
  | cons m w ih =>
      cases m with
      | push =>
          rw [walk] at hw
          split at hw
          · next hlt =>
              rw [walk, if_pos (by omega), Nat.add_right_comm]
              exact ih hw
          · cases hw
      | pop =>
          cases a with
          | zero => cases hw
          | succ a =>
              rw [Nat.add_right_comm]
              exact ih hw

theorem level_walk (hw : walk h a w = some b) (d : Int) : level (d + a) w = d + b := by
  induction w generalizing a with
  | nil =>
      cases hw
      rfl
  | cons m w ih =>
      cases m with
      | push =>
          rw [walk] at hw
          split at hw
          · have hmove : Mark.move (d + (a : Int)) .push = d + ((a + 1 : Nat) : Int) := by
              rw [Mark.move]
              omega
            rw [level, List.foldl_cons, hmove]
            exact ih hw
          · cases hw
      | pop =>
          cases a with
          | zero => cases hw
          | succ a =>
              have hmove : Mark.move (d + ((a + 1 : Nat) : Int)) .pop = d + a := by
                rw [Mark.move]
                omega
              rw [level, List.foldl_cons, hmove]
              exact ih hw

/-- Every prefix of a walk is one. -/
theorem walk_prefix (hw : walk h a (w ++ w') = some c) : ∃ b, walk h a w = some b ∧ b ≤ max a h := by
  induction w generalizing a with
  | nil => exact ⟨a, rfl, Nat.le_max_left a h⟩
  | cons m w ih =>
      cases m with
      | push =>
          rw [List.cons_append, walk] at hw
          split at hw
          · next hlt =>
              rcases ih hw with ⟨b, hb, hle⟩
              refine ⟨b, by rw [walk, if_pos hlt]; exact hb, ?_⟩
              omega
          · cases hw
      | pop =>
          cases a with
          | zero => cases hw
          | succ a =>
              rcases ih hw with ⟨b, hb, hle⟩
              refine ⟨b, hb, ?_⟩
              omega

end Walk

/-- From 0 back to 0, never above `h`. -/
def Nested (h : Nat) (w : List Mark) : Prop :=
  walk h 0 w = some 0

section Nested

variable {h k : Nat} {w w' : List Mark}

theorem Nested.nil : Nested h [] :=
  rfl

theorem Nested.mono (hw : Nested h w) (hle : h ≤ k) : Nested k w :=
  walk_up (k := 0) hw hle

theorem Nested.append (hw : Nested h w) (hw' : Nested h w') : Nested h (w ++ w') :=
  walk_append hw hw'

theorem Nested.balanced (hw : Nested h w) : Balanced w where
  kept := by
    intro d
    simpa using level_walk hw d
  above := by
    rintro d p ⟨q, rfl⟩
    rcases walk_prefix hw with ⟨b, hb, _⟩
    have hlevel : level d p = d + b := by simpa using level_walk hb d
    omega

theorem Nested.within (hw : Nested h w) {n : Nat} {d : Int} (hd : 0 ≤ d) (hn : d + h ≤ n) :
    Within n d w := by
  rintro p m ⟨q, rfl⟩
  rw [List.append_assoc] at hw
  rcases walk_prefix hw with ⟨b, hb, hle⟩
  have hlevel : level d p = d + b := by simpa using level_walk hb d
  have hnext : walk h 0 (p ++ [m] ++ q) = some 0 := by
    rw [List.append_assoc]
    exact hw
  rcases walk_prefix hnext with ⟨c, hc, hcle⟩
  have hmoved : m.move (level d p) = d + c :=
    calc m.move (level d p) = level d (p ++ [m]) := (level_append d p [m]).symm
      _ = d + c := by simpa using level_walk hc d
  rw [hlevel] at hmoved
  cases m with
  | push =>
      have hup : d + b + 1 = d + c := hmoved
      rw [hlevel, Mark.index]
      omega
  | pop =>
      have hdown : d + b - 1 = d + c := hmoved
      rw [hlevel, Mark.index]
      omega

/-- A push and a pop around what nests. -/
theorem Nested.bracket (hw : Nested h w) : Nested (h + 1) (.push :: (w ++ [.pop])) := by
  have hup : walk (h + 1) 1 w = some 1 := walk_up (k := 1) hw (Nat.le_refl _)
  rw [Nested, walk, if_pos (Nat.succ_pos h)]
  exact walk_append hup rfl

end Nested

/-! ## Functions that come back to their level -/

/-- Every trace nests, no higher than `h`. -/
def Rises (h : Nat) (traces : Language Mark) : Prop :=
  ∀ w ∈ traces, Nested h w

/-- A statement of a function between its push and its pop: it leads from level `a` to `b`, leaves
its loops and jumps to the label at level 1, and returns at level 0. -/
structure Body (h a b : Nat) (F : Flow Mark) : Prop where
  falls : ∀ w ∈ F.falls, walk h a w = some b
  breaks : ∀ w ∈ F.breaks, walk h a w = some 1
  continues : ∀ w ∈ F.continues, walk h a w = some 1
  exits : ∀ w ∈ F.exits, walk h a w = some 1
  returns : ∀ w ∈ F.returns, walk h a w = some 0

section Rules

variable {h k a b c : Nat} {F G : Flow Mark} {L M : Language Mark}

theorem Rises.mono (hL : Rises h L) (hle : h ≤ k) : Rises k L :=
  fun w hw => (hL w hw).mono hle

theorem Rises.one : Rises h 1 := by
  rintro w rfl
  exact .nil

theorem Rises.mul (hL : Rises h L) (hM : Rises h M) : Rises h (L * M) := by
  rintro w ⟨u, hu, v, hv, rfl⟩
  exact (hL u hu).append (hM v hv)

namespace Body

theorem skip : Body h a a .skip where
  falls := by
    rintro w rfl
    rfl
  breaks := nofun
  continues := nofun
  exits := nofun
  returns := nofun

theorem push (hlt : a < h) : Body h a (a + 1) (.emit .push) where
  falls := by
    rintro w rfl
    rw [walk, if_pos hlt]
    rfl
  breaks := nofun
  continues := nofun
  exits := nofun
  returns := nofun

theorem pop : Body h (a + 1) a (.emit .pop) where
  falls := by
    rintro w rfl
    rfl
  breaks := nofun
  continues := nofun
  exits := nofun
  returns := nofun

theorem call (hL : Rises k L) (hle : k + a ≤ h) : Body h a a (.call L) where
  falls := by
    intro w hw
    have hup : walk h (0 + a) w = some (0 + a) := walk_up (hL w hw) hle
    rwa [Nat.zero_add] at hup
  breaks := nofun
  continues := nofun
  exits := nofun
  returns := nofun

theorem leave : Body h 1 b .leave where
  falls := nofun
  breaks := by
    rintro w rfl
    rfl
  continues := nofun
  exits := nofun
  returns := nofun

theorem next : Body h 1 b .next where
  falls := nofun
  breaks := nofun
  continues := by
    rintro w rfl
    rfl
  exits := nofun
  returns := nofun

theorem exit : Body h 1 b .exit where
  falls := nofun
  breaks := nofun
  continues := nofun
  exits := by
    rintro w rfl
    rfl
  returns := nofun

theorem ret : Body h 0 b .ret where
  falls := nofun
  breaks := nofun
  continues := nofun
  exits := nofun
  returns := by
    rintro w rfl
    rfl

/-- Paths that end in the first statement, and paths that go on in the second. -/
theorem walk_seq {E L' : Language Mark} (hE : ∀ w ∈ E, walk h a w = some c)
    (hF : ∀ w ∈ L, walk h a w = some b) (hG : ∀ w ∈ L', walk h b w = some c) :
    ∀ w ∈ E + L * L', walk h a w = some c := by
  rintro w (hw | ⟨u, hu, v, hv, rfl⟩)
  · exact hE w hw
  · exact walk_append (hF u hu) (hG v hv)

theorem seq (hF : Body h a b F) (hG : Body h b c G) : Body h a c (F.seq G) where
  falls := by
    rintro w ⟨u, hu, v, hv, rfl⟩
    exact walk_append (hF.falls u hu) (hG.falls v hv)
  breaks := walk_seq hF.breaks hF.falls hG.breaks
  continues := walk_seq hF.continues hF.falls hG.continues
  exits := walk_seq hF.exits hF.falls hG.exits
  returns := walk_seq hF.returns hF.falls hG.returns

theorem nil : Body h a a (.block []) :=
  skip

theorem cons {Fs : List (Flow Mark)} (hF : Body h a b F) (hFs : Body h b c (.block Fs)) :
    Body h a c (.block (F :: Fs)) :=
  hF.seq hFs

theorem either (hF : Body h a b F) (hG : Body h a b G) : Body h a b (F.either G) where
  falls w hw := hw.elim (hF.falls w) (hG.falls w)
  breaks w hw := hw.elim (hF.breaks w) (hG.breaks w)
  continues w hw := hw.elim (hF.continues w) (hG.continues w)
  exits w hw := hw.elim (hF.exits w) (hG.exits w)
  returns w hw := hw.elim (hF.returns w) (hG.returns w)

theorem when (hF : Body h a a F) : Body h a a F.when :=
  hF.either skip

/-- Rounds of a loop, by induction on their number. -/
theorem walk_rounds (hL : ∀ w ∈ L, walk h a w = some a) : ∀ w ∈ L∗, walk h a w = some a := by
  rintro _ ⟨rounds, rfl, hrounds⟩
  induction rounds with
  | nil => rfl
  | cons w rounds ih =>
      have hrest := ih fun v hv => hrounds v (List.mem_cons_of_mem w hv)
      exact walk_append (hL w (hrounds w List.mem_cons_self)) hrest

theorem loop (hF : Body h 1 1 F) : Body h 1 1 F.loop := by
  have hround : ∀ w ∈ F.falls + F.continues, walk h 1 w = some 1 := by
    intro w hw
    exact hw.elim (hF.falls w) (hF.continues w)
  have hrounds := walk_rounds hround
  refine ⟨?_, nofun, nofun, ?_, ?_⟩
  · rintro w ⟨u, hu, v, rfl | hv, rfl⟩
    · exact walk_append (hrounds u hu) rfl
    · exact walk_append (hrounds u hu) (hF.breaks v hv)
  · rintro w ⟨u, hu, v, hv, rfl⟩
    exact walk_append (hrounds u hu) (hF.exits v hv)
  · rintro w ⟨u, hu, v, hv, rfl⟩
    exact walk_append (hrounds u hu) (hF.returns v hv)

/-- A loop that only calls, at any level. -/
theorem loop_call (hL : Rises k L) (hle : k + a ≤ h) : Body h a a (.loop (.call L)) := by
  have hround : ∀ w ∈ L + 0, walk h a w = some a := by
    rintro w (hw | hw)
    · exact (call hL hle).falls w hw
    · exact hw.elim
  have hrounds := walk_rounds hround
  refine ⟨?_, nofun, nofun, ?_, ?_⟩
  · rintro w ⟨u, hu, v, rfl | hv, rfl⟩
    · exact walk_append (hrounds u hu) rfl
    · exact hv.elim
  · rintro w ⟨u, hu, v, hv, rfl⟩
    exact hv.elim
  · rintro w ⟨u, hu, v, hv, rfl⟩
    exact hv.elim

end Body

/-- A function without a label comes back to its level. -/
theorem Rises.proc (hF : Body h 0 0 F) : Rises h F.proc :=
  fun w hw => hw.elim (hF.falls w) (hF.returns w)

/-- A function that reaches its label at level 1 and comes back from there. -/
theorem Rises.func (hF : Body h 0 1 F) (hG : Body h 1 0 G) : Rises h (F.func G) := by
  rintro w (hw | ⟨u, hu, v, hv, rfl⟩)
  · exact hF.returns w hw
  · have hlabel : walk h 0 u = some 1 := hu.elim (hF.falls u) (hF.exits u)
    have hback : walk h 1 v = some 0 := hv.elim (hG.falls v) (hG.returns v)
    exact walk_append hlabel hback

end Rules

end Base
end EmbeddedOS
