import EmbeddedOS.Queue.Discipline
import EmbeddedOS.Queue.ModuleCopy

/-!
# No message lost or duplicated

What a call has to do to the places that hold messages, for any implementation of the queues, and
when the two copies do it: the working copy and the module.
-/

namespace EmbeddedOS
namespace Queue

/-! ## Places -/

/-- The places that hold messages: trigger slots, the demand queue, the low-priority queue. -/
structure Places where
  slots : List Slot
  demand : List MessageContainer
  lowPriority : List MessageContainer

/-- All messages, one for each place. -/
def Places.held (p : Places) : List MessageContainer :=
  p.slots.map Slot.entry ++ p.demand ++ p.lowPriority

/-- The node and trigger of a slot. -/
def Slot.For (x : Slot) (node trigger : UInt8) : Prop :=
  x.node = node.toUInt32 ∧ x.trigger = trigger.toNat

/-- A call keeps every message in exactly one place and adds its own. Arming an armed trigger moves
the old message to the demand queue; firing takes one slot and leaves all others. -/
structure Conserves (p : Places) (call : Call) (p' : Places) : Prop where
  held : p'.held.Perm (call.inserted ++ p.held)
  rearms : ∀ node trigger message, call = .triggerInsert node trigger message →
    ∀ x ∈ p.slots, x.For node trigger →
      p'.demand = x.entry :: p.demand ∧
        (⟨node.toUInt32, trigger.toNat, message⟩ : Slot) ∈ p'.slots
  fires : ∀ node trigger, call = .triggerExecute node trigger →
    ∀ x ∈ p.slots, x.For node trigger →
      p'.demand = x.entry :: p.demand ∧ p.slots.Perm (x :: p'.slots)

/-! ## Runs -/

section Runs

variable {σ : Type} (step : σ → Call → Option σ) (places : σ → Places)

/-- Every call of a run is defined and conserves, and after each the messages held are those
inserted since the start: `past` before the run and its own calls. -/
def KeptAlong (s : σ) (past : List Call) : List Call → Prop
  | [] => True
  | call :: calls => ∃ s', step s call = some s' ∧ Conserves (places s) call (places s') ∧
      (places s').held.Perm ((past ++ [call]).flatMap Call.inserted) ∧
      KeptAlong s' (past ++ [call]) calls

/-- Every call of a run meets a condition on the state before it. -/
def SafeAlong (safe : σ → Call → Prop) (s : σ) : List Call → Prop
  | [] => True
  | call :: calls => safe s call ∧ ∀ s', step s call = some s' → SafeAlong safe s' calls

variable {step places}

/-- Where one call conserves exactly if it is safe, a run keeps its messages exactly if each of
its calls is. -/
theorem keptAlong_iff {safe : σ → Call → Prop} (Inv : σ → Prop)
    (hstep : ∀ s call s', Inv s → call.Valid → safe s call → step s call = some s' → Inv s')
    (hsafe : ∀ s call, Inv s → call.Valid →
      ((∃ s', step s call = some s' ∧ Conserves (places s) call (places s')) ↔ safe s call))
    {s : σ} {past calls : List Call} (hs : Inv s) (hvalid : ∀ call ∈ calls, call.Valid)
    (hpast : (places s).held.Perm (past.flatMap Call.inserted)) :
    KeptAlong step places s past calls ↔ SafeAlong step safe s calls := by
  induction calls generalizing s past with
  | nil => exact Iff.rfl
  | cons call calls ih =>
      have hcall := hvalid call List.mem_cons_self
      have hrest : ∀ c ∈ calls, c.Valid := fun c hc => hvalid c (List.mem_cons_of_mem call hc)
      have happ : (past ++ [call]).flatMap Call.inserted
          = past.flatMap Call.inserted ++ call.inserted := by
        simp
      have hheld : ∀ s', Conserves (places s) call (places s') →
          (places s').held.Perm ((past ++ [call]).flatMap Call.inserted) := by
        intro s' hcons
        rw [happ]
        exact (hcons.held.trans (hpast.append_left _)).trans List.perm_append_comm
      constructor
      · rintro ⟨s', hrun, hcons, hp, htail⟩
        have hsafe' : safe s call := (hsafe s call hs hcall).mp ⟨s', hrun, hcons⟩
        refine ⟨hsafe', ?_⟩
        intro t ht
        have hst : s' = t := Option.some.inj (hrun.symm.trans ht)
        subst hst
        exact (ih (hstep s call s' hs hcall hsafe' hrun) hrest hp).mp htail
      · rintro ⟨hsafe', htail⟩
        rcases (hsafe s call hs hcall).mpr hsafe' with ⟨s', hrun, hcons⟩
        exact ⟨s', hrun, hcons, hheld s' hcons,
          (ih (hstep s call s' hs hcall hsafe' hrun) hrest (hheld s' hcons)).mpr
            (htail s' hrun)⟩

end Runs

/-! ## The working copy -/

namespace WorkingCopy

def places (q : Queues) : Places :=
  { slots := slots q.table, demand := q.demand, lowPriority := q.lowPriority }

/-- The table of `TQ` has room for its containers. After its last container went, `alt` has left
it a block of zero bytes, and a trigger message is written into that block. -/
def InRoom (q : Queues) : Call → Prop
  | .triggerInsert _ _ _ => q.TQ.map List.length ≠ some 0
  | .demandInsert _ _ | .lowprioInsert _ _ | .triggerExecute _ _ => True

instance (q : Queues) : DecidablePred (InRoom q) := fun call =>
  match call with
  | .triggerInsert _ _ _ => inferInstanceAs (Decidable (q.TQ.map List.length ≠ some 0))
  | .demandInsert _ _ | .lowprioInsert _ _ | .triggerExecute _ _ =>
      inferInstanceAs (Decidable True)

/-- One call, undefined where it writes outside the table's block. -/
def step (u : MessageContainer) (v : TriggerContainer) (q : Queues) (call : Call) :
    Option Queues :=
  if InRoom q call then some (serve u v q call) else none

/-- A trigger message hits an armed trigger of a node that has another one armed. -/
def Drops (q : Queues) : Call → Prop
  | .triggerInsert node trigger _ =>
      (∃ x ∈ slots q.table, x.For node trigger) ∧ Crowded q node trigger
  | .demandInsert _ _ | .lowprioInsert _ _ | .triggerExecute _ _ => False

/-- The condition on a call of the working copy. -/
def Safe (q : Queues) (call : Call) : Prop :=
  InRoom q call ∧ ¬ Drops q call

variable {u : MessageContainer} {v : TriggerContainer} {q q' : Queues} {call : Call}

theorem held_eq (q : Queues) : (places q).held = held q := rfl

/-- The one slot of a trigger. -/
theorem slot_eq (hq : Consistent q) {node trigger : UInt8} {message : List UInt8}
    {rest : List Slot}
    (hperm : (slots q.table).Perm (⟨node.toUInt32, trigger.toNat, message⟩ :: rest)) {x : Slot}
    (hx : x ∈ slots q.table) (hfor : x.For node trigger) :
    x = ⟨node.toUInt32, trigger.toNat, message⟩ := by
  have hmem : (⟨node.toUInt32, trigger.toNat, message⟩ : Slot) ∈ slots q.table :=
    hperm.mem_iff.mpr List.mem_cons_self
  have hmessage := hq.ordered.slot_unique hx hmem hfor.1 hfor.2
  cases x with
  | mk n t m =>
      cases hfor.1
      cases hfor.2
      cases hmessage
      rfl

theorem not_for_of_free {node trigger : UInt8}
    (hno : ∀ m, (⟨node.toUInt32, trigger.toNat, m⟩ : Slot) ∉ slots q.table) :
    ∀ x ∈ slots q.table, ¬ x.For node trigger := by
  rintro ⟨n, t, m⟩ hx hfor
  cases hfor.1
  cases hfor.2
  exact hno m hx

/-- A call that does not drop its message adds it to the messages held. -/
theorem Served.held_kept (h : Served q q' call) (hkeep : ¬ Drops q call) :
    (held q').Perm (call.inserted ++ held q) := by
  have hslots : ∀ (l l' : List Slot) (c : MessageContainer), l.Perm l' →
      (l.map Slot.entry).count c = (l'.map Slot.entry).count c :=
    fun l l' c hperm => (hperm.map Slot.entry).count_eq c
  rw [List.perm_iff_count]
  intro c
  cases h with
  | armed hno hperm hdemand hlow =>
      have h1 := hslots _ _ c hperm
      simp [held, hdemand, hlow, Call.inserted, List.count_cons, Slot.entry] at h1 ⊢
      omega
  | rearmed hperm hfree hnew hdemand hlow =>
      have h1 := hslots _ _ c hperm
      have h2 := hslots _ _ c hnew
      simp [held, hdemand, hlow, Call.inserted, List.count_cons, Slot.entry] at h1 h2 ⊢
      omega
  | dropped hperm hcrowded _ _ _ =>
      exact absurd ⟨⟨_, hperm.mem_iff.mpr List.mem_cons_self, rfl, rfl⟩, hcrowded⟩ hkeep
  | demanded htable hdemand hlow =>
      simp [held, htable, hdemand, hlow, Call.inserted, List.count_cons]
      omega
  | waited _ htable hdemand hlow =>
      simp [held, htable, hdemand, hlow, Call.inserted, List.count_cons]
      omega
  | promoted hnil htable hdemand hlow =>
      simp [held, htable, hdemand, hlow, hnil, Call.inserted, List.count_cons]
      omega
  | fired hperm hdemand hlow =>
      have h1 := hslots _ _ c hperm
      simp [held, hdemand, hlow, Call.inserted, List.count_cons, Slot.entry] at h1 ⊢
      omega
  | missed _ heq =>
      rw [heq]
      rfl

/-- A call that drops its message holds as many messages as before. -/
theorem Served.held_dropped (h : Served q q' call) (hdrop : Drops q call) :
    (held q').length = (held q).length ∧ call.inserted.length = 1 := by
  cases h with
  | armed hno _ _ _ =>
      rcases hdrop.1 with ⟨x, hx, hfor⟩
      exact absurd hfor (not_for_of_free hno x hx)
  | rearmed _ hfree _ _ _ => exact absurd hdrop.2 hfree
  | dropped hperm _ hnew hdemand hlow =>
      have h1 := hperm.length_eq
      have h2 := hnew.length_eq
      simp [held, hdemand, hlow, Call.inserted] at h1 h2 ⊢
      omega
  | demanded => exact absurd hdrop id
  | waited => exact absurd hdrop id
  | promoted => exact absurd hdrop id
  | fired => exact absurd hdrop id
  | missed => exact absurd hdrop id

theorem Served.conserves_iff (hq : Consistent q) (h : Served q q' call) :
    Conserves (places q) call (places q') ↔ ¬ Drops q call := by
  constructor
  · intro hcons hdrop
    have hlen := hcons.held.length_eq
    rw [held_eq, held_eq, List.length_append] at hlen
    have hsame := h.held_dropped hdrop
    omega
  · intro hkeep
    refine ⟨h.held_kept hkeep, ?_, ?_⟩
    · rintro node trigger message rfl x hx hfor
      cases h with
      | armed hno _ _ _ => exact absurd hfor (not_for_of_free hno x hx)
      | rearmed hperm _ hnew hdemand _ =>
          rw [slot_eq hq hperm hx hfor]
          exact ⟨hdemand, hnew.mem_iff.mpr List.mem_cons_self⟩
      | dropped hperm hcrowded _ _ _ => exact absurd ⟨⟨x, hx, hfor⟩, hcrowded⟩ hkeep
    · rintro node trigger rfl x hx hfor
      cases h with
      | fired hperm hdemand _ =>
          rw [slot_eq hq hperm hx hfor]
          exact ⟨hdemand, hperm⟩
      | missed hno _ => exact absurd hfor (not_for_of_free hno x hx)

theorem step_iff (hq : Consistent q) (hvalid : call.Valid) :
    (∃ q', step u v q call = some q' ∧ Conserves (places q) call (places q')) ↔ Safe q call := by
  have hserved := (serve_spec u v hq hvalid).2
  by_cases hroom : InRoom q call
  · rw [step, if_pos hroom, Safe, and_iff_right hroom, ← hserved.conserves_iff hq]
    simp
  · rw [step, if_neg hroom, Safe]
    simp [hroom]

theorem keptAlong_iff (u : MessageContainer) (v : TriggerContainer) {calls : List Call}
    (hvalid : ∀ call ∈ calls, call.Valid) :
    KeptAlong (step u v) places .initial [] calls ↔ SafeAlong (step u v) Safe .initial calls := by
  refine Queue.keptAlong_iff Consistent ?_ (fun q call hq hc => step_iff hq hc)
    consistent_initial hvalid (List.Perm.refl _)
  intro q call q' hq hcall hsafe hrun
  rw [step, if_pos hsafe.1] at hrun
  cases hrun
  exact (serve_spec u v hq hcall).1

end WorkingCopy

/-! ## The module -/

namespace Module

def places (q : Queues) : Places :=
  { slots := (elements q.TQ q.TQ_size).flatMap Armed.slots
    demand := (elements q.DQ q.DQ_size).map Pending.entry
    lowPriority := (elements q.LPQ q.LPQ_size).map Pending.entry }

/-- The condition on a call of the module: a trigger call finds no container, and a low-priority
message finds either no other one or exactly one demand message more than low-priority ones. -/
def Safe (q : Queues) : Call → Prop
  | .triggerInsert _ _ _ | .triggerExecute _ _ => q.TQ_size = 0
  | .demandInsert _ _ => True
  | .lowprioInsert _ _ => q.LPQ_size = 0 ∨ q.DQ_size = q.LPQ_size + 1

/-- The array holds `xs`, all written, and nothing else. -/
structure Holds {α : Type} (data : Option (List (Option α))) (size : Nat) (xs : List α) :
    Prop where
  length : xs.length = size
  array : data.getD [] = xs.map some
  allocated : data ≠ some []

/-- The message arrays hold what was written; the table has room once it is there. -/
structure Consistent (q : Queues) : Prop where
  demand : ∃ xs, Holds q.DQ q.DQ_size xs
  lowPriority : ∃ xs, Holds q.LPQ q.LPQ_size xs
  table : q.TQ ≠ some []

theorem consistent_initial : Consistent .initial :=
  ⟨⟨[], rfl, rfl, nofun⟩, ⟨[], rfl, rfl, nofun⟩, nofun⟩

section Arrays

variable {α : Type} {data : Option (List (Option α))} {size : Nat} {xs : List α}

theorem filterMap_some (xs : List α) : (xs.map some).filterMap id = xs := by
  rw [List.filterMap_map]
  exact List.filterMap_some

theorem Holds.elements_eq (h : Holds data size xs) : elements data size = xs := by
  rw [elements, h.array, ← h.length, List.take_of_length_le (by simp), filterMap_some]

/-- The first element of an array that is not there yet. -/
theorem Holds.first (h : Holds data 0 xs) (x : α) :
    ∃ data', write (data.getD [none]) 0 x = some data' ∧
      Holds (some data') 1 (xs ++ [x]) := by
  have hnil : xs = [] := List.length_eq_zero_iff.mp h.length
  subst hnil
  cases data with
  | none => exact ⟨[some x], rfl, rfl, rfl, nofun⟩
  | some data => exact absurd (congrArg some h.array) h.allocated

theorem Holds.resize_eq (h : Holds data size xs) :
    resize (data.getD []) (size + 1) = xs.map some ++ [none] := by
  have hlen : (xs.map some).length = size := by
    rw [List.length_map, h.length]
  rw [h.array, resize, alt, hlen, List.take_of_length_le (by rw [hlen]; exact Nat.le_succ _),
    Nat.add_sub_cancel_left]
  rfl

/-- One element more: it is written behind the others. -/
theorem Holds.append (h : Holds data size xs) (x : α) :
    ∃ data', write (resize (data.getD []) (size + 1)) size x = some data' ∧
      Holds (some data') (size + 1) (xs ++ [x]) := by
  have hlen : (xs.map some).length = size := by
    rw [List.length_map, h.length]
  refine ⟨xs.map some ++ [some x], ?_, ?_, ?_, ?_⟩
  · rw [h.resize_eq, write, if_pos (by simp [hlen]), ← hlen]
    simp
  · simp [h.length]
  · simp
  · simp

/-- One element more, but written over another: there are no more messages than before. -/
theorem Holds.overwrite (h : Holds data size xs) (x : α) {i : Nat} (hi : i < size) :
    ∃ data', write (resize (data.getD []) (size + 1)) i x = some data' ∧
      (elements (some data') (size + 1)).length = size := by
  have hlen : i < (xs.map some).length := by
    rw [List.length_map, h.length]
    exact hi
  refine ⟨(xs.set i x).map some ++ [none], ?_, ?_⟩
  · rw [h.resize_eq, write, if_pos (by rw [List.length_append]; exact Nat.lt_add_right _ hlen),
      List.set_append_left _ _ hlen, List.map_set]
  · rw [elements, Option.getD_some, List.take_of_length_le (by simp [h.length]),
      List.filterMap_append, filterMap_some]
    simp [h.length]

end Arrays

section Steps

variable {q : Queues} {node trigger : UInt8} {message : List UInt8}

theorem demandInsert_spec (hq : Consistent q) :
    ∃ q', demandInsert q node message false = some q' ∧ Consistent q' ∧ q'.TQ = q.TQ ∧
      q'.TQ_size = q.TQ_size ∧ (places q').lowPriority = (places q).lowPriority ∧
      (places q').demand = (places q).demand ++ [entry node.toUInt32 message] := by
  rcases hq.demand with ⟨xs, hxs⟩
  by_cases hzero : q.DQ_size = 0
  · rcases (hzero ▸ hxs).first ⟨node.toUInt32, message⟩ with ⟨data, hwrite, hdata⟩
    refine ⟨{ q with DQ := some data, DQ_size := 1 }, ?_, ⟨⟨_, hdata⟩, hq.lowPriority, hq.table⟩,
      rfl, rfl, rfl, ?_⟩
    · simp only [demandInsert, if_pos hzero, hwrite]
      rfl
    · simp [places, hdata.elements_eq, hxs.elements_eq, Pending.entry]
  · rcases hxs.append ⟨node.toUInt32, message⟩ with ⟨data, hwrite, hdata⟩
    refine ⟨{ q with DQ := some data, DQ_size := q.DQ_size + 1 }, ?_,
      ⟨⟨_, hdata⟩, hq.lowPriority, hq.table⟩, rfl, rfl, rfl, ?_⟩
    · simp only [demandInsert, if_neg hzero, Nat.add_sub_cancel, hwrite]
      rfl
    · simp [places, hdata.elements_eq, hxs.elements_eq, Pending.entry]

theorem lowprioInsert_safe (hq : Consistent q)
    (hsafe : q.LPQ_size = 0 ∨ q.DQ_size = q.LPQ_size + 1) :
    ∃ q', lowprioInsert q node message = some q' ∧ Consistent q' ∧ q'.TQ = q.TQ ∧
      q'.TQ_size = q.TQ_size ∧ (places q').demand = (places q).demand ∧
      (places q').lowPriority = (places q).lowPriority ++ [entry node.toUInt32 message] := by
  rcases hq.lowPriority with ⟨xs, hxs⟩
  by_cases hzero : q.LPQ_size = 0
  · rcases (hzero ▸ hxs).first ⟨node.toUInt32, message⟩ with ⟨data, hwrite, hdata⟩
    refine ⟨{ q with LPQ := some data, LPQ_size := 1 }, ?_, ⟨hq.demand, ⟨_, hdata⟩, hq.table⟩,
      rfl, rfl, rfl, ?_⟩
    · simp only [lowprioInsert, if_pos hzero, hwrite]
      rfl
    · simp [places, hdata.elements_eq, hxs.elements_eq, Pending.entry]
  · have hsize : q.DQ_size = q.LPQ_size + 1 := hsafe.resolve_left hzero
    have hne : q.DQ_size ≠ 0 := by
      rw [hsize]
      exact Nat.succ_ne_zero _
    rcases hxs.append ⟨node.toUInt32, message⟩ with ⟨data, hwrite, hdata⟩
    refine ⟨{ q with LPQ := some data, LPQ_size := q.LPQ_size + 1 }, ?_,
      ⟨hq.demand, ⟨_, hdata⟩, hq.table⟩, rfl, rfl, rfl, ?_⟩
    · simp only [lowprioInsert, if_neg hzero, if_neg hne, Option.bind_eq_bind, Option.bind_some]
      rw [hsize, Nat.add_sub_cancel, hwrite]
      rfl
    · simp [places, hdata.elements_eq, hxs.elements_eq, Pending.entry]

/-- Any other low-priority message is written over a waiting one or outside the array. -/
theorem lowprioInsert_unsafe (hq : Consistent q) (hzero : q.LPQ_size ≠ 0)
    (hsize : q.DQ_size ≠ q.LPQ_size + 1) {q' : Queues}
    (h : lowprioInsert q node message = some q') :
    (places q').held.length = (places q).held.length := by
  rcases hq.lowPriority with ⟨xs, hxs⟩
  simp only [lowprioInsert, if_neg hzero, Option.bind_eq_bind] at h
  by_cases hempty : q.DQ_size = 0
  · simp [hempty] at h
  · simp only [if_neg hempty, Option.bind_some] at h
    by_cases hlow : q.DQ_size - 1 < q.LPQ_size
    · rcases hxs.overwrite ⟨node.toUInt32, message⟩ hlow with ⟨data, hwrite, hlen⟩
      rw [hwrite] at h
      have hq' : q' = { q with LPQ := some data, LPQ_size := q.LPQ_size + 1 } :=
        (Option.some.inj h).symm
      subst hq'
      simp [places, Places.held, hlen, hxs.elements_eq, hxs.length]
    · have hout : write (resize (q.LPQ.getD []) (q.LPQ_size + 1)) (q.DQ_size - 1)
          (⟨node.toUInt32, message⟩ : Pending) = none := by
        rw [hxs.resize_eq, write, if_neg]
        simp [hxs.length]
        omega
      rw [hout] at h
      cases h

theorem armOne_slots (n : UInt32) {t : Nat} (ht : t < 64) :
    (armOne n t message).slots = [⟨n, t, message⟩] := by
  have hperm : (armOne n t message).slots.Perm
      (⟨n, t, message⟩ :: (List.range 64).filterMap fun _ => none) := by
    refine filterMap_perm_cons rfl ?_ ?_ (List.mem_range.mpr ht) List.nodup_range
    · simp [armOne, getBit_setBit]
    · intro s hs
      simp [armOne, hs]
  rw [List.filterMap_none] at hperm
  exact List.perm_singleton.mp hperm

/-- The first trigger message of all. -/
theorem triggerInsert_safe (hq : Consistent q) (ht : trigger.toNat < 64) (hsafe : q.TQ_size = 0) :
    ∃ q', serve q (.triggerInsert node trigger message) = some q' ∧ Consistent q' ∧
      (places q).slots = [] ∧
      (places q').slots = [⟨node.toUInt32, trigger.toNat, message⟩] ∧
      (places q').demand = (places q).demand ∧
      (places q').lowPriority = (places q).lowPriority := by
  have hwrite : ∃ rest, write (q.TQ.getD [none]) 0 (armOne node.toUInt32 trigger.toNat message)
      = some (some (armOne node.toUInt32 trigger.toNat message) :: rest) := by
    cases htq : q.TQ with
    | none => exact ⟨[], rfl⟩
    | some data =>
        cases data with
        | nil => exact absurd htq hq.table
        | cons y ys => exact ⟨ys, rfl⟩
  rcases hwrite with ⟨rest, hwrite⟩
  refine ⟨{ q with
    TQ := some (some (armOne node.toUInt32 trigger.toNat message) :: rest), TQ_size := 1 }, ?_,
    ⟨hq.demand, hq.lowPriority, nofun⟩, ?_, ?_, rfl, rfl⟩
  · simp [serve, triggerInsert, hsafe, hwrite]
  · simp [places, elements, hsafe]
  · simp [places, elements, armOne_slots _ ht]

/-- With a container in the table the search reads behind its key. -/
theorem serve_trigger_none (hsize : q.TQ_size ≠ 0) :
    serve q (.triggerInsert node trigger message) = none ∧
      serve q (.triggerExecute node trigger) = none := by
  constructor
  · simp [serve, triggerInsert, lookup, searchPointer, hsize]
  · simp [serve, triggerExecute, lookup, searchPointer, hsize]

theorem triggerExecute_safe (hsafe : q.TQ_size = 0) :
    serve q (.triggerExecute node trigger) = some q := by
  simp [serve, triggerExecute, lookup, searchPointer, hsafe]

/-- A safe call is defined, stays consistent and conserves. -/
theorem serve_safe (hq : Consistent q) {call : Call} (hvalid : call.Valid) (hsafe : Safe q call) :
    ∃ q', serve q call = some q' ∧ Consistent q' ∧ Conserves (places q) call (places q') := by
  cases call with
  | triggerInsert node trigger message =>
      rcases @triggerInsert_safe q node trigger message hq hvalid hsafe with
        ⟨q', hrun, hq', hnil, hslots, hdemand, hlow⟩
      refine ⟨q', hrun, hq', ?_, ?_, by rintro _ _ ⟨⟩⟩
      · simp [Places.held, hnil, hslots, hdemand, hlow, Call.inserted, Slot.entry]
      · rintro n t m hcall x hx
        rw [hnil] at hx
        cases hx
  | demandInsert node message =>
      rcases @demandInsert_spec q node message hq with
        ⟨q', hrun, hq', htq, hsize, hlow, hdemand⟩
      refine ⟨q', hrun, hq', ?_, by rintro _ _ _ ⟨⟩, by rintro _ _ ⟨⟩⟩
      have hslots : (places q').slots = (places q).slots := by
        simp [places, htq, hsize]
      rw [List.perm_iff_count]
      intro c
      simp [Places.held, hslots, hdemand, hlow, Call.inserted, List.count_cons]
      omega
  | lowprioInsert node message =>
      rcases @lowprioInsert_safe q node message hq hsafe with
        ⟨q', hrun, hq', htq, hsize, hdemand, hlow⟩
      refine ⟨q', hrun, hq', ?_, by rintro _ _ _ ⟨⟩, by rintro _ _ ⟨⟩⟩
      have hslots : (places q').slots = (places q).slots := by
        simp [places, htq, hsize]
      rw [List.perm_iff_count]
      intro c
      simp [Places.held, hslots, hdemand, hlow, Call.inserted, List.count_cons]
      omega
  | triggerExecute node trigger =>
      have hnil : (places q).slots = [] := by
        have hsize : q.TQ_size = 0 := hsafe
        simp [places, elements, hsize]
      refine ⟨q, triggerExecute_safe hsafe, hq, List.Perm.refl _, by rintro _ _ _ ⟨⟩, ?_⟩
      rintro n t hcall x hx
      rw [hnil] at hx
      cases hx

theorem step_iff (hq : Consistent q) {call : Call} (hvalid : call.Valid) :
    (∃ q', serve q call = some q' ∧ Conserves (places q) call (places q')) ↔ Safe q call := by
  constructor
  · rintro ⟨q', hrun, hcons⟩
    cases call with
    | triggerInsert node trigger message =>
        by_contra hsize
        rw [(@serve_trigger_none q node trigger message hsize).1] at hrun
        cases hrun
    | demandInsert node message => trivial
    | lowprioInsert node message =>
        by_contra hunsafe
        rcases not_or.mp hunsafe with ⟨hzero, hsize⟩
        have hlen := hcons.held.length_eq
        rw [List.length_append, lowprioInsert_unsafe hq hzero hsize hrun] at hlen
        simp [Call.inserted] at hlen
    | triggerExecute node trigger =>
        by_contra hsize
        rw [(@serve_trigger_none q node trigger [] hsize).2] at hrun
        cases hrun
  · intro hsafe
    rcases serve_safe hq hvalid hsafe with ⟨q', hrun, _, hcons⟩
    exact ⟨q', hrun, hcons⟩

end Steps

theorem keptAlong_iff {calls : List Call} (hvalid : ∀ call ∈ calls, call.Valid) :
    KeptAlong serve places .initial [] calls ↔ SafeAlong serve Safe .initial calls := by
  refine Queue.keptAlong_iff Consistent ?_ (fun q call hq hc => step_iff hq hc)
    consistent_initial hvalid (List.Perm.refl _)
  intro q call q' hq hcall hsafe hrun
  rcases serve_safe hq hcall hsafe with ⟨t, ht, hcons, _⟩
  cases ht.symm.trans hrun
  exact hcons

end Module

/-! ## Both copies -/

/-- A run keeps every message in exactly one place if and only if each of its calls meets the
condition of its copy. -/
theorem messages_kept_iff (u : MessageContainer) (v : TriggerContainer) (calls : List Call)
    (hvalid : ∀ call ∈ calls, call.Valid) :
    (KeptAlong (WorkingCopy.step u v) WorkingCopy.places .initial [] calls ↔
      SafeAlong (WorkingCopy.step u v) WorkingCopy.Safe .initial calls) ∧
    (KeptAlong Module.serve Module.places .initial [] calls ↔
      SafeAlong Module.serve Module.Safe .initial calls) :=
  ⟨WorkingCopy.keptAlong_iff u v hvalid, Module.keptAlong_iff hvalid⟩

/-- Two demand messages are kept by both copies. -/
theorem messages_kept_demand :
    (∀ call ∈ [Call.demandInsert 1 [0x41], .demandInsert 2 [0x42]], call.Valid) ∧
    KeptAlong (WorkingCopy.step (entry 0 []) WorkingCopy.zeroContainer) WorkingCopy.places .initial
      [] [.demandInsert 1 [0x41], .demandInsert 2 [0x42]] ∧
    KeptAlong Module.serve Module.places .initial []
      [.demandInsert 1 [0x41], .demandInsert 2 [0x42]] := by
  have hvalid : ∀ call ∈ [Call.demandInsert 1 [0x41], .demandInsert 2 [0x42]], call.Valid := by
    decide
  have hiff := messages_kept_iff (entry 0 []) WorkingCopy.zeroContainer _ hvalid
  refine ⟨hvalid, hiff.1.mpr ?_, hiff.2.mpr ?_⟩
  · exact ⟨⟨trivial, id⟩, fun _ _ => ⟨⟨trivial, id⟩, fun _ _ => trivial⟩⟩
  · exact ⟨trivial, fun _ _ => ⟨trivial, fun _ _ => trivial⟩⟩

/-- Node 1 arms triggers 2 and 3 and then sends trigger message 2 again: the working copy drops
the new message. The module has no defined second trigger message at all. -/
theorem messages_lost :
    ¬ KeptAlong (WorkingCopy.step (entry 0 []) WorkingCopy.zeroContainer) WorkingCopy.places
      .initial [] [.triggerInsert 1 2 [0x41], .triggerInsert 1 3 [0x42],
        .triggerInsert 1 2 [0x43]] ∧
    ¬ KeptAlong Module.serve Module.places .initial []
      [.triggerInsert 1 2 [0x41], .triggerInsert 1 3 [0x42]] := by
  constructor
  · rw [WorkingCopy.keptAlong_iff _ _ (by decide)]
    rintro ⟨_, h1⟩
    rcases h1 _ rfl with ⟨_, h2⟩
    have h3 := (h2 _ rfl).1.2
    refine h3 ⟨⟨⟨1, 2, [0x41]⟩, ?_, rfl, rfl⟩, ⟨1, 3, [0x42]⟩, ?_, rfl, by decide⟩
    · decide +kernel
    · decide +kernel
  · rw [Module.keptAlong_iff (by decide)]
    rintro ⟨_, h1⟩
    have h2 : (1 : Nat) = 0 := (h1 _ rfl).1
    cases h2

end Queue
end EmbeddedOS
