import EmbeddedOS.Queue.WorkingCopy

/-!
# The order of the demand queue

Runs of the working copy from the empty queues. The demand queue is the fired trigger messages,
newest first, followed by what entered at its end, and everything queued is what some insertion
handed over.
-/

namespace EmbeddedOS
namespace Queue

/-- What a call hands to the queues. -/
def Call.inserted : Call → List MessageContainer
  | .triggerInsert node _ message | .demandInsert node message | .lowprioInsert node message =>
      [entry node.toUInt32 message]
  | .triggerExecute _ _ => []

/-- The message of an armed slot as a queue holds it. -/
def Slot.entry (x : Slot) : MessageContainer :=
  Queue.entry x.node x.message

/-- The message that is armed for a trigger, if there is one. -/
def shot (table : List Slot) (node trigger : UInt8) : List MessageContainer :=
  (table.filter fun x => x.node = node.toUInt32 ∧ x.trigger = trigger.toNat).map Slot.entry

section Shot

variable {table rest : List Slot} {node trigger : UInt8} {message : List UInt8}

theorem shot_none (hno : ∀ m, (⟨node.toUInt32, trigger.toNat, m⟩ : Slot) ∉ table) :
    shot table node trigger = [] := by
  rw [shot, List.map_eq_nil_iff, List.filter_eq_nil_iff]
  intro x hx h
  rcases of_decide_eq_true h with ⟨hnode, htrigger⟩
  refine hno x.message ?_
  rw [← hnode, ← htrigger]
  exact hx

theorem shot_some (hperm : table.Perm (⟨node.toUInt32, trigger.toNat, message⟩ :: rest))
    (hno : ∀ m, (⟨node.toUInt32, trigger.toNat, m⟩ : Slot) ∉ rest) :
    shot table node trigger = [entry node.toUInt32 message] := by
  have hfilter : (shot table node trigger).Perm
      (shot (⟨node.toUInt32, trigger.toNat, message⟩ :: rest) node trigger) :=
    (hperm.filter _).map _
  have hcons : shot (⟨node.toUInt32, trigger.toNat, message⟩ :: rest) node trigger
      = entry node.toUInt32 message :: shot rest node trigger := by
    simp [shot, Slot.entry]
  rw [hcons, shot_none hno] at hfilter
  exact List.perm_singleton.mp hfilter

end Shot

namespace WorkingCopy

variable (u : MessageContainer) (v : TriggerContainer)

/-! ## Steps -/

/-- What a call puts on top of the demand queue. -/
def firedBy (q : Queues) : Call → List MessageContainer
  | .triggerInsert node trigger _ | .triggerExecute node trigger =>
      shot (slots q.table) node trigger
  | .demandInsert _ _ | .lowprioInsert _ _ => []

/-- What a call puts at the end of the demand queue. -/
def enteredBy (q : Queues) : Call → List MessageContainer
  | .demandInsert node message => [entry node.toUInt32 message]
  | .lowprioInsert node message =>
      if q.demand = [] then q.lowPriority ++ [entry node.toUInt32 message] else []
  | .triggerInsert _ _ _ | .triggerExecute _ _ => []

/-- The low-priority queue after a call: only `lowprioInsert` changes it, and on an empty demand
queue it empties it. -/
def waitingAfter (q : Queues) : Call → List MessageContainer
  | .lowprioInsert node message =>
      if q.demand = [] then [] else q.lowPriority ++ [entry node.toUInt32 message]
  | .demandInsert _ _ | .triggerInsert _ _ _ | .triggerExecute _ _ => q.lowPriority

/-- All messages the queues hold. -/
def held (q : Queues) : List MessageContainer :=
  (slots q.table).map Slot.entry ++ q.demand ++ q.lowPriority

/-- What one call does to the two stacks, and that it holds nothing new but its own message. -/
structure Disciplined (q : Queues) (call : Call) (q' : Queues) : Prop where
  demand : q'.demand = firedBy q call ++ q.demand ++ enteredBy q call
  lowPriority : q'.lowPriority = waitingAfter q call
  held : ∀ c ∈ held q', c ∈ held q ∨ c ∈ call.inserted

variable {u v} {q : Queues}

theorem mem_held {c : MessageContainer} : c ∈ held q ↔
    (∃ x ∈ slots q.table, x.entry = c) ∨ c ∈ q.demand ∨ c ∈ q.lowPriority := by
  simp [held]

theorem entry_mem_held {x : Slot} (hx : x ∈ slots q.table) : x.entry ∈ held q :=
  mem_held.mpr (.inl ⟨x, hx, rfl⟩)

theorem demand_mem_held {c : MessageContainer} (hc : c ∈ q.demand) : c ∈ held q :=
  mem_held.mpr (.inr (.inl hc))

theorem lowPriority_mem_held {c : MessageContainer} (hc : c ∈ q.lowPriority) : c ∈ held q :=
  mem_held.mpr (.inr (.inr hc))

/-- What is fired was in the table, and what it goes on top of was in the demand queue. -/
theorem fired_mem_held {x : Slot} {rest : List Slot} {c : MessageContainer}
    (hperm : (slots q.table).Perm (x :: rest)) (hc : c ∈ x.entry :: q.demand) : c ∈ held q := by
  rcases List.mem_cons.mp hc with rfl | hc
  · exact entry_mem_held (hperm.mem_iff.mpr List.mem_cons_self)
  · exact demand_mem_held hc

theorem Served.disciplined (hq : Consistent q) {q' : Queues} {call : Call}
    (h : Served q q' call) : Disciplined q call q' := by
  cases h with
  | armed hno hslots hdemand hlow =>
      refine ⟨?_, hlow, ?_⟩
      · simp only [firedBy, enteredBy, shot_none hno, List.nil_append, List.append_nil, hdemand]
      · intro c hc
        rcases mem_held.mp hc with ⟨x, hx, rfl⟩ | hc | hc
        · rcases List.mem_cons.mp (hslots.mem_iff.mp hx) with rfl | hx
          · exact .inr List.mem_cons_self
          · exact .inl (entry_mem_held hx)
        · exact .inl (demand_mem_held (hdemand ▸ hc))
        · exact .inl (lowPriority_mem_held (hlow ▸ hc))
  | rearmed hperm _ hslots hdemand hlow =>
      refine ⟨?_, hlow, ?_⟩
      · simp only [firedBy, enteredBy, shot_some hperm (hq.ordered.rest_free hperm),
          List.cons_append, List.nil_append, List.append_nil, hdemand]
      · intro c hc
        rcases mem_held.mp hc with ⟨x, hx, rfl⟩ | hc | hc
        · rcases List.mem_cons.mp (hslots.mem_iff.mp hx) with rfl | hx
          · exact .inr List.mem_cons_self
          · exact .inl (entry_mem_held (hperm.mem_iff.mpr (List.mem_cons_of_mem _ hx)))
        · exact .inl (fired_mem_held hperm (hdemand ▸ hc))
        · exact .inl (lowPriority_mem_held (hlow ▸ hc))
  | dropped hperm _ hslots hdemand hlow =>
      refine ⟨?_, hlow, ?_⟩
      · simp only [firedBy, enteredBy, shot_some hperm (hq.ordered.rest_free hperm),
          List.cons_append, List.nil_append, List.append_nil, hdemand]
      · intro c hc
        rcases mem_held.mp hc with ⟨x, hx, rfl⟩ | hc | hc
        · exact .inl (entry_mem_held
            (hperm.mem_iff.mpr (List.mem_cons_of_mem _ (hslots.mem_iff.mp hx))))
        · exact .inl (fired_mem_held hperm (hdemand ▸ hc))
        · exact .inl (lowPriority_mem_held (hlow ▸ hc))
  | demanded htable hdemand hlow =>
      refine ⟨hdemand, hlow, ?_⟩
      intro c hc
      rcases mem_held.mp hc with ⟨x, hx, rfl⟩ | hc | hc
      · exact .inl (entry_mem_held (htable ▸ hx))
      · rw [hdemand] at hc
        rcases List.mem_append.mp hc with hc | hc
        · exact .inl (demand_mem_held hc)
        · exact .inr hc
      · exact .inl (lowPriority_mem_held (hlow ▸ hc))
  | waited hne htable hdemand hlow =>
      refine ⟨?_, ?_, ?_⟩
      · simp only [firedBy, enteredBy, if_neg hne, List.nil_append, List.append_nil, hdemand]
      · simp only [waitingAfter, if_neg hne, hlow]
      · intro c hc
        rcases mem_held.mp hc with ⟨x, hx, rfl⟩ | hc | hc
        · exact .inl (entry_mem_held (htable ▸ hx))
        · exact .inl (demand_mem_held (hdemand ▸ hc))
        · rw [hlow] at hc
          rcases List.mem_append.mp hc with hc | hc
          · exact .inl (lowPriority_mem_held hc)
          · exact .inr hc
  | promoted hnil htable hdemand hlow =>
      refine ⟨?_, ?_, ?_⟩
      · rw [hdemand, enteredBy, if_pos hnil, hnil]
        rfl
      · simp only [waitingAfter, if_pos hnil, hlow]
      · intro c hc
        rcases mem_held.mp hc with ⟨x, hx, rfl⟩ | hc | hc
        · exact .inl (entry_mem_held (htable ▸ hx))
        · rw [hdemand] at hc
          rcases List.mem_append.mp hc with hc | hc
          · exact .inl (lowPriority_mem_held hc)
          · exact .inr hc
        · rw [hlow] at hc
          cases hc
  | fired hperm hdemand hlow =>
      refine ⟨?_, hlow, ?_⟩
      · simp only [firedBy, enteredBy, shot_some hperm (hq.ordered.rest_free hperm),
          List.cons_append, List.nil_append, List.append_nil, hdemand]
      · intro c hc
        rcases mem_held.mp hc with ⟨x, hx, rfl⟩ | hc | hc
        · exact .inl (entry_mem_held (hperm.mem_iff.mpr (List.mem_cons_of_mem _ hx)))
        · exact .inl (fired_mem_held hperm (hdemand ▸ hc))
        · exact .inl (lowPriority_mem_held (hlow ▸ hc))
  | missed hno heq =>
      subst heq
      refine ⟨?_, rfl, fun c hc => .inl hc⟩
      simp only [firedBy, enteredBy, shot_none hno, List.nil_append, List.append_nil]

/-! ## Runs -/

section Runs

variable (u : MessageContainer) (v : TriggerContainer)

/-- The state after a list of calls. -/
def serveAll (q : Queues) (calls : List Call) : Queues :=
  calls.foldl (serve u v) q

/-- The fired messages of a run, newest first. -/
def firedAlong (q : Queues) : List Call → List MessageContainer
  | [] => []
  | call :: calls => firedAlong (serve u v q call) calls ++ firedBy q call

/-- What entered at the end of the demand queue, oldest first. -/
def enteredAlong (q : Queues) : List Call → List MessageContainer
  | [] => []
  | call :: calls => enteredBy q call ++ enteredAlong (serve u v q call) calls

variable {u v}

theorem serveAll_spec {calls : List Call} (hvalid : ∀ call ∈ calls, call.Valid)
    (hq : Consistent q) :
    Consistent (serveAll u v q calls) ∧
      (serveAll u v q calls).demand
        = firedAlong u v q calls ++ q.demand ++ enteredAlong u v q calls ∧
      ∀ c ∈ held (serveAll u v q calls), c ∈ held q ∨ c ∈ calls.flatMap Call.inserted := by
  induction calls generalizing q with
  | nil => exact ⟨hq, by simp [serveAll, firedAlong, enteredAlong], fun c hc => .inl hc⟩
  | cons call calls ih =>
      have hstep := serve_spec u v hq (hvalid call List.mem_cons_self)
      have hdis := hstep.2.disciplined hq
      rcases ih (fun c hc => hvalid c (List.mem_cons_of_mem call hc)) hstep.1 with
        ⟨hcons, hdemand, hheld⟩
      refine ⟨hcons, ?_, ?_⟩
      · calc
          (serveAll u v q (call :: calls)).demand
              = firedAlong u v (serve u v q call) calls ++ (serve u v q call).demand
                  ++ enteredAlong u v (serve u v q call) calls := hdemand
          _ = firedAlong u v q (call :: calls) ++ q.demand ++ enteredAlong u v q (call :: calls) := by
                simp [hdis.demand, firedAlong, enteredAlong]
      · intro c hc
        rcases hheld c hc with hc | hc
        · rcases hdis.held c hc with hc | hc
          · exact .inl hc
          · exact .inr (List.mem_append_left _ hc)
        · exact .inr (List.mem_append_right _ hc)

end Runs

/-- Along every run from the empty queues: the demand queue is the fired messages, newest first,
and then what entered at its end, in order; every step is disciplined; and every message held is
one that was inserted. -/
theorem demandQueue_discipline (u : MessageContainer) (v : TriggerContainer) (calls : List Call)
    (hvalid : ∀ call ∈ calls, call.Valid) :
    (serveAll u v .initial calls).demand
        = firedAlong u v .initial calls ++ enteredAlong u v .initial calls ∧
      (∀ past call future, calls = past ++ call :: future →
        Disciplined (serveAll u v .initial past) call
          (serveAll u v .initial (past ++ [call]))) ∧
      ∀ c ∈ held (serveAll u v .initial calls), c ∈ calls.flatMap Call.inserted := by
  have hrun := serveAll_spec (u := u) (v := v) hvalid consistent_initial
  refine ⟨?_, ?_, ?_⟩
  · have hnil : Queues.initial.demand = [] := rfl
    rw [hrun.2.1, hnil, List.append_nil]
  · rintro past call future rfl
    have hpast := serveAll_spec (u := u) (v := v)
      (fun c hc => hvalid c (List.mem_append_left _ hc)) consistent_initial
    have hcall := hvalid call (List.mem_append_right _ List.mem_cons_self)
    have hserve : serveAll u v .initial (past ++ [call])
        = serve u v (serveAll u v .initial past) call := by
      simp [serveAll]
    rw [hserve]
    exact (serve_spec u v hpast.1 hcall).2.disciplined hpast.1
  · intro c hc
    rcases hrun.2.2 c hc with hc | hc
    · simp [held, Queues.initial, Queues.table, Queues.demand, Queues.lowPriority,
        Stack.contents, slots] at hc
    · exact hc

/-- Memory that happens to be zero. -/
def zeroContainer : TriggerContainer :=
  { bitmap := fun _ => 0#32, messages := fun _ => none, messageSize := fun _ => 0, node := 0 }

/-- The trigger message of node 2 is fired past the low-priority message of node 3 and the demand
message of node 4. -/
theorem demandQueue_discipline_fired :
    let calls : List Call := [.lowprioInsert 3 [0x4C], .demandInsert 4 [0x44],
      .triggerInsert 2 1 [0x4D], .triggerExecute 2 1]
    (∀ call ∈ calls, call.Valid) ∧
      (serveAll (entry 0 []) zeroContainer .initial calls).demand
        = [entry 2 [0x4D], entry 3 [0x4C], entry 4 [0x44]] := by
  have hvalid : ∀ call ∈ [Call.lowprioInsert 3 [0x4C], .demandInsert 4 [0x44],
      .triggerInsert 2 1 [0x4D], .triggerExecute 2 1], call.Valid := by decide
  refine ⟨hvalid, (demandQueue_discipline (entry 0 []) zeroContainer _ hvalid).1.trans ?_⟩
  decide +kernel

end WorkingCopy
end Queue
end EmbeddedOS
