import EmbeddedOS.Perf.Sessions

/-!
# Runs of profiling sessions

Whether a session that ends without error has culled every block once depends on the sessions before
it. Their history is a status, which says what they have left in the globals.
-/

namespace EmbeddedOS
namespace Perf

open Base

variable {lookup : List UInt8 → Option Nat} {room chosen : Nat}

/-! ## The history of sessions -/

/-- What the sessions before have left: no name since the start; names of blocks that were culled;
the blocks of one session that ended in an error; a first name without a block, and none to cull; or
a block that no clean-up can cull. -/
inductive Status where
  | fresh
  | clean
  | pending
  | unnamed
  | spoilt
  deriving DecidableEq, Repr

namespace Status

/-- No block waits to be culled. -/
def Settled : Status → Prop
  | .fresh => True
  | .clean => True
  | .unnamed => True
  | .pending => False
  | .spoilt => False

instance (st : Status) : Decidable st.Settled := by
  cases st <;> unfold Settled <;> infer_instance

/-- An accepted session that ended in an error. -/
def afterError (st : Status) (room chosen : Nat) : Status :=
  if ¬ st.Settled then .spoilt
  else if chosen ≤ room then .pending
  else if room = 0 then .unnamed
  else .spoilt

/-- The status after a session, if one that ends without error is clean. -/
def next (lookup : List UInt8 → Option Nat) (st : Status) (x : PerfLine) : Status :=
  if x.known = false then st
  else
    match typed lookup x.room x.keys with
    | .waits => st
    | .overruns => st
    | .done .rejected => if x.ret = 0 ∧ st = .pending then .clean else st
    | .done (.accepted chosen _) => if x.ret = 0 then .clean else st.afterError x.room chosen

end Status

/-- The globals, and what the history says of them. -/
def sessionStep (lookup : List UInt8 → Option Nat) :
    PerfState × Status → PerfLine → Option (Bool × PerfState × Status)
  | (s, st), x => (perfStep lookup s x).map fun (ended, s') => (ended, s', st.next lookup x)

/-- A session that ends without error has cleaned up. -/
def SessionGood : PerfState × Status → PerfLine → Bool → PerfState × Status → Prop
  | _, _, ended, (s', _) => ended = true → CleanedUp s'

/-- The keys of a session suffice for it to end. -/
def Ends (lookup : List UInt8 → Option Nat) : PerfState × Status → PerfLine → Prop
  | _, x => x.known = true → typed lookup x.room x.keys ≠ .waits

/-- No event name outgrows its buffer, and a session that ends without error is one of two kinds. It
was accepted, got a block for every name, and no earlier one has left blocks behind; or it was
rejected, and either none was accepted before or one that ended in an error has just left all of its
blocks. -/
def SessionGuard (lookup : List UInt8 → Option Nat) : PerfState × Status → PerfLine → Prop
  | (_, st), x =>
      x.known = true →
        typed lookup x.room x.keys ≠ .overruns ∧
        (x.ret = 0 →
          (typed lookup x.room x.keys = .done .rejected → st = .fresh ∨ st = .pending) ∧
          ∀ chosen numbers, typed lookup x.room x.keys = .done (.accepted chosen numbers) →
            chosen ≤ x.room ∧ st.Settled)

/-- Every block was culled once. -/
def AllCulled (s : PerfState) : Prop := ∀ b < s.allocated, s.dels.count b = 1

/-- What the status says of the globals. -/
def Status.Matches : Status → PerfState → Prop
  | .fresh, s => s.n_events = 0 ∧ AllCulled s ∧ ∀ i < 10, s.events i = -1
  | .clean, s =>
      1 ≤ s.n_events ∧ s.n_events ≤ 9 ∧ AllCulled s ∧ (∀ i < 10, s.events i = -1) ∧
        ∃ b < s.allocated, s.names 0 = some b
  | .pending, s =>
      1 ≤ s.n_events ∧ s.n_events ≤ 9 ∧ ∃ old, s.allocated = old + s.n_events ∧
        (∀ b < old, s.dels.count b = 1) ∧
        (∀ i < s.n_events, s.names i = some (old + i) ∧ s.dels.count (old + i) = 0) ∧
        (∀ i, s.n_events ≤ i → i < 10 → s.events i = -1 ∧ s.names i ≠ some old)
  | .unnamed, s =>
      1 ≤ s.n_events ∧ s.n_events ≤ 9 ∧ AllCulled s ∧ s.names 0 = none ∧
        ∀ i, 1 ≤ i → i < 10 → s.events i = -1
  | .spoilt, s =>
      s.n_events ≤ 9 ∧ ∃ b < s.allocated, s.dels.count b = 0 ∧
        (∀ i, 1 ≤ i → i < 10 → s.names i ≠ some b) ∧
        (s.names 0 = some b → ∃ j < s.n_events, s.names j = none)

structure PerfInv (s : PerfState) (st : Status) : Prop where
  history : st.Matches s
  /-- Names are of blocks that were allocated. -/
  named : ∀ i < 10, ∀ b, s.names i = some b → b < s.allocated
  /-- Only blocks that were allocated are culled. -/
  culled : ∀ b, s.allocated ≤ b → s.dels.count b = 0

/-! ## One session -/

namespace PerfInv

variable {s s' : PerfState} {st : Status}

theorem settled (h : PerfInv s st) (hst : st.Settled) :
    AllCulled s ∧ ∀ i, 1 ≤ i → i < 10 → s.events i = -1 := by
  have hhistory := h.history
  cases st with
  | fresh => exact ⟨hhistory.2.1, fun i _ hi => hhistory.2.2 i hi⟩
  | clean => exact ⟨hhistory.2.2.1, fun i _ hi => hhistory.2.2.2.1 i hi⟩
  | unnamed => exact ⟨hhistory.2.2.1, hhistory.2.2.2.2⟩
  | pending => exact hst.elim
  | spoilt => exact hst.elim

/-- Otherwise a block waits to be culled, and no name but the first is its. -/
theorem unsettled (h : PerfInv s st) (hst : ¬ st.Settled) :
    ∃ b < s.allocated, s.dels.count b = 0 ∧ ∀ i, 1 ≤ i → i < 10 → s.names i ≠ some b := by
  have hhistory := h.history
  cases st with
  | fresh => exact absurd trivial hst
  | clean => exact absurd trivial hst
  | unnamed => exact absurd trivial hst
  | pending =>
      obtain ⟨hone, hnine, old, hall, -, hnames, hrest⟩ := hhistory
      refine ⟨old, by omega, (hnames 0 hone).2, fun i hi hi' heq => ?_⟩
      by_cases hlt : i < s.n_events
      · rw [(hnames i hlt).1, Option.some.injEq] at heq
        omega
      · exact (hrest i (by omega) hi').2 heq
  | spoilt =>
      obtain ⟨-, b, hb, hcount, hnames, -⟩ := hhistory
      exact ⟨b, hb, hcount, hnames⟩

theorem chosen_named (h : PerfInv s st) (hchosen : Chosen s s' room chosen) :
    (∀ i < 10, ∀ b, s'.names i = some b → b < s'.allocated) ∧
      ∀ b, s'.allocated ≤ b → s'.dels.count b = 0 := by
  have hall := hchosen.allocated
  constructor
  · intro i hi b hb
    by_cases hgiven : i < chosen ∧ i < room
    · rw [hchosen.given i hgiven.1 hgiven.2, Option.some.injEq] at hb
      omega
    · by_cases hrefused : i = room ∧ room < chosen
      · rw [hrefused.1, hchosen.refused hrefused.2] at hb
        cases hb
      · rw [(hchosen.kept i (by omega)).2] at hb
        have := h.named i hi b hb
        omega
  · intro b hb
    rw [hchosen.dels]
    exact h.culled b (by omega)

/-- A block that waits goes on waiting, without a name. -/
theorem chosen_unnamed (h : Chosen s s' room chosen) (hone : 1 ≤ chosen) {b : Nat}
    (hb : b < s.allocated) (hnames : ∀ i, 1 ≤ i → i < 10 → s.names i ≠ some b) :
    ∀ i < 10, s'.names i ≠ some b := by
  intro i hi heq
  by_cases hgiven : i < chosen ∧ i < room
  · rw [h.given i hgiven.1 hgiven.2, Option.some.injEq] at heq
    omega
  · by_cases hrefused : i = room ∧ room < chosen
    · rw [hrefused.1, h.refused hrefused.2] at heq
      cases heq
    · rw [(h.kept i (by omega)).2] at heq
      exact hnames i (by omega) hi heq

/-- After an accepted session that ends in an error. -/
theorem afterError (h : PerfInv s st) (hchosen : Chosen s s' room chosen) (hone : 1 ≤ chosen)
    (hnine : chosen ≤ 9) : PerfInv s' (st.afterError room chosen) := by
  obtain ⟨hnamed, hculled⟩ := h.chosen_named hchosen
  refine ⟨?_, hnamed, hculled⟩
  have hn := hchosen.n_events
  have hall := hchosen.allocated
  unfold Status.afterError
  -- If nothing waited before, what waits now is what this session was given.
  by_cases hst : st.Settled
  · obtain ⟨hdone, hevents⟩ := h.settled hst
    rw [if_neg (not_not_intro hst)]
    -- All names have blocks, not even the first has one, or the clean-up stops in between.
    by_cases hroom : chosen ≤ room
    · rw [if_pos hroom]
      refine ⟨by omega, by omega, s.allocated, by omega, ?_, ?_, ?_⟩
      · intro b hb
        rw [hchosen.dels]
        exact hdone b hb
      · intro i hi
        refine ⟨hchosen.given i (by omega) (by omega), ?_⟩
        rw [hchosen.dels]
        exact h.culled _ (Nat.le_add_right _ _)
      · intro i hi hi'
        obtain ⟨hevent, hname⟩ := hchosen.kept i (Or.inl (by omega))
        rw [hevent, hname]
        refine ⟨hevents i (by omega) hi', fun heq => ?_⟩
        exact absurd (h.named i hi' _ heq) (Nat.lt_irrefl _)
    · rw [if_neg hroom]
      by_cases hzero : room = 0
      · subst hzero
        rw [if_pos rfl]
        refine ⟨by omega, by omega, ?_, hchosen.refused (by omega), ?_⟩
        · intro b hb
          rw [hchosen.dels]
          exact hdone b (by omega)
        · intro i hi hi'
          rw [(hchosen.kept i (Or.inr (by omega))).1]
          exact hevents i hi hi'
      · rw [if_neg hzero]
        refine ⟨by omega, s.allocated, by omega, ?_, ?_, fun _ => ⟨room, by omega,
          hchosen.refused (by omega)⟩⟩
        · rw [hchosen.dels]
          exact h.culled _ (Nat.le_refl _)
        · intro i hi hi' heq
          by_cases hgiven : i < room
          · rw [hchosen.given i (by omega) hgiven, Option.some.injEq] at heq
            omega
          · by_cases hrefused : i = room
            · rw [hrefused, hchosen.refused (by omega)] at heq
              cases heq
            · rw [(hchosen.kept i (by omega)).2] at heq
              exact absurd (h.named i hi' _ heq) (Nat.lt_irrefl _)
  · obtain ⟨b, hb, hcount, hnames⟩ := h.unsettled hst
    have hwithout := chosen_unnamed hchosen hone hb hnames
    rw [if_pos hst]
    refine ⟨by omega, b, by omega, by rw [hchosen.dels]; exact hcount,
      fun i _ hi => hwithout i hi, fun heq => absurd heq (hwithout 0 (by omega))⟩

/-- An accepted session cleans up after itself where no block waited before. -/
theorem accepted_clean (h : PerfInv s st) (hst : st.Settled) (hchosen : Chosen s s' room chosen)
    (hone : 1 ≤ chosen) (hnine : chosen ≤ 9) (hroom : chosen ≤ room) :
    ∃ s'', perf_cleanup s' = some s'' ∧ CleanedUp s'' ∧ PerfInv s'' .clean := by
  obtain ⟨hdone, hevents⟩ := h.settled hst
  have hn := hchosen.n_events
  have hall := hchosen.allocated
  rcases @perf_cleanup_pending s' s.allocated (by omega)
    (fun j hj => hchosen.given j (by omega) (by omega))
    (fun b hb => by rw [hchosen.dels]; exact hdone b hb)
    (fun b hb => by rw [hchosen.dels]; exact h.culled b hb)
    (fun i hi hi' => by
      rw [(hchosen.kept i (Or.inl (by omega))).1]
      exact hevents i (by omega) hi') with ⟨s'', hrun, hclean, hn', hnames, hall', hculled⟩
  refine ⟨s'', hrun, hclean, ⟨by omega, by omega, hclean.2, hclean.1, s.allocated, by omega, ?_⟩, ?_,
    hculled⟩
  · rw [hnames, hchosen.given 0 (by omega) (by omega), Nat.add_zero]
  · rw [hnames, hall']
    exact (h.chosen_named hchosen).1

/-- Otherwise it does not: it lacks a block, or one that waited before goes on waiting. -/
theorem accepted_not_clean (h : PerfInv s st) (hchosen : Chosen s s' room chosen)
    (hone : 1 ≤ chosen) (hnine : chosen ≤ 9) {s'' : PerfState} (hrun : perf_cleanup s' = some s'')
    (hclean : CleanedUp s'') : chosen ≤ room ∧ st.Settled := by
  have hn := hchosen.n_events
  have hall := hchosen.allocated
  obtain ⟨-, -, -, -, -, hall', -⟩ := perf_cleanup_spec hrun
  constructor
  · by_contra hroom
    exact perf_cleanup_null hrun (j := room) (by omega) (hchosen.refused (by omega))
  · by_contra hst
    obtain ⟨b, hb, hcount, hnames⟩ := h.unsettled hst
    have hwithout := chosen_unnamed hchosen hone hb hnames
    have hkept := perf_cleanup_kept hrun fun j hj => hwithout j (by omega)
    have honce := hclean.2 b (by omega)
    rw [hkept, hchosen.dels] at honce
    omega

/-- A rejected session cleans up where none was accepted before, or after one that ended in an
error. -/
theorem rejected_clean (h : PerfInv s st) (hst : st = .fresh ∨ st = .pending) :
    ∃ s', perf_cleanup s = some s' ∧ CleanedUp s' ∧
      PerfInv s' (if st = .pending then .clean else st) := by
  rcases hst with rfl | rfl
  · obtain ⟨hn, hdone, hevents⟩ := h.history
    rcases @perf_cleanup_pending s s.allocated (by omega) (fun j hj => by omega) hdone
      h.culled (fun i _ hi => hevents i hi) with ⟨s', hrun, hclean, hn', hnames, hall, hculled⟩
    refine ⟨s', hrun, hclean, ⟨by omega, hclean.2, hclean.1⟩, ?_, hculled⟩
    rw [hnames, hall]
    exact h.named
  · obtain ⟨hone, hnine, old, hold, hbefore, hnames, hrest⟩ := h.history
    have hafter : ∀ b, old ≤ b → s.dels.count b = 0 := by
      intro b hb
      by_cases hlt : b < s.allocated
      · have hwait := (hnames (b - old) (by omega)).2
        rwa [Nat.add_sub_cancel' hb] at hwait
      · exact h.culled b (by omega)
    rcases perf_cleanup_pending hold (fun j hj => (hnames j hj).1) hbefore hafter
      (fun i hi hi' => (hrest i hi hi').1) with ⟨s', hrun, hclean, hn', hkept, hall, hculled⟩
    refine ⟨s', hrun, hclean, ⟨by omega, by omega, hclean.2, hclean.1, old, by omega, ?_⟩, ?_, hculled⟩
    · rw [hkept, (hnames 0 hone).1, Nat.add_zero]
    · rw [hkept, hall]
      exact h.named

theorem rejected_not_clean (h : PerfInv s st) (hrun : perf_cleanup s = some s')
    (hclean : CleanedUp s') : st = .fresh ∨ st = .pending := by
  have hhistory := h.history
  obtain ⟨-, -, -, -, -, hall, -⟩ := perf_cleanup_spec hrun
  cases st with
  | fresh => exact Or.inl rfl
  | pending => exact Or.inr rfl
  | clean =>
      -- The first name still has its block: it is culled twice.
      obtain ⟨hone, -, hdone, -, b, hb, hname⟩ := hhistory
      have htwice := perf_cleanup_culled hrun hone hname
      have honce := hclean.2 b (by omega)
      rw [hdone b hb, honce] at htwice
      exact absurd htwice (Nat.lt_irrefl 1)
  | unnamed =>
      -- The clean-up does not get beyond the first name.
      obtain ⟨hone, -, -, hnull, -⟩ := hhistory
      exact absurd hnull (perf_cleanup_null hrun hone)
  | spoilt =>
      -- A block without a name is not culled; one at the first name is not reached alone.
      obtain ⟨hnine, b, hb, hcount, hnames, hfirst⟩ := hhistory
      have hwithout : ∀ j < s.n_events, s.names j ≠ some b := by
        intro j hj heq
        by_cases hzero : j = 0
        · subst hzero
          rcases hfirst heq with ⟨k, hk, hnull⟩
          exact perf_cleanup_null hrun hk hnull
        · exact hnames j (by omega) (by omega) heq
      have honce := hclean.2 b (by omega)
      rw [perf_cleanup_kept hrun hwithout] at honce
      omega

end PerfInv

/-- What the command's result decides. -/
theorem finish_clean_iff {x : PerfLine} {s : PerfState} :
    (∃ ended s', finish s x = some (ended, s') ∧ (ended = true → CleanedUp s')) ↔
      (x.ret = 0 → ∃ s', perf_cleanup s = some s' ∧ CleanedUp s') := by
  by_cases hret : x.ret = 0
  · simp only [finish, hret, ne_eq, not_true_eq_false, if_false, Option.map_eq_some_iff, Prod.mk.injEq]
    constructor
    · rintro ⟨ended, s', ⟨s'', hrun, rfl, rfl⟩, hclean⟩ -
      exact ⟨s'', hrun, hclean rfl⟩
    · intro h
      obtain ⟨s', hrun, hclean⟩ := h trivial
      exact ⟨true, s', ⟨s', hrun, rfl, rfl⟩, fun _ => hclean⟩
  · refine iff_of_true ⟨false, s, ?_, fun hended => by cases hended⟩ fun h => absurd h hret
    rw [finish, if_pos hret]

theorem finish_inv {x : PerfLine} {s s' : PerfState} {st : Status} {ended : Bool}
    (hfailed : x.ret ≠ 0 → PerfInv s st)
    (hclean : x.ret = 0 → ∃ s', perf_cleanup s = some s' ∧ CleanedUp s' ∧ PerfInv s' st)
    (h : finish s x = some (ended, s')) : PerfInv s' st := by
  rw [finish] at h
  by_cases hret : x.ret = 0
  · rw [if_neg (not_not_intro hret), Option.map_eq_some_iff] at h
    rcases h with ⟨s'', hrun, heq⟩
    obtain ⟨t, hrun', -, hinv⟩ := hclean hret
    cases hrun.symm.trans hrun'
    cases heq
    exact hinv
  · rw [if_pos hret] at h
    cases h
    exact hfailed hret

theorem sessionStep_good_iff {s : PerfState} {st : Status} {x : PerfLine} :
    (∃ ended t, sessionStep lookup (s, st) x = some (ended, t) ∧ SessionGood (s, st) x ended t) ↔
      ∃ ended s', perfStep lookup s x = some (ended, s') ∧ (ended = true → CleanedUp s') := by
  simp only [sessionStep, Option.map_eq_some_iff]
  constructor
  · rintro ⟨ended, t, ⟨r, hrun, heq⟩, hgood⟩
    cases heq
    exact ⟨r.1, r.2, hrun, hgood⟩
  · rintro ⟨ended, s', hrun, hclean⟩
    exact ⟨ended, (s', st.next lookup x), ⟨(ended, s'), hrun, rfl⟩, hclean⟩

/-- One session cleans up exactly if it meets the condition. -/
theorem PerfInv.session_good_iff {s : PerfState} {st : Status} {x : PerfLine} (h : PerfInv s st)
    (hends : Ends lookup (s, st) x) :
    (∃ ended t, sessionStep lookup (s, st) x = some (ended, t) ∧ SessionGood (s, st) x ended t) ↔
      SessionGuard lookup (s, st) x := by
  rw [sessionStep_good_iff]
  cases hknown : x.known with
  | false =>
      refine iff_of_true ⟨false, s, ?_, fun hended => by cases hended⟩ fun hk => ?_
      · rw [perfStep, if_pos hknown]
      · rw [hknown] at hk
        cases hk
  | true =>
      rw [perfStep_eq hknown]
      simp only [SessionGuard, hknown, forall_const]
      cases htyped : typed lookup x.room x.keys with
      | waits => exact absurd htyped (hends hknown)
      | overruns =>
          refine iff_of_false ?_ fun hguard => hguard.1 rfl
          rintro ⟨ended, s', hrun, -⟩
          cases hrun
      | done choice =>
          cases choice with
          | rejected =>
              rw [finish_clean_iff]
              constructor
              · intro hrun
                refine ⟨by simp, fun hret => ⟨fun _ => ?_, fun chosen numbers heq => by cases heq⟩⟩
                obtain ⟨s', hclean, hdone⟩ := hrun hret
                exact h.rejected_not_clean hclean hdone
              · rintro ⟨-, hguard⟩ hret
                obtain ⟨s', hrun, hclean, -⟩ := h.rejected_clean ((hguard hret).1 rfl)
                exact ⟨s', hrun, hclean⟩
          | accepted chosen numbers =>
              obtain ⟨hone, hnine, -⟩ := typed_accepted htyped
              have hchosen := chosen_choose htyped s
              rw [finish_clean_iff]
              constructor
              · intro hrun
                refine ⟨by simp, fun hret => ⟨fun heq => (by cases heq), fun _ _ heq => ?_⟩⟩
                cases heq
                obtain ⟨s', hclean, hdone⟩ := hrun hret
                exact h.accepted_not_clean hchosen hone hnine hclean hdone
              · rintro ⟨-, hguard⟩ hret
                obtain ⟨hroom, hst⟩ := (hguard hret).2 chosen numbers rfl
                obtain ⟨s', hrun, hclean, -⟩ := h.accepted_clean hst hchosen hone hnine hroom
                exact ⟨s', hrun, hclean⟩

/-- Then the history still describes the globals. -/
theorem PerfInv.session {s : PerfState} {st : Status} {x : PerfLine} {ended : Bool}
    {t : PerfState × Status} (h : PerfInv s st) (hguard : SessionGuard lookup (s, st) x)
    (hrun : sessionStep lookup (s, st) x = some (ended, t)) : PerfInv t.1 t.2 := by
  rw [sessionStep, Option.map_eq_some_iff] at hrun
  rcases hrun with ⟨⟨ended', s'⟩, hrun, heq⟩
  cases heq
  cases hknown : x.known with
  | false =>
      rw [perfStep, if_pos hknown] at hrun
      cases hrun
      simpa only [Status.next, if_pos hknown] using h
  | true =>
      rw [perfStep_eq hknown] at hrun
      have hmeets := (hguard hknown).2
      simp only [Status.next, hknown, Bool.true_eq_false, if_false]
      cases htyped : typed lookup x.room x.keys with
      | waits =>
          rw [htyped] at hrun
          cases hrun
      | overruns =>
          rw [htyped] at hrun
          cases hrun
      | done choice =>
          rw [htyped] at hrun
          cases choice with
          | rejected =>
              refine finish_inv (fun hret => ?_) (fun hret => ?_) hrun
              · simpa [hret] using h
              · simpa [hret] using h.rejected_clean ((hmeets hret).1 htyped)
          | accepted chosen numbers =>
              obtain ⟨hone, hnine, -⟩ := typed_accepted htyped
              have hchosen := chosen_choose htyped s
              refine finish_inv (fun hret => ?_) (fun hret => ?_) hrun
              · simpa [hret] using h.afterError hchosen hone hnine
              · obtain ⟨hroom, hst⟩ := (hmeets hret).2 chosen numbers htyped
                simpa [hret] using h.accepted_clean hst hchosen hone hnine hroom

/-! ## Runs -/

theorem perfInv_start : PerfInv .start .fresh where
  history := ⟨rfl, fun b hb => absurd hb (Nat.not_lt_zero b), fun _ _ => rfl⟩
  named := fun _ _ _ hb => (by cases hb)
  culled := fun _ _ => rfl

/-- In a run of sessions all that end without error clean up exactly if each meets the condition. -/
theorem perf_sessions_clean_iff (lookup : List UInt8 → Option Nat) (lines : List PerfLine)
    (hends : Guarded (sessionStep lookup) (Ends lookup) (.start, .fresh) lines) :
    EachCall (sessionStep lookup) SessionGood (.start, .fresh) lines ↔
      Guarded (sessionStep lookup) (SessionGuard lookup) (.start, .fresh) lines :=
  eachCall_iff_guarded_within (fun p => PerfInv p.1 p.2)
    (fun _ _ _ _ h _ hguard hrun => h.session hguard hrun)
    (fun _ _ h hallowed => h.session_good_iff hallowed) perfInv_start hends

/-- The table read by names in place of hashes. -/
def numberNamed (s : List UInt8) : Option Nat :=
  (perf_events.find? fun e => e.name = s).map fun e => e.event_number

/-- A line at which one event is chosen, and one at which none is. -/
def profileLoad : PerfLine := ⟨true, 49 :: ascii "Load" ++ [13], 1, 0⟩

def profileNothing : PerfLine := ⟨true, [48], 1, 0⟩

theorem typed_profileLoad :
    typed numberNamed profileLoad.room profileLoad.keys = .done (.accepted 1 [6]) :=
  rfl

theorem typed_profileNothing :
    typed numberNamed profileNothing.room profileNothing.keys = .done .rejected :=
  rfl

theorem ends_of_typed {p : PerfState × Status} {x : PerfLine} {choice : Choice}
    (h : typed lookup x.room x.keys = .done choice) : Ends lookup p x := by
  intro _ hwaits
  cases h.symm.trans hwaits

/-- A rejected session before the first that is accepted does no harm. -/
theorem perf_sessions_clean_load :
    Guarded (sessionStep numberNamed) (Ends numberNamed) (.start, .fresh)
        [profileNothing, profileLoad] ∧
      EachCall (sessionStep numberNamed) SessionGood (.start, .fresh)
        [profileNothing, profileLoad] := by
  have hends : Guarded (sessionStep numberNamed) (Ends numberNamed) (.start, .fresh)
      [profileNothing, profileLoad] :=
    ⟨ends_of_typed typed_profileNothing,
      fun _ _ _ => ⟨ends_of_typed typed_profileLoad, fun _ _ _ => trivial⟩⟩
  refine ⟨hends, (perf_sessions_clean_iff numberNamed _ hends).mpr ⟨fun _ => ?_, ?_⟩⟩
  · rw [typed_profileNothing]
    exact ⟨by simp, fun _ => ⟨fun _ => Or.inl rfl, fun _ _ heq => (by cases heq)⟩⟩
  · intro ended t hrun
    have hfresh : t.2 = .fresh := by
      cases hrun
      rfl
    refine ⟨fun _ => ?_, fun _ _ _ => trivial⟩
    rw [typed_profileLoad, hfresh]
    refine ⟨by simp, fun _ => ⟨fun heq => (by cases heq), fun chosen numbers heq => ?_⟩⟩
    cases heq
    exact ⟨Nat.le_refl 1, trivial⟩

/-- A rejected one after it culls its block once more. -/
theorem perf_sessions_cull_twice :
    Guarded (sessionStep numberNamed) (Ends numberNamed) (.start, .fresh)
        [profileLoad, profileNothing] ∧
      ¬ EachCall (sessionStep numberNamed) SessionGood (.start, .fresh)
        [profileLoad, profileNothing] := by
  constructor
  · exact ⟨ends_of_typed typed_profileLoad,
      fun _ _ _ => ⟨ends_of_typed typed_profileNothing, fun _ _ _ => trivial⟩⟩
  · rintro ⟨ended, t, hrun, -, ended', u, hrun', hgood, -⟩
    cases hrun
    cases hrun'
    have honce := (hgood rfl).2 0 Nat.zero_lt_one
    exact absurd honce (by decide)

end Perf
end EmbeddedOS
