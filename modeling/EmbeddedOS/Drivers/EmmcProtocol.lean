import EmbeddedOS.Drivers.Emmc

/-!
# The driver keeps to the protocol

Whatever the card answers, a command that transfers data is sent only to a card whose last answer,
to `CMD13`, named the transfer state; the controller is then set up for one block, however many the
caller asked for; and the data register is touched only inside a transfer in its direction.
-/

namespace EmbeddedOS
namespace Drivers
namespace Emmc

open Base Base.Attempt

/-! ## What the controller has seen -/

/-- The last command, the first response word read since then, and the block register. -/
structure Bus where
  command : Option Word
  status : Option Word
  block : Option Word

def Bus.observe (b : Bus) : MmioEvent → Bus
  | .write .EMMC_CMDTM v => { b with command := some v, status := none }
  | .write .EMMC_BLKSIZECNT v => { b with block := some v }
  | .read .EMMC_RESP0 v => { b with status := some v }
  | _ => b

def bus : List MmioEvent → Bus
  | [] => ⟨none, none, none⟩
  | e :: t => (bus t).observe e

/-- `CMD17`, `CMD18`, `CMD24` or `CMD25`, whatever the other bits are. -/
def IsTransfer (code : Word) : Prop :=
  (code >>> 24) &&& 0x3f = 17 ∨ (code >>> 24) &&& 0x3f = 18 ∨
    (code >>> 24) &&& 0x3f = 24 ∨ (code >>> 24) &&& 0x3f = 25

instance (code : Word) : Decidable (IsTransfer code) :=
  inferInstanceAs (Decidable (_ ∨ _ ∨ _ ∨ _))

/-- The last command asked for the status, and the answer named the transfer state. -/
def Bus.Ready (b : Bus) : Prop :=
  b.command = some CMD13 ∧ ∃ r, b.status = some r ∧ stateOf r = SD_STATE_TRAN

/-- The access is in order after what the controller has seen. -/
def Admissible (b : Bus) : MmioEvent → Prop
  | .write .EMMC_CMDTM code => IsTransfer code → b.Ready ∧ b.block = some ONE_BLOCK
  | .write .EMMC_DATA _ => b.command = some CMD24 ∨ b.command = some CMD25
  | .read .EMMC_DATA _ => b.command = some CMD17 ∨ b.command = some CMD18
  | _ => True

/-- Every access is in order after those before it. -/
def Orderly : List MmioEvent → Prop
  | [] => True
  | e :: t => Admissible (bus t) e ∧ Orderly t

/-! ## Triples over the controller -/

abbrev Safe (s : Sd) : Prop := Orderly s.trace

abbrev On (p : Bus → Prop) (s : Sd) : Prop := Orderly s.trace ∧ p (bus s.trace)

/-- The computation does not touch what the controller is seen by. -/
def Quiet {α : Type} (x : Attempt Sd α) : Prop :=
  ∀ p : Bus → Prop, Triple (On p) x (fun _ => On p) Safe

/-- A register that neither commands nor data go through. -/
def Neutral (r : Reg) : Prop :=
  r ≠ .EMMC_CMDTM ∧ r ≠ .EMMC_BLKSIZECNT ∧ r ≠ .EMMC_RESP0 ∧ r ≠ .EMMC_DATA

instance (r : Reg) : Decidable (Neutral r) := inferInstanceAs (Decidable (_ ∧ _ ∧ _ ∧ _))

variable {h : Host} {α β : Type} {p q : Bus → Prop} {r : Reg} {code arg : Word}

theorem observe_read (b : Bus) (v : Word) (hr : r ≠ .EMMC_RESP0) : b.observe (.read r v) = b := by
  cases r <;> first | contradiction | rfl

theorem admissible_read (b : Bus) (v : Word) (hr : r ≠ .EMMC_DATA) : Admissible b (.read r v) := by
  cases r <;> first | contradiction | trivial

theorem observe_write (b : Bus) (v : Word) (hr : Neutral r) : b.observe (.write r v) = b := by
  cases r <;> first | rfl | exact absurd rfl hr.1 | exact absurd rfl hr.2.1

theorem admissible_write (b : Bus) (v : Word) (hr : Neutral r) : Admissible b (.write r v) := by
  cases r <;> trivial

/-- A read of any other register than the data register adds an observation. -/
theorem mmio_read_meets (hr : r ≠ .EMMC_DATA) :
    Triple (On p) (mmio_read h r)
      (fun v => On fun b => ∃ b₀, p b₀ ∧ b = b₀.observe (.read r v)) Safe where
  returns s v t hs hrun := by
    cases hrun
    exact ⟨⟨admissible_read _ _ hr, hs.1⟩, _, hs.2, rfl⟩
  givesUp s t _ hrun := by cases hrun

theorem mmio_write_meets {v : Word} (hadm : ∀ b, p b → Admissible b (.write r v)) :
    Triple (On p) (mmio_write r v)
      (fun _ => On fun b => ∃ b₀, p b₀ ∧ b = b₀.observe (.write r v)) Safe :=
  .update fun _ hs => ⟨⟨hadm _ hs.2, hs.1⟩, _, hs.2, rfl⟩

namespace Quiet

theorem keeps {x : Attempt Sd α} (hx : Quiet x) : Keeps Safe x :=
  (hx fun _ => True).weaken (fun _ hs => ⟨hs, trivial⟩) (fun _ _ hs => hs.1) fun _ => id

theorem ret (a : α) : Quiet (pure a : Attempt Sd α) := fun _ => .ret a fun _ => id

theorem bind {x : Attempt Sd α} {f : α → Attempt Sd β} (hx : Quiet x) (hf : ∀ a, Quiet (f a)) :
    Quiet (x >>= f) := fun p => .bind (hx p) fun a => hf a p

theorem ite {c : Prop} [Decidable c] {x y : Attempt Sd α} (hx : Quiet x) (hy : Quiet y) :
    Quiet (if c then x else y) := fun p => .ite (fun _ => hx p) fun _ => hy p

theorem read (hr : Neutral r) : Quiet (mmio_read h r) := by
  intro p
  refine (mmio_read_meets hr.2.2.2).post ?_
  rintro v s ⟨hs, b₀, hb₀, hb⟩
  rw [observe_read b₀ v hr.2.2.1] at hb
  exact ⟨hs, hb ▸ hb₀⟩

theorem write (hr : Neutral r) (v : Word) : Quiet (mmio_write r v) := by
  intro p
  refine (mmio_write_meets fun b _ => admissible_write b v hr).post ?_
  rintro _ s ⟨hs, b₀, hb₀, hb⟩
  rw [observe_write b₀ v hr] at hb
  exact ⟨hs, hb ▸ hb₀⟩

theorem rounds {body : α → Attempt Sd (Pass α β)} (hbody : ∀ a, Quiet (body a)) (fuel : Nat)
    (a : α) : Quiet (rounds body fuel a) := fun p =>
  .rounds (I := fun _ => On p) (S := fun _ => On p)
    (fun a => (hbody a p).post fun _ _ hs => ⟨fun _ _ => hs, fun _ _ => hs⟩)
    (fun _ _ hs => hs.1) fuel a

theorem gets (f : Sd → α) : Quiet (gets f) := fun _ => .gets fun _ => id

theorem need (o : Option α) : Quiet (need o) := fun _ => .need o (fun _ _ => id) fun _ hs => hs.1

theorem dev (field : EmmcDev → α) : Quiet (dev field) := bind (gets _) fun _ => need _

theorem setDev (f : EmmcDev → EmmcDev) : Quiet (setDev f) := fun _ => .update fun _ => id

theorem countdown {cond : Attempt Sd Bool} (hcond : Quiet cond) (cnt : Nat) :
    Quiet (countdown cond (pure ⟨⟩) cnt) := by
  induction cnt with
  | zero => exact bind hcond fun _ => ite (ret _) (ret _)
  | succ cnt ih => exact bind hcond fun _ => ite (bind (ret _) fun _ => ih) (ret _)

theorem test (hr : Neutral r) (mask : Word) : Quiet (test h r mask) :=
  bind (read hr) fun _ => ret _

theorem waitWhile {cond : Attempt Sd Bool} (hcond : Quiet cond) : Quiet (waitWhile h cond) :=
  rounds (fun _ => bind hcond fun _ => ret _) _ _

end Quiet

theorem ret_keeps (a : α) : Keeps Safe (pure a : Attempt Sd α) := .ret _ fun _ => id

/-! ## What disturbs nothing -/

theorem neutral_mbox (i : Nat) : Neutral (.mbox i) := by
  refine ⟨?_, ?_, ?_, ?_⟩ <;> rintro ⟨⟩

theorem mboxStore_quiet (ws : List Word) (i : Nat) : Quiet (mboxStore i ws) := by
  induction ws generalizing i with
  | nil => exact .ret _
  | cons w ws ih => exact .bind (.write (neutral_mbox i) w) fun _ => ih (i + 1)

theorem mboxPrint_quiet (is : List Nat) : Quiet (mboxPrint h is) := by
  induction is with
  | nil => exact .ret _
  | cons i is ih => exact .bind (.read (neutral_mbox i)) fun _ => ih

theorem mailboxCall_quiet (words : List Word) : Quiet (mailboxCall h words) := by
  refine .bind (mboxStore_quiet _ _) fun _ => .bind (.waitWhile (.test (by decide) _)) fun _ =>
    .bind (.write (by decide) _) fun _ => .rounds (fun _ => ?_) _ _
  refine .bind (.waitWhile (.test (by decide) _)) fun _ => .bind (.read (by decide)) fun _ =>
    .ite ?_ (.ret _)
  refine .bind (.read (by decide)) fun _ => .ite ?_ (.ret _)
  exact .bind (mboxPrint_quiet _) fun _ => .bind (.read (by decide)) fun _ => .ret _

theorem busy_quiet (mask : Word) : Quiet (busy h mask) :=
  .bind (.test (by decide) _) fun _ =>
    .ite (.bind (.test (by decide) _) fun _ => .ret _) (.ret _)

theorem sd_status_quiet (mask : Word) : Quiet (sd_status h mask) :=
  .bind (.countdown (busy_quiet mask) _) fun _ =>
    .ite (.ret _) (.bind (.test (by decide) _) fun _ => .ret _)

theorem waitInhibit_quiet (mask : Word) : Quiet (waitInhibit h mask) :=
  .bind (sd_status_quiet mask) fun _ =>
    .ite (.waitWhile (.bind (sd_status_quiet mask) fun _ => .ret _)) (.ret _)

theorem waitLines_quiet (code : Word) : Quiet (waitLines h code) :=
  .ite (waitInhibit_quiet _) (.ret _)

theorem rcaArg_quiet : Quiet rcaArg := .bind (.dev _) fun _ => .ret _

theorem sd_clk_quiet (f : Word) : Quiet (sd_clk h f) := by
  refine .bind (mailboxCall_quiet _) fun _ => .bind (.countdown (.test (by decide) _) _) fun _ =>
    .ite (.ret _) (.bind (mailboxCall_quiet _) fun _ => ?_)
  refine .bind (.read (by decide)) fun _ => .bind (.write (by decide) _) fun _ =>
    .bind (.dev _) fun _ => .bind (.read (by decide)) fun _ => .bind (.write (by decide) _) fun _ =>
    .bind (mailboxCall_quiet _) fun _ => ?_
  refine .bind (.read (by decide)) fun _ => .bind (.write (by decide) _) fun _ =>
    .bind (.countdown (.bind (.test (by decide) _) fun _ => .ret _) _) fun _ => ?_
  exact .ite (.ret _) (.bind (mailboxCall_quiet _) fun _ => .ret _)

theorem sd_gpio_quiet : Quiet (sd_gpio h) := by
  refine .bind (.read (by decide)) fun _ => .bind (.write (by decide) _) fun _ =>
    .bind (.write (by decide) _) fun _ => .bind (.write (by decide) _) fun _ =>
    .bind (.write (by decide) _) fun _ => .bind (.write (by decide) _) fun _ => ?_
  exact .bind (.read (by decide)) fun _ => .bind (.write (by decide) _) fun _ =>
    .bind (.write (by decide) _) fun _ => .bind (.write (by decide) _) fun _ =>
    .bind (.write (by decide) _) fun _ => .write (by decide) _

theorem resetHost_quiet : Quiet (resetHost h) := by
  refine .bind sd_gpio_quiet fun _ => .bind (.read (by decide)) fun _ =>
    .bind (.write (by decide) _) fun _ => .bind (.read (by decide)) fun _ =>
    .bind (.write (by decide) _) fun _ => .bind (.write (by decide) _) fun _ =>
    .bind (.write (by decide) _) fun _ => .bind (.write (by decide) _) fun _ =>
    .bind (.countdown (.test (by decide) _) _) fun _ => .ite (.ret _) ?_
  refine .bind (.read (by decide)) fun _ => .bind (.write (by decide) _) fun _ =>
    .bind (.read (by decide)) fun _ => .bind (.setDev _) fun _ =>
    .bind (.read (by decide)) fun _ => .bind (.write (by decide) _) fun _ =>
    .bind (sd_clk_quiet _) fun _ => .ite (.ret _) ?_
  exact .bind (.write (by decide) _) fun _ => .bind (.write (by decide) _) fun _ => .ret _

/-! ## Commands -/

/-- A fact that a new response word does not change. -/
def StatusFree (p : Bus → Prop) : Prop := ∀ b v, p b → p { b with status := v }

/-- `sd_int` may read a response word, but only where it fails. -/
theorem sd_int_meets (hp : StatusFree p) (mask : Word) :
    Triple (On p) (sd_int h mask) (fun _ => On p) Safe := by
  have hpending : Quiet (do let b ← test h .EMMC_INTERRUPT (mask ||| INT_ERROR_MASK ||| (1 <<< 8))
                            pure !b) := .bind (.test (by decide) _) fun _ => .ret _
  refine .bind (Quiet.countdown hpending _ p) fun cnt => .bind (Quiet.read (by decide) p) fun r =>
    .ite (fun _ => ?_) fun _ => .ite (fun _ => ?_) fun _ => ?_
  · refine .bind (Quiet.write (by decide) _ p) fun _ => .bind (Quiet.write (by decide) _ p) fun _ =>
      .bind (Quiet.read (by decide) p) fun _ => .bind (mmio_read_meets (by decide)) fun v => ?_
    refine .ret _ ?_
    rintro s ⟨hs, b₀, hb₀, hb⟩
    rw [On, hb]
    exact ⟨hs, hp b₀ (some v) hb₀⟩
  · exact .bind (Quiet.write (by decide) _ p) fun _ => .ret _ fun _ => id
  · exact .bind (Quiet.write (by decide) _ p) fun _ => .ret _ fun _ => id

/-- The codes whose response `sd_cmd` returns as it is. -/
def Plain (code : Word) : Prop :=
  ¬ (code = CMD_GO_IDLE ∨ code = CMD_APP_CMD) ∧ code ≠ CMD_APP_CMD ||| CMD_RSPNS_48 ∧
    code ≠ CMD_SEND_OP_COND ∧ code ≠ CMD_SEND_IF_COND ∧ code ≠ CMD_ALL_SEND_CID ∧
    code ≠ CMD_SEND_REL_ADDR

instance (code : Word) : Decidable (Plain code) :=
  inferInstanceAs (Decidable (_ ∧ _ ∧ _ ∧ _ ∧ _ ∧ _))

theorem response_eq (hcode : Plain code) (r : Word) : response h code arg r = pure r := by
  rw [response, if_neg hcode.1, if_neg hcode.2.1, if_neg hcode.2.2.1, if_neg hcode.2.2.2.1,
    if_neg hcode.2.2.2.2.1, if_neg hcode.2.2.2.2.2]

theorem response_quiet (r : Word) : Quiet (response h code arg r) := by
  refine .ite (.ret _) (.ite (.ret _) (.ite (.ret _) (.ite (.ret _) (.ite ?_ (.ite ?_ (.ret _))))))
  · exact .bind (.read (by decide)) fun _ => .bind (.read (by decide)) fun _ =>
      .bind (.read (by decide)) fun _ => .ret _
  · exact .bind (.setDev _) fun _ => .ret _

/-- After a command the controller has it, set up for one block. What a plain command returns is
zero or the response word. -/
def Issued (code r : Word) (b : Bus) : Prop :=
  b.command = some code ∧ (Plain code → r = 0 ∨ b.status = some r)

/-- A status that names the transfer state makes the card ready for a transfer. -/
theorem Issued.ready {b : Bus} {r : Word} (hb : Issued CMD13 r b)
    (hstate : stateOf r = SD_STATE_TRAN) : b.Ready := by
  refine ⟨hb.1, ?_⟩
  rcases hb.2 (by decide) with rfl | hr
  · -- A command that failed returns zero, which names the idle state.
    exact absurd hstate (by decide)
  · exact ⟨r, hr, hstate⟩

theorem issue_meets (hcode : IsTransfer code → ∀ b, p b → b.Ready) :
    Triple (On p) (issue h code arg) (fun r => On (Issued code r)) Safe := by
  let ready (b : Bus) : Prop := (IsTransfer code → b.Ready) ∧ b.block = some ONE_BLOCK
  let sent (b : Bus) : Prop := b.command = some code
  -- The block register is written with every command, over the caller's count.
  have hblock : Triple (On p) (mmio_write .EMMC_BLKSIZECNT ONE_BLOCK) (fun _ => On ready) Safe := by
    have hadm : ∀ b, p b → Admissible b (.write .EMMC_BLKSIZECNT ONE_BLOCK) := fun _ _ => trivial
    refine (mmio_write_meets hadm).post ?_
    rintro _ s ⟨hs, b₀, hb₀, hb⟩
    rw [On, hb]
    exact ⟨hs, fun ht => hcode ht b₀ hb₀, rfl⟩
  have hsent : Triple (On ready) (mmio_write .EMMC_CMDTM code) (fun _ => On sent) Safe := by
    have hadm : ∀ b, ready b → Admissible b (.write .EMMC_CMDTM code) :=
      fun b hb ht => ⟨hb.1 ht, hb.2⟩
    refine (mmio_write_meets hadm).post ?_
    rintro _ s ⟨hs, b₀, hb₀, hb⟩
    rw [On, hb]
    exact ⟨hs, rfl⟩
  refine .bind (waitInhibit_quiet _ p) fun _ => .bind (waitLines_quiet _ p) fun _ => .bind hblock fun _ =>
    .bind (Quiet.read (by decide) ready) fun _ => .bind (Quiet.write (by decide) _ ready) fun _ =>
    .bind (Quiet.write (by decide) _ ready) fun _ => .bind hsent fun _ => ?_
  refine .bind (sd_int_meets (fun b v hb => hb) _) fun e => .ite (fun _ => ?_) fun _ => ?_
  · refine .bind (Quiet.setDev _ sent) fun _ => .ret _ ?_
    exact fun s hs => ⟨hs.1, hs.2, fun _ => .inl rfl⟩
  · refine .bind (mmio_read_meets (by decide)) fun r => ?_
    refine Triple.pre (P := On fun b => b.command = some code ∧ b.status = some r) ?_ ?_
    · refine .bind (Quiet.read (by decide) _) fun _ => .bind (Quiet.read (by decide) _) fun _ =>
        .bind (Quiet.read (by decide) _) fun _ => .bind (Quiet.setDev _ _) fun _ => ?_
      by_cases hplain : Plain code
      · rw [response_eq hplain]
        exact .ret _ fun s hs => ⟨hs.1, hs.2.1, fun _ => .inr hs.2.2⟩
      · refine (response_quiet r _).post fun r' s hs => ?_
        exact ⟨hs.1, hs.2.1, fun hp => absurd hp hplain⟩
    · rintro s ⟨hs, b₀, hb₀, hb⟩
      rw [On, hb]
      exact ⟨hs, hb₀, rfl⟩

/-- A command of the card itself. -/
theorem sd_cmd_meets (happ : code &&& CMD_NEED_APP = 0)
    (hcode : IsTransfer code → ∀ b, p b → b.Ready) :
    Triple (On p) (sd_cmd h code arg) (fun r => On (Issued code r)) Safe := by
  refine .bind (Quiet.dev _ p) fun _ => .bind (Quiet.setDev _ p) fun _ => ?_
  rw [if_neg (not_not_intro happ)]
  exact issue_meets hcode

theorem status_issued : Triple Safe (sd_cmd h CMD13 arg) (fun r => On (Issued CMD13 r)) Safe :=
  (sd_cmd_meets (p := fun _ => True) (by decide) fun ht => absurd ht (by decide)).pre
    fun _ hs => ⟨hs, trivial⟩

/-- Any command that transfers no data. -/
theorem sd_cmd_keeps (hcode : ¬ IsTransfer code)
    (happ : ¬ IsTransfer (code &&& ~~~CMD_NEED_APP)) : Keeps Safe (sd_cmd h code arg) := by
  have hissue : ∀ c a, ¬ IsTransfer c → Keeps Safe (issue h c a) := fun c a hc =>
    (issue_meets (p := fun _ => True) fun ht => absurd ht hc).weaken
      (fun _ hs => ⟨hs, trivial⟩) (fun _ _ hs => hs.1) fun _ => id
  refine .bind (Quiet.keeps (.dev _)) fun _ => .bind (Quiet.keeps (.setDev _)) fun _ =>
    .ite (fun _ => ?_) fun _ => hissue _ _ hcode
  refine .bind (Quiet.keeps (.dev _)) fun rca => .bind (Quiet.keeps rcaArg_quiet) fun app =>
    .bind (Quiet.keeps (.setDev _)) fun _ => .bind (hissue _ _ ?_) fun _ => hissue _ _ happ
  -- The announcement is `CMD55`, with or without an answer, and transfers nothing.
  by_cases hrca : rca ≠ 0
  · rw [if_pos hrca]
    decide
  · rw [if_neg hrca]
    decide

/-! ## Initialisation -/

theorem reaches_ready : Triple Safe (reaches h CMD13 SD_STATE_TRAN)
    (fun ok => On fun b => ok = true → b.Ready) Safe := by
  refine .bind (Quiet.keeps rcaArg_quiet) fun arg => .bind status_issued fun r => .ret _ ?_
  rintro s ⟨hs, hissued⟩
  refine ⟨hs, fun hok => hissued.ready ?_⟩
  simpa using hok

theorem reaches_keeps (state : Word) : Keeps Safe (reaches h CMD13 state) :=
  .bind (Quiet.keeps rcaArg_quiet) fun _ =>
    .bind (sd_cmd_keeps (by decide) (by decide)) fun _ => .ret _ fun _ => id

theorem opCond_keeps (cnt : Nat) (r : Word) : Keeps Safe (opCond h cnt r) := by
  induction cnt generalizing r with
  | zero =>
      rw [opCond]
      exact .ite (fun _ => .ret _ fun _ => id) fun _ => .ret _ fun _ => id
  | succ cnt ih =>
      rw [opCond]
      refine .ite (fun _ => .ret _ fun _ => id) fun _ => ?_
      exact .bind (sd_cmd_keeps (by decide) (by decide)) fun r => ih r

theorem selectCard_keeps : Keeps Safe (selectCard h) := by
  have harg := Quiet.keeps rcaArg_quiet
  refine .bind harg fun _ => .bind (sd_cmd_keeps (by decide) (by decide)) fun _ => .bind harg fun _ =>
    .bind (sd_cmd_keeps (by decide) (by decide)) fun _ => .bind (reaches_keeps _) fun _ =>
    .ite (fun _ => ret_keeps _) fun _ => ?_
  refine .bind (Quiet.keeps (sd_clk_quiet _)) fun _ => .ite (fun _ => ret_keeps _) fun _ => ?_
  refine .bind harg fun _ => .bind (sd_cmd_keeps (by decide) (by decide)) fun _ =>
    .bind (reaches_keeps _) fun _ => .ite (fun _ => ret_keeps _) fun _ => ?_
  exact .bind harg fun _ => .bind (sd_cmd_keeps (by decide) (by decide)) fun _ =>
    .bind (Quiet.keeps (.read (by decide))) fun _ =>
    .bind (Quiet.keeps (.write (by decide) _)) fun _ =>
    .bind (Quiet.keeps (.setDev _)) fun _ => ret_keeps _

theorem identifyCard_keeps : Keeps Safe (identifyCard h) := by
  refine .bind (sd_cmd_keeps (by decide) (by decide)) fun _ => .bind (sd_cmd_keeps (by decide) (by decide)) fun _ =>
    .bind (sd_cmd_keeps (by decide) (by decide)) fun _ => .bind (Quiet.keeps (.dev _)) fun _ =>
    .ite (fun _ => ret_keeps _) fun _ => .bind (opCond_keeps _ _) fun _ =>
    .ite (fun _ => ret_keeps _) fun _ => .ite (fun _ => ret_keeps _) fun _ => ?_
  refine .bind (sd_cmd_keeps (by decide) (by decide)) fun _ => .bind (Quiet.keeps (.setDev _)) fun _ =>
    .bind (sd_cmd_keeps (by decide) (by decide)) fun _ => .ite (fun _ => ret_keeps _) fun _ => ?_
  exact .bind (Quiet.keeps (.setDev _)) fun _ => selectCard_keeps

theorem sd_init_keeps : Keeps Safe (sd_init h) := by
  refine .bind (.update fun _ => id) fun _ => .bind (Quiet.keeps (.gets _)) fun _ =>
    .ite (fun _ => ret_keeps _) fun _ => ?_
  exact .bind (Quiet.keeps resetHost_quiet) fun _ => .ite (fun _ => ret_keeps _) fun _ =>
    identifyCard_keeps

/-! ## Transfers -/

/-- A card for which the driver finds the data mode is ready. -/
abbrev ReadyIf (e : Int) : Sd → Prop := On fun b => e = E_NOERR → b.Ready

theorem leaveState_keeps (state : Word) : Keeps Safe (leaveState h state) := by
  refine .ite (fun _ => ?_) fun _ => .ite (fun _ => ?_) fun _ =>
    .ite (fun _ => ret_keeps _) fun _ => sd_init_keeps
  · exact .bind (Quiet.keeps rcaArg_quiet) fun _ =>
      .bind (sd_cmd_keeps (by decide) (by decide)) fun _ => ret_keeps _
  · exact .bind (sd_cmd_keeps (by decide) (by decide)) fun _ => ret_keeps _

theorem enterTransfer_ready {r : Word} :
    Triple (On (Issued CMD13 r)) (enterTransfer h (stateOf r)) ReadyIf Safe := by
  have herr : ∀ {e : Int} {P : Sd → Prop}, e ≠ E_NOERR → (∀ s, P s → Safe s) →
      Triple P (pure e : Attempt Sd Int) ReadyIf Safe := fun he hP =>
    .ret _ fun s hs => ⟨hP s hs, fun h0 => absurd h0 he⟩
  by_cases hstate : stateOf r = SD_STATE_TRAN
  · -- The first status was the transfer state: nothing else is sent.
    have hleave : leaveState h (stateOf r) = pure E_NOERR := by
      rw [leaveState, hstate, if_neg (by decide), if_neg (by decide), if_pos rfl]
    have hskip : Triple (On (Issued CMD13 r)) (pure E_NOERR : Attempt Sd Int)
        (fun _ => On (Issued CMD13 r)) Safe := .ret _ fun _ => id
    rw [enterTransfer, hleave]
    refine .bind hskip fun e => .ite (fun he => herr he fun s hs => hs.1) fun he => ?_
    rw [if_neg (not_not_intro hstate)]
    exact .ret _ fun s hs => ⟨hs.1, fun _ => hs.2.ready hstate⟩
  · refine .bind ((leaveState_keeps _).pre fun s hs => hs.1) fun e =>
      .ite (fun he => herr he fun s => id) fun _ => ?_
    rw [if_pos hstate]
    refine .bind reaches_ready fun ok => .ret _ ?_
    rintro s ⟨hs, hready⟩
    refine ⟨hs, fun he => hready ?_⟩
    cases ok with
    | true => rfl
    | false => exact absurd he (by decide)

theorem ensure_data_mode_ready : Triple Safe (ensure_data_mode h) ReadyIf Safe := by
  have herr : ∀ {e : Int}, e ≠ E_NOERR → Triple Safe (pure e : Attempt Sd Int) ReadyIf Safe :=
    fun he => .ret _ fun s hs => ⟨hs, fun h0 => absurd h0 he⟩
  have hinit : ∀ rca, Keeps Safe (initOnce h rca) := fun rca =>
    .ite (fun _ => sd_init_keeps) fun _ => .ret _ fun _ => id
  refine .bind (Quiet.keeps (.dev _)) fun rca => .bind (hinit rca) fun e =>
    .ite (fun he => herr he) fun _ => .bind (Quiet.keeps rcaArg_quiet) fun _ =>
    .bind status_issued fun _ => enterTransfer_ready

/-- Waiting for the data lines reads a response word only where it fails. -/
theorem sd_wait_data_meets :
    Triple (On p) (sd_wait_data h) (fun e => On fun b => e = E_NOERR → p b) Safe := by
  have hfailed : ∀ cnt, Quiet (waitFailed h cnt) := fun _ => .ite (.ret _) (.test (by decide) _)
  refine .bind (Quiet.countdown (busy_quiet _) _ p) fun cnt => .bind (hfailed cnt p) fun failed =>
    .ite (fun _ => ?_) fun _ => .ret _ fun s hs => ⟨hs.1, fun _ => hs.2⟩
  refine .bind (Quiet.read (by decide) p) fun _ => .bind (Quiet.read (by decide) p) fun _ =>
    .bind (mmio_read_meets (by decide)) fun _ => .ret _ ?_
  exact fun s hs => ⟨hs.1, fun h0 => absurd h0 (by decide)⟩

/-- Inside a transfer. -/
abbrev Sent (code : Word) : Sd → Prop := On fun b => b.command = some code

/-- The data phase keeps to the transfer if every sector does. -/
theorem sectors_keep {mask : Word} {num : Nat} {sector : Nat → Attempt Sd PUnit}
    (hsector : ∀ c, Triple (Sent code) (sector c) (fun _ => Sent code) Safe) (c : Nat) :
    Triple (Sent code) (sectors h mask num sector c) (fun _ => Sent code) Safe := by
  -- A sector that fails leaves the loop inside the transfer too.
  refine .rounds (I := fun _ => Sent code) (S := fun _ => Sent code) (fun c => ?_)
    (fun _ _ hs => hs.1) _ _
  refine .ite (fun _ => ?_) fun _ => .ret _ fun s hs => ⟨by rintro _ ⟨⟩, fun _ _ => hs⟩
  refine .bind (sd_int_meets (fun b v hb => hb) _) fun r => .ite (fun _ => ?_) fun _ =>
    .ite (fun _ => .giveUp fun s hs => hs.1) fun _ => ?_
  · exact .bind (Quiet.setDev _ _) fun _ => .ret _ fun s hs => ⟨by rintro _ ⟨⟩, fun _ _ => hs⟩
  · exact .bind (hsector c) fun _ => .ret _ fun s hs => ⟨fun _ _ => hs, by rintro _ ⟨⟩⟩

theorem receive_keeps (hcode : code = CMD17 ∨ code = CMD18) (n a : Nat) :
    Triple (Sent code) (receive h n a) (fun _ => Sent code) Safe := by
  induction n generalizing a with
  | zero => exact .ret _ fun _ => id
  | succ n ih =>
      have hread : Triple (Sent code) (mmio_read h .EMMC_DATA) (fun _ => Sent code) Safe := by
        refine ⟨?_, fun s t _ hrun => by cases hrun⟩
        rintro s v t ⟨hs, hsent⟩ hrun
        have hadm : (bus s.trace).command = some CMD17 ∨ (bus s.trace).command = some CMD18 := by
          rcases hcode with rfl | rfl
          · exact .inl hsent
          · exact .inr hsent
        cases hrun
        exact ⟨⟨hadm, hs⟩, hsent⟩
      exact .bind hread fun _ => .bind (.update fun _ => id) fun _ => ih (a + 4)

theorem send_keeps (hcode : code = CMD24 ∨ code = CMD25) (ws : List Nat) :
    Triple (Sent code) (send ws) (fun _ => Sent code) Safe := by
  induction ws with
  | nil => exact .ret _ fun _ => id
  | cons w ws ih =>
      have hwrite : Triple (Sent code) (mmio_write .EMMC_DATA (BitVec.ofNat 32 w))
          (fun _ => Sent code) Safe := by
        refine .update ?_
        rintro s ⟨hs, hsent⟩
        have hadm : (bus s.trace).command = some CMD24 ∨ (bus s.trace).command = some CMD25 := by
          rcases hcode with rfl | rfl
          · exact .inl hsent
          · exact .inr hsent
        exact ⟨⟨hadm, hs⟩, hsent⟩
      exact .bind hwrite fun _ => ih

theorem stopTransfer_keeps (num : Nat) : Keeps Safe (stopTransfer h num) :=
  .ite (fun _ => .bind (sd_cmd_keeps (by decide) (by decide)) fun _ => .ret _ fun _ => id)
    fun _ => .ret _ fun _ => id

/-- The block register does not make a ready card unready. -/
theorem blockSize_ready (v : Word) :
    Triple (On Bus.Ready) (mmio_write .EMMC_BLKSIZECNT v) (fun _ => On Bus.Ready) Safe :=
  .update fun _ hs => ⟨⟨trivial, hs.1⟩, hs.2⟩

/-- A transfer is sent to a ready card. -/
theorem sd_cmd_transfer (happ : code &&& CMD_NEED_APP = 0) :
    Triple (On Bus.Ready) (sd_cmd h code arg) (fun _ => Sent code) Safe :=
  (sd_cmd_meets happ fun _ _ => id).post fun _ _ hs => ⟨hs.1, hs.2.1⟩

/-- How both transfers start: what follows finds a card that is ready. -/
theorem transfer_keeps {x : Attempt Sd Int} {v : Word}
    (hx : Triple (On Bus.Ready) x (fun _ => Safe) Safe) :
    Keeps Safe (do
      let r ← ensure_data_mode h
      if r ≠ E_NOERR then pure r
      else
        let busy ← sd_wait_data h
        if busy ≠ E_NOERR then pure E_TIMEOUT
        else
          mmio_write .EMMC_BLKSIZECNT v
          x) := by
  refine .bind ensure_data_mode_ready fun r => .ite (fun _ => .ret _ fun _ hs => hs.1) fun hr => ?_
  rw [ne_eq, not_not] at hr
  refine .bind sd_wait_data_meets fun busy => .ite (fun _ => .ret _ fun _ hs => hs.1) fun hbusy => ?_
  rw [ne_eq, not_not] at hbusy
  exact .bind ((blockSize_ready _).pre fun s hs => ⟨hs.1, hs.2 hbusy hr⟩) fun _ => hx

theorem sd_read_keeps (buffer num : Nat) (lba : Word) : Keeps Safe (sd_read h buffer num lba) := by
  have herr : ∀ (e : Int) {p : Bus → Prop}, Triple (On p) (pure e : Attempt Sd Int)
      (fun _ => Safe) Safe := fun _ => .ret _ fun _ hs => hs.1
  refine transfer_keeps ?_
  obtain ⟨code, hcode, happ, hif⟩ : ∃ code, (code = CMD17 ∨ code = CMD18) ∧
      code &&& CMD_NEED_APP = 0 ∧
      (if (if num < 1 then 1 else num) = 1 then CMD17 else CMD18) = code := by
    by_cases hone : (if num < 1 then 1 else num) = 1
    · exact ⟨CMD17, .inl rfl, by decide, if_pos hone⟩
    · exact ⟨CMD18, .inr rfl, by decide, if_neg hone⟩
  rw [hif]
  refine .bind (sd_cmd_transfer happ) fun _ =>
    .bind (sectors_keep (fun c => receive_keeps hcode _ _) 0) fun e => .ite (fun _ => herr _)
    fun _ => ?_
  exact .bind ((stopTransfer_keeps _).pre fun s hs => hs.1) fun _ => .ret _ fun _ => id

theorem sd_write_keeps (buffer num : Nat) (lba : Word) :
    Keeps Safe (sd_write h buffer num lba) := by
  have herr : ∀ (e : Int) {p : Bus → Prop}, Triple (On p) (pure e : Attempt Sd Int)
      (fun _ => Safe) Safe := fun _ => .ret _ fun _ hs => hs.1
  refine transfer_keeps ?_
  obtain ⟨code, hcode, happ, hif⟩ : ∃ code, (code = CMD24 ∨ code = CMD25) ∧
      code &&& CMD_NEED_APP = 0 ∧
      (if (if num < 1 then 1 else num) = 1 then CMD24 else CMD25) = code := by
    by_cases hone : (if num < 1 then 1 else num) = 1
    · exact ⟨CMD24, .inl rfl, by decide, if_pos hone⟩
    · exact ⟨CMD25, .inr rfl, by decide, if_neg hone⟩
  rw [hif]
  refine .bind (sd_cmd_transfer happ) fun _ => .bind (Quiet.gets _ _) fun m =>
    .bind (sectors_keep (fun c => send_keeps hcode _) 0) fun e => .ite (fun _ => herr _)
    fun _ => ?_
  refine .bind (sd_int_meets (fun b v hb => hb) _) fun r => .ite (fun _ => herr _) fun _ => ?_
  exact .bind ((stopTransfer_keeps _).pre fun s hs => hs.1) fun _ => .ret _ fun _ => id

/-! ## Sessions -/

theorem SdCall.run_keeps (c : SdCall) : Keeps Safe (c.run h) := by
  cases c with
  | init => exact sd_init_keeps
  | read buffer num lba => exact sd_read_keeps buffer num lba
  | write buffer num lba => exact sd_write_keeps buffer num lba

theorem session_keeps (calls : List SdCall) : Keeps Safe (session h calls) := by
  induction calls with
  | nil => exact .ret _ fun _ => id
  | cons c cs ih => exact .bind c.run_keeps fun _ => .bind ih fun _ => .ret _ fun _ => id

/-- **Sessions are orderly.** Whatever the card answers and whatever is called, up to any point at
which the driver stops or waits: no transfer is sent but to a card that has just named the transfer
state, each is set up for one block, and data move only inside a transfer in their direction. -/
theorem session_orderly (h : Host) (calls : List SdCall) (mem : ByteMem) (d : Option EmmcDev) :
    Orderly (session h calls ⟨[], mem, d⟩).2.trace := by
  have hkeeps := @session_keeps h calls
  have hstart : Safe ⟨[], mem, d⟩ := trivial
  rcases hrun : session h calls ⟨[], mem, d⟩ with ⟨o, s⟩
  cases o with
  | none => exact hkeeps.givesUp _ _ hstart hrun
  | some rs => exact hkeeps.returns _ _ _ hstart hrun

end Emmc
end Drivers
end EmbeddedOS
