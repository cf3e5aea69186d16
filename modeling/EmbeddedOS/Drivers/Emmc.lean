import EmbeddedOS.Base.Attempt
import EmbeddedOS.Drivers.SdRead

/-!
# The SD host driver

The command layer of `sd.c` with all that it reads from and writes to the controller: `sd_status`,
`sd_int`, `sd_cmd`, `sd_clk`, `sd_init`, `ensure_data_mode`, `sd_wait_data` and the transfers. What a
register holds when it is read may depend on everything that was read and written before. Delays
and prints are left out, the register reads among the arguments of a print are not.
-/

namespace EmbeddedOS
namespace Drivers
namespace Emmc

open Base Base.ByteMem Base.Attempt

abbrev Word := BitVec 32

/-! ## Registers -/

inductive Reg where
  | EMMC_BLKSIZECNT
  | EMMC_ARG1
  | EMMC_CMDTM
  | EMMC_RESP0
  | EMMC_RESP1
  | EMMC_RESP2
  | EMMC_RESP3
  | EMMC_DATA
  | EMMC_STATUS
  | EMMC_CONTROL0
  | EMMC_CONTROL1
  | EMMC_INTERRUPT
  | EMMC_IRPT_MASK
  | EMMC_IRPT_EN
  | EMMC_CONTROL2
  | EMMC_SLOTISR_VER
  | GPIO_GPFSEL4
  | GPIO_GPFSEL5
  | GPIO_GPPUD
  | GPIO_GPPUDCLK1
  /-- `0xfe2000d0` -/
  | mode
  | MAIL_READ
  | MAIL_STAT
  | MAIL_WRITE
  /-- A word of the mailbox message, which the firmware answers in place. -/
  | mbox (i : Nat)
  deriving DecidableEq

inductive MmioEvent where
  | read (r : Reg) (v : Word)
  | write (r : Reg) (v : Word)
  deriving DecidableEq

/-- The fields of `emmc_dev` that the driver reads again. -/
structure EmmcDev where
  card_rca : BitVec 16
  sd_hv : BitVec 64
  last_error : Int
  last_r0 : Word
  last_r1 : Word
  last_r2 : Word
  last_r3 : Word
  base_clock : Word

/-- The driver's state, and what it has read and written, the last first. -/
structure Sd where
  trace : List MmioEvent
  mem : ByteMem
  emmc_dev : Option EmmcDev

/-- What is outside the driver. -/
structure Host where
  /-- What a register holds after these accesses. -/
  answer : List MmioEvent → Reg → Word
  /-- What `new` hands out. -/
  fresh : List MmioEvent → Option EmmcDev
  /-- The address of the mailbox message, as the firmware gets it. -/
  mailbox : Word
  /-- How often the loops without a bound of their own go round. -/
  fuel : Nat

/-! ## Codes -/

abbrev E_NOT_READY : Int := 0x0200

abbrev CMD0 : Word := 0x00000000
abbrev CMD2 : Word := 0x02010000
abbrev CMD3 : Word := 0x03020000
abbrev CMD7 : Word := 0x07010000
abbrev CMD9 : Word := 0x09010000
abbrev CMD10 : Word := 0x0A010000
abbrev CMD12 : Word := 0x0C020000
abbrev CMD13 : Word := 0x0D020000
abbrev CMD17 : Word := 0x11220012
abbrev CMD18 : Word := 0x12220032
abbrev CMD24 : Word := 0x18220002
abbrev CMD25 : Word := 0x19020022
abbrev CMD41 : Word := 0x29020000
abbrev CMD55 : Word := 0x37000000
abbrev CMD_NEED_APP : Word := 0x80000000
abbrev CMD_RSPNS_48 : Word := 0x00020000
abbrev CMD_ERRORS_MASK : Word := 0xfff9c004
abbrev CMD_GO_IDLE : Word := 0x00000000
abbrev CMD_ALL_SEND_CID : Word := 0x02010000
abbrev CMD_SEND_REL_ADDR : Word := 0x03020000
abbrev CMD_SEND_IF_COND : Word := 0x08020000
abbrev CMD_APP_CMD : Word := 0x37000000
abbrev CMD_SET_BUS_WIDTH : Word := 0x06020000 ||| CMD_NEED_APP
abbrev CMD_SEND_OP_COND : Word := 0x29020000 ||| CMD_NEED_APP
abbrev EMMC_STATUS_CMD_INHIBIT : Word := 0x00000001
abbrev EMMC_STATUS_DAT_INHIBIT : Word := 0x00000002
abbrev SR_CMD_INHIBIT : Word := 0x00000001
abbrev SR_DAT_INHIBIT : Word := 0x00000002
abbrev SR_APP_CMD : Word := 0x00000020
abbrev INT_ERROR_MASK : Word := 0xF7FF8000
abbrev INT_CMD_DONE : Word := 0x00000001
abbrev EMMC_IRPT_DATA_DONE : Word := 0x00000002
abbrev EMMC_IRPT_WRITE_RDY : Word := 0x00000010
abbrev EMMC_IRPT_READ_RDY : Word := 0x00000020
abbrev EMMC_IRPT_CTO_ERR : Word := 0x00010000
abbrev EMMC_IRPT_DTO_ERR : Word := 0x00100000
abbrev C0_HCTL_DWITDH : Word := 0x00000002
abbrev C1_SRST_HC : Word := 0x01000000
abbrev C1_TOUNIT_MAX : Word := 0x000e0000
abbrev C1_CLK_EN : Word := 0x00000004
abbrev C1_CLK_STABLE : Word := 0x00000002
abbrev C1_CLK_INTLEN : Word := 0x00000001
abbrev HOST_SPEC_NUM : Word := 0x00ff0000
abbrev HOST_SPEC_V2 : BitVec 64 := 1
abbrev ACMD41_VOLTAGE : Word := 0x00ff8000
abbrev ACMD41_CMD_COMPLETE : Word := 0x80000000
abbrev ACMD41_ARG_HC : Word := 0x51ff8000
abbrev SD_STATE_IDENT : Word := 2
abbrev SD_STATE_STDBY : Word := 3
abbrev SD_STATE_TRAN : Word := 4
abbrev SD_STATE_DATA : Word := 5
abbrev MAIL_FULL : Word := 0x80000000
abbrev MAIL_EMPTY : Word := 0x40000000
abbrev GET_CLOCK_STATE : Word := 0x00030001
abbrev SET_CLOCK_STATE : Word := 0x00038001
abbrev GET_CLOCK_RATE : Word := 0x00030002
abbrev EMMC_CLOCK_ID : Word := 0x00000001

/-- One block of 512 bytes. -/
abbrev ONE_BLOCK : Word := 512 ||| (1 <<< 16)

variable (h : Host)

/-! ## Accesses -/

def mmio_read (r : Reg) : Attempt Sd Word := fun s =>
  let v := h.answer s.trace r
  (some v, { s with trace := .read r v :: s.trace })

def mmio_write (r : Reg) (v : Word) : Attempt Sd PUnit :=
  update fun s => { s with trace := .write r v :: s.trace }

/-- A field of `emmc_dev`. There is none through `NULL`. -/
def dev {α : Type} (field : EmmcDev → α) : Attempt Sd α := do
  let d ← gets Sd.emmc_dev
  need (d.map field)

def setDev (f : EmmcDev → EmmcDev) : Attempt Sd PUnit :=
  update fun s => { s with emmc_dev := s.emmc_dev.map f }

/-- A bit of a register is set. -/
def test (r : Reg) (mask : Word) : Attempt Sd Bool := do
  let v ← mmio_read h r
  pure (v &&& mask ≠ 0)

/-- `while ((mmio_read(r)) & mask)`, without a bound. -/
def waitWhile (cond : Attempt Sd Bool) : Attempt Sd PUnit :=
  rounds (fun _ => do
    let b ← cond
    pure (if b then .again PUnit.unit else .done PUnit.unit)) h.fuel PUnit.unit

/-! ## The mailbox -/

/-- `mbox[from..]`, one word after the other. -/
def mboxStore : Nat → List Word → Attempt Sd PUnit
  | _, [] => pure ⟨⟩
  | i, w :: ws => do
      mmio_write (.mbox i) w
      mboxStore (i + 1) ws

def mboxPrint : List Nat → Attempt Sd PUnit
  | [] => pure ⟨⟩
  | i :: is => do
      let _ ← mmio_read h (.mbox i)
      mboxPrint is

/-- A message to the firmware, and word 6 of its answer. The words 2, 3, 5, 6 and 7 are printed. -/
def mailboxCall (words : List Word) : Attempt Sd Word := do
  let r := (h.mailbox &&& ~~~0xF) ||| 0x8
  mboxStore 0 words
  waitWhile h (test h .MAIL_STAT MAIL_FULL)
  mmio_write .MAIL_WRITE r
  rounds (fun _ => do
    waitWhile h (test h .MAIL_STAT MAIL_EMPTY)
    let answer ← mmio_read h .MAIL_READ
    if r = answer then
      let code ← mmio_read h (.mbox 1)
      if code = 0x80000000 then
        mboxPrint h [2, 3, 5, 6, 7]
        let v ← mmio_read h (.mbox 6)
        pure (.done v)
      else pure (.again PUnit.unit)
    else pure (.again PUnit.unit)) h.fuel PUnit.unit

def sd_get_base_clock_hz : Attempt Sd Word :=
  mailboxCall h [4 * 8, 0, GET_CLOCK_RATE, 8, 4, EMMC_CLOCK_ID, 0]

def sd_get_clock_state : Attempt Sd Word :=
  mailboxCall h [4 * 8, 0, GET_CLOCK_STATE, 8, 4, EMMC_CLOCK_ID, 0]

def sd_set_clock_state (state : Word) : Attempt Sd Word :=
  mailboxCall h [4 * 8, 0, SET_CLOCK_STATE, 8, 8, EMMC_CLOCK_ID, state, 0]

/-! ## Commands -/

/-- The status is busy and no error is up. -/
def busy (mask : Word) : Attempt Sd Bool := do
  let b ← test h .EMMC_STATUS mask
  if b then
    let err ← test h .EMMC_INTERRUPT INT_ERROR_MASK
    pure !err
  else pure false

def sd_status (mask : Word) : Attempt Sd Int := do
  let cnt ← countdown (busy h mask) (pure ⟨⟩) 1000000
  if cnt ≤ 0 then pure E_NOT_READY
  else
    let err ← test h .EMMC_INTERRUPT INT_ERROR_MASK
    pure (if err then E_NOT_READY else E_NOERR)

def sd_int (mask : Word) : Attempt Sd Int := do
  let m := mask ||| INT_ERROR_MASK ||| (1 <<< 8)
  let pending := do
    let b ← test h .EMMC_INTERRUPT m
    pure !b
  let cnt ← countdown pending (pure ⟨⟩) 1000000
  let r ← mmio_read h .EMMC_INTERRUPT
  -- The controller's own time-outs count like that of the loop. The two reads are for a print.
  if cnt ≤ 0 ∨ r &&& EMMC_IRPT_CTO_ERR ≠ 0 ∨ r &&& EMMC_IRPT_DTO_ERR ≠ 0 then
    mmio_write .EMMC_INTERRUPT r
    mmio_write .EMMC_INTERRUPT mask
    let _ ← mmio_read h .EMMC_STATUS
    let _ ← mmio_read h .EMMC_RESP0
    pure E_TIMEOUT
  else if r &&& INT_ERROR_MASK ≠ 0 then
    mmio_write .EMMC_INTERRUPT r
    pure E_NOT_READY
  else
    mmio_write .EMMC_INTERRUPT mask
    pure E_NOERR

/-- `if (sd_status(mask)) while (sd_status(mask));` -/
def waitInhibit (mask : Word) : Attempt Sd PUnit := do
  let e ← sd_status h mask
  if e ≠ E_NOERR then
    waitWhile h do
      let e ← sd_status h mask
      pure (e ≠ E_NOERR)
  else pure ⟨⟩

/-- A command with data waits for the data lines as well. -/
def waitLines (code : Word) : Attempt Sd PUnit :=
  if code &&& (1 <<< 21) ≠ 0 then waitInhibit h EMMC_STATUS_DAT_INHIBIT else pure ⟨⟩

/-- What `sd_cmd` makes of the response. -/
def response (code arg r : Word) : Attempt Sd Word :=
  if code = CMD_GO_IDLE ∨ code = CMD_APP_CMD then pure 0
  else if code = CMD_APP_CMD ||| CMD_RSPNS_48 then pure (r &&& SR_APP_CMD)
  else if code = CMD_SEND_OP_COND then pure r
  else if code = CMD_SEND_IF_COND then
    pure (BitVec.ofInt 32 (if r = arg then E_NOERR else E_NOT_READY))
  else if code = CMD_ALL_SEND_CID then do
    let r1 ← mmio_read h .EMMC_RESP1
    let r2 ← mmio_read h .EMMC_RESP2
    let r3 ← mmio_read h .EMMC_RESP3
    pure (r ||| r1 ||| r2 ||| r3)
  else if code = CMD_SEND_REL_ADDR then do
    let e := ((r &&& 0x1fff) ||| ((r &&& 0x2000) <<< 6) ||| ((r &&& 0x4000) <<< 8) |||
      ((r &&& 0x8000) <<< 8)) &&& CMD_ERRORS_MASK
    setDev fun d => { d with last_error := e.toNat }
    pure r
  else pure r

/-- `sd_cmd` behind its first branch. -/
def issue (code arg : Word) : Attempt Sd Word := do
  waitInhibit h EMMC_STATUS_CMD_INHIBIT
  waitLines h code
  -- This overwrites the count that `sd_read` or `sd_write` has put there.
  mmio_write .EMMC_BLKSIZECNT ONE_BLOCK
  -- Pending interrupts are cleared.
  let i ← mmio_read h .EMMC_INTERRUPT
  mmio_write .EMMC_INTERRUPT i
  mmio_write .EMMC_ARG1 arg
  mmio_write .EMMC_CMDTM code
  let e ← sd_int h INT_CMD_DONE
  if e ≠ E_NOERR then
    -- A command that fails returns zero, like a response with no bit set.
    setDev fun d => { d with last_error := e }
    pure 0
  else
    let r ← mmio_read h .EMMC_RESP0
    let r1 ← mmio_read h .EMMC_RESP1
    let r2 ← mmio_read h .EMMC_RESP2
    let r3 ← mmio_read h .EMMC_RESP3
    setDev fun d => { d with last_r0 := r, last_r1 := r1, last_r2 := r2, last_r3 := r3 }
    response h code arg r

/-- `emmc_dev->card_rca << 16` -/
def rcaArg : Attempt Sd Word := do
  let rca ← dev EmmcDev.card_rca
  pure (rca.setWidth 32 <<< 16)

-- The call of `sd_cmd` in its first branch is for a code without `CMD_NEED_APP`.
def sd_cmd (code arg : Word) : Attempt Sd Word := do
  let _ ← dev EmmcDev.last_error
  setDev fun d => { d with last_error := E_NOERR }
  if code &&& CMD_NEED_APP ≠ 0 then
    -- `CMD55` announces an application command. Its result is not looked at.
    let rca ← dev EmmcDev.card_rca
    let app ← rcaArg
    setDev fun d => { d with last_error := E_NOERR }
    let _ ← issue h (CMD55 ||| if rca ≠ 0 then CMD_RSPNS_48 else 0) app
    issue h (code &&& ~~~CMD_NEED_APP) arg
  else issue h code arg

/-! ## The clock -/

/-- The clock's bits of `EMMC_CONTROL1` for the base clock `base` and the frequency `f`. -/
def clockBits (sd_hv : BitVec 64) (base f : Word) : Word :=
  let c := base / f
  -- The remainder is that of the quotient and not of the base clock.
  let c := if c % f ≠ 0 then c - 1 else c
  let x := c - 1
  let s : Word :=
    if x = 0 then 0
    else
      let (x, s) := if x &&& 0xffff0000 = 0 then (x <<< 16, (32 : Word) - 16) else (x, 32)
      -- The three lines behind the next one change only `x`, which nothing else reads.
      let s := if x &&& 0xff000000 = 0 then s - 8 else s
      let s := if s > 0 then s - 1 else s
      if s > 7 then 7 else s
  let d := if sd_hv > HOST_SPEC_V2 then c else 1 <<< s.toNat
  let d := if d ≤ 2 then 2 else d
  ((d &&& 0x0ff) <<< 8) ||| ((d &&& 0x300) >>> 2)

def sd_clk (f : Word) : Attempt Sd Int := do
  let base ← sd_get_base_clock_hz h
  let cnt ← countdown (test h .EMMC_STATUS (SR_CMD_INHIBIT ||| SR_DAT_INHIBIT)) (pure ⟨⟩) 100000
  if cnt ≤ 0 then pure E_TIMEOUT
  else
    -- The clock is off while the divisor changes.
    let _ ← sd_set_clock_state h 0
    let c1 ← mmio_read h .EMMC_CONTROL1
    mmio_write .EMMC_CONTROL1 (c1 &&& ~~~C1_CLK_EN)
    let sd_hv ← dev EmmcDev.sd_hv
    let c1 ← mmio_read h .EMMC_CONTROL1
    mmio_write .EMMC_CONTROL1 ((c1 &&& 0xffff003f) ||| clockBits sd_hv base f)
    let _ ← sd_set_clock_state h 1
    let c1 ← mmio_read h .EMMC_CONTROL1
    mmio_write .EMMC_CONTROL1 (c1 ||| C1_CLK_EN)
    let unstable := do
      let b ← test h .EMMC_CONTROL1 C1_CLK_STABLE
      pure !b
    let cnt ← countdown unstable (pure ⟨⟩) 10000
    if cnt ≤ 0 then pure E_NOT_READY
    else
      let _ ← sd_get_clock_state h
      pure E_NOERR

/-! ## Initialisation -/

def sd_gpio : Attempt Sd PUnit := do
  let r ← mmio_read h .GPIO_GPFSEL4
  mmio_write .GPIO_GPFSEL4 (r ||| (7 <<< (8 * 3)) ||| (7 <<< (9 * 3)))
  mmio_write .GPIO_GPPUD 2
  mmio_write .GPIO_GPPUDCLK1 (1 <<< 17)
  mmio_write .GPIO_GPPUD 0
  mmio_write .GPIO_GPPUDCLK1 0
  let r ← mmio_read h .GPIO_GPFSEL5
  mmio_write .GPIO_GPFSEL5
    (r ||| (7 <<< (0 * 3)) ||| (7 <<< (1 * 3)) ||| (7 <<< (2 * 3)) ||| (7 <<< (3 * 3)))
  mmio_write .GPIO_GPPUD 2
  mmio_write .GPIO_GPPUDCLK1 ((1 <<< 18) ||| (1 <<< 19) ||| (1 <<< 20) ||| (1 <<< 21))
  mmio_write .GPIO_GPPUD 0
  mmio_write .GPIO_GPPUDCLK1 0

/-- The card's state in a response. -/
def stateOf (r : Word) : Word := (r >>> 9) &&& 0xf

/-- `while (!(r & ACMD41_CMD_COMPLETE) && cnt--)`: the response and the counter after it. -/
def opCond : Nat → Word → Attempt Sd (Word × Int)
  | cnt, r =>
      if r &&& ACMD41_CMD_COMPLETE ≠ 0 then pure (r, cnt)
      else
        match cnt with
        | 0 => pure (r, -1)
        | cnt + 1 => do
            let r ← sd_cmd h (CMD41 ||| CMD_NEED_APP ||| 0x30) ACMD41_ARG_HC
            opCond cnt r

/-- `sd_init` up to the first clock. -/
def resetHost : Attempt Sd Int := do
  sd_gpio h
  let d ← mmio_read h .mode
  mmio_write .mode ((d &&& 0xfffffffc) ||| 0x2)
  let _ ← mmio_read h .mode
  mmio_write .EMMC_CONTROL0 0
  mmio_write .EMMC_CONTROL1 0
  mmio_write .EMMC_CONTROL2 0
  mmio_write .EMMC_CONTROL1 C1_SRST_HC
  let cnt ← countdown (test h .EMMC_CONTROL1 C1_SRST_HC) (pure ⟨⟩) 10000
  -- The counter is unsigned: when it is used up it is not zero but the largest number.
  if cnt = 0 then pure E_NOT_READY
  else
    let control0 ← mmio_read h .EMMC_CONTROL0
    mmio_write .EMMC_CONTROL0 (control0 ||| (0x0F <<< 8))
    let ver ← mmio_read h .EMMC_SLOTISR_VER
    setDev fun d => { d with sd_hv := ((ver &&& HOST_SPEC_NUM) >>> 16).setWidth 64 }
    let c1 ← mmio_read h .EMMC_CONTROL1
    mmio_write .EMMC_CONTROL1 (c1 ||| C1_CLK_INTLEN ||| C1_TOUNIT_MAX)
    let r ← sd_clk h 400000
    if r ≠ E_NOERR then pure r
    else
      mmio_write .EMMC_IRPT_MASK 0xffffffff
      mmio_write .EMMC_IRPT_EN 0xffffffff
      pure E_NOERR

/-- A command whose response has to name a state. -/
def reaches (code : Word) (state : Word) : Attempt Sd Bool := do
  let arg ← rcaArg
  let r ← sd_cmd h code arg
  pure (stateOf r = state)

/-- `sd_init` behind `CMD3`. -/
def selectCard : Attempt Sd Int := do
  let arg ← rcaArg
  let _ ← sd_cmd h CMD9 arg
  let arg ← rcaArg
  let _ ← sd_cmd h CMD10 arg
  let standby ← reaches h CMD13 SD_STATE_STDBY
  if standby = false then pure E_NOT_READY
  else
    let r ← sd_clk h 25000000
    if r ≠ E_NOERR then pure r
    else
      let arg ← rcaArg
      let _ ← sd_cmd h CMD7 arg
      let ready ← reaches h CMD13 SD_STATE_TRAN
      if ready = false then pure E_NOT_READY
      else
        let arg ← rcaArg
        let _ ← sd_cmd h CMD_SET_BUS_WIDTH (arg ||| 2)
        let control0 ← mmio_read h .EMMC_CONTROL0
        mmio_write .EMMC_CONTROL0 (control0 ||| C0_HCTL_DWITDH)
        setDev fun d => { d with base_clock := 25000000 }
        pure E_NOERR

/-- `sd_init` from `CMD0` to `CMD3`. -/
def identifyCard : Attempt Sd Int := do
  let _ ← sd_cmd h CMD0 0
  let _ ← sd_cmd h CMD_SEND_IF_COND 0x000001AA
  let _ ← sd_cmd h (CMD41 ||| CMD_NEED_APP) 0x40000000
  let e ← dev EmmcDev.last_error
  if e ≠ E_NOERR then pure e
  else
    let (r, cnt) ← opCond h 6 0
    -- A counter that is used up has wrapped around, and is not 0.
    if r &&& ACMD41_CMD_COMPLETE = 0 ∨ cnt = 0 then pure E_NOT_READY
    -- A card without the voltage ends the initialisation, as a success.
    else if r &&& ACMD41_VOLTAGE = 0 then pure E_NOERR
    else
      let _ ← sd_cmd h CMD2 0
      setDev fun d => { d with card_rca := 1 }
      let r ← sd_cmd h CMD3 (1 <<< 16)
      if stateOf r ≠ SD_STATE_IDENT then pure E_NOT_READY
      else
        setDev fun d => { d with card_rca := (r >>> 16).setWidth 16 }
        selectCard h

def sd_init : Attempt Sd Int := do
  update fun s => { s with emmc_dev := h.fresh s.trace }
  let d ← gets Sd.emmc_dev
  -- `new` has failed: `sd_init` leaves at `exit`, which returns `E_NOERR`.
  if d.isNone then pure E_NOERR
  else
    let r ← resetHost h
    if r ≠ E_NOERR then pure r else identifyCard h

/-! ## Transfers -/

/-- `switch (state)` -/
def leaveState (state : Word) : Attempt Sd Int :=
  -- Stand-by: the card is selected. Sending data: the transfer is stopped. Otherwise start again.
  if state = SD_STATE_STDBY then do
    let arg ← rcaArg
    let _ ← sd_cmd h CMD7 arg
    pure E_NOERR
  else if state = SD_STATE_DATA then do
    let _ ← sd_cmd h CMD12 0
    pure E_NOERR
  else if state = SD_STATE_TRAN then pure E_NOERR
  else sd_init h

/-- `ensure_data_mode` behind its first status. -/
def enterTransfer (state : Word) : Attempt Sd Int := do
  let e ← leaveState h state
  if e ≠ E_NOERR then pure e
  else if state ≠ SD_STATE_TRAN then
    let ready ← reaches h CMD13 SD_STATE_TRAN
    pure (if ready then E_NOERR else E_NOT_READY)
  else pure E_NOERR

/-- `if (emmc_dev->card_rca == 0) sd_init();` -/
def initOnce (rca : BitVec 16) : Attempt Sd Int :=
  if rca = 0 then sd_init h else pure E_NOERR

def ensure_data_mode : Attempt Sd Int := do
  let rca ← dev EmmcDev.card_rca
  let e ← initOnce h rca
  if e ≠ E_NOERR then pure e
  else
    let arg ← rcaArg
    let r ← sd_cmd h CMD13 arg
    enterTransfer h (stateOf r)

/-- `(td >= 500000) || (mmio_read(EMMC_INTERRUPT) & INT_ERROR_MASK)`. The counter `td` goes up to its
bound; here `cnt` is what is left of it. -/
def waitFailed (cnt : Int) : Attempt Sd Bool :=
  if cnt ≤ 0 then pure true else test h .EMMC_INTERRUPT INT_ERROR_MASK

def sd_wait_data : Attempt Sd Int := do
  let cnt ← countdown (busy h EMMC_STATUS_DAT_INHIBIT) (pure ⟨⟩) 500000
  let failed ← waitFailed h cnt
  if failed then
    let _ ← mmio_read h .EMMC_STATUS
    let _ ← mmio_read h .EMMC_INTERRUPT
    let _ ← mmio_read h .EMMC_RESP0
    pure E_NOT_READY
  else pure E_NOERR

/-- `if (num > 1) r = sd_cmd(CMD12, 0);` -/
def stopTransfer (num : Nat) : Attempt Sd PUnit :=
  if num > 1 then do
    let _ ← sd_cmd h CMD12 0
    pure ⟨⟩
  else pure ⟨⟩

/-- The data phase of a transfer: `while (c < num)` with a sector in each round. The counter is an
`int`; its overflow has no defined result. -/
def sectors (mask : Word) (num : Nat) (sector : Nat → Attempt Sd PUnit) : Nat → Attempt Sd Int :=
  rounds (fun c =>
    if c < num then do
      let r ← sd_int h mask
      if r ≠ E_NOERR then
        setDev fun d => { d with last_error := r }
        pure (.done E_DISKERR)
      else if c = 2147483647 then giveUp
      else
        sector c
        pure (.again (c + 1))
    else pure (.done E_NOERR)) (num + 1)

/-- Four bytes to memory. -/
def storeBytes (a : Nat) (v : Word) : Attempt Sd PUnit :=
  update fun s => { s with mem := written s.mem (stores (storeWord a v.toNat)) }

/-- The words of a sector, from `a` on, four bytes each. -/
def receive : Nat → Nat → Attempt Sd PUnit
  | 0, _ => pure ⟨⟩
  | n + 1, a => do
      let data ← mmio_read h .EMMC_DATA
      storeBytes a data
      receive n (a + 4)

/-- `sd_read`. Sector `c` goes to `buffer` advanced by 512 bytes a sector where `buffer` is aligned,
and by 512 words a sector otherwise. -/
def sd_read (buffer num : Nat) (lba : Word) : Attempt Sd Int := do
  let num := if num < 1 then 1 else num
  let r ← ensure_data_mode h
  if r ≠ E_NOERR then pure r
  else
    let busy ← sd_wait_data h
    if busy ≠ E_NOERR then pure E_TIMEOUT
    else
      mmio_write .EMMC_BLKSIZECNT (BitVec.ofNat 32 (num <<< 16 ||| 512))
      let _ ← sd_cmd h (if num = 1 then CMD17 else CMD18) lba
      let stride := if buffer % 4 = 0 then 512 else 4 * 512
      let e ← sectors h EMMC_IRPT_READ_RDY num (fun c => receive h 128 (buffer + stride * c)) 0
      if e ≠ E_NOERR then pure e
      else
        stopTransfer h num
        pure (i32 num)

/-- Words to `EMMC_DATA`. -/
def send : List Nat → Attempt Sd PUnit
  | [] => pure ⟨⟩
  | w :: ws => do
      mmio_write .EMMC_DATA (BitVec.ofNat 32 w)
      send ws

/-- `sd_write`. The words of a sector are those of `sendSector`: `buf` stays at `buffer`. -/
def sd_write (buffer num : Nat) (lba : Word) : Attempt Sd Int := do
  let num := if num < 1 then 1 else num
  let r ← ensure_data_mode h
  if r ≠ E_NOERR then pure r
  else
    let busy ← sd_wait_data h
    if busy ≠ E_NOERR then pure E_TIMEOUT
    else
      mmio_write .EMMC_BLKSIZECNT (BitVec.ofNat 32 (num <<< 16 ||| 512))
      let _ ← sd_cmd h (if num = 1 then CMD24 else CMD25) lba
      let m ← gets Sd.mem
      let e ← sectors h EMMC_IRPT_WRITE_RDY num
        (fun c => send (dataWords (sendSector m (buffer + 512 * c) buffer))) 0
      if e ≠ E_NOERR then pure e
      else
        let r ← sd_int h EMMC_IRPT_DATA_DONE
        if r ≠ E_NOERR then pure E_TIMEOUT
        else
          stopTransfer h num
          pure (num : Int)

/-! ## Calls -/

inductive SdCall where
  | init
  | read (buffer num : Nat) (lba : Word)
  | write (buffer num : Nat) (lba : Word)

def SdCall.run : SdCall → Attempt Sd Int
  | .init => sd_init h
  | .read buffer num lba => sd_read h buffer num lba
  | .write buffer num lba => sd_write h buffer num lba

/-- Calls one after the other, with what they return. -/
def session : List SdCall → Attempt Sd (List Int)
  | [] => pure []
  | c :: cs => do
      let r ← c.run h
      let rs ← session cs
      pure (r :: rs)

end Emmc
end Drivers
end EmbeddedOS
