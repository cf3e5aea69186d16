import EmbeddedOS.Base.MachineInt

/-!
# The message formats of `message.h` and `getMessage`

A message is written to the stream the way the format comments of `message.h` describe it. Two
copies of `getMessage` read the stream back: the module (`modules/queue`) and the working copy
(`tests/qtest`). A read past the last byte of the stream has no result.
-/

namespace EmbeddedOS
namespace Queue

/-! ## The documented formats -/

/-- The sum of the extra length headers. -/
def extraLength (extra : List UInt8) : Nat :=
  (extra.map UInt8.toNat).sum

/-- What follows the addressing of a message that carries a payload: the 4-bit initial size,
up to three extra length headers, and as many payload bytes as these add up to. -/
structure Body where
  initial : Fin 16
  extra : List UInt8
  payload : List UInt8
  extra_le : extra.length ≤ 3
  payload_length : payload.length = initial + extraLength extra

/-- The four message kinds. The two unused bits of a trigger message's third header may hold
anything. -/
inductive Message where
  | triggerMessage (node : UInt8) (unused : Fin 4) (number : Fin 64) (body : Body)
  | demand (node : UInt8) (body : Body)
  | lowPriority (node : UInt8) (body : Body)
  | trigger (node : UInt8) (number : Fin 64)

/-- First header: two bits of kind, two bits counting extra headers, four bits of size. -/
def firstHeader (kind : Nat) (b : Body) : UInt8 :=
  UInt8.ofNat (64 * kind + 16 * b.extra.length + b.initial)

namespace Message

def encode : Message → List UInt8
  | triggerMessage node unused number b =>
      firstHeader 0 b :: node :: UInt8.ofNat (64 * unused + number) :: (b.extra ++ b.payload)
  | demand node b => firstHeader 1 b :: node :: (b.extra ++ b.payload)
  | lowPriority node b => firstHeader 2 b :: node :: (b.extra ++ b.payload)
  | trigger node number => [UInt8.ofNat (192 + number), node]

end Message

/-! ## The operations a message is handed to -/

/-- A call of a queue operation with its arguments. A payload stands for the block that the
message pointer addresses; `demandInsert` is called with `tb = 0`. -/
inductive Call where
  | triggerInsert (node trigger : UInt8) (message : List UInt8)
  | demandInsert (node : UInt8) (message : List UInt8)
  | lowprioInsert (node : UInt8) (message : List UInt8)
  | triggerExecute (node trigger : UInt8)
  deriving DecidableEq

/-- The trigger number of a call is one of the 64. -/
def Call.Valid : Call → Prop
  | .triggerInsert _ trigger _ | .triggerExecute _ trigger => trigger.toNat < 64
  | .demandInsert _ _ | .lowprioInsert _ _ => True

instance : DecidablePred Call.Valid := fun call =>
  match call with
  | .triggerInsert _ trigger _ | .triggerExecute _ trigger =>
      inferInstanceAs (Decidable (trigger.toNat < 64))
  | .demandInsert _ _ | .lowprioInsert _ _ => inferInstanceAs (Decidable True)

/-- The operation that serves a message, with the node number, the 6-bit trigger number and the
payload. -/
def Message.call : Message → Call
  | .triggerMessage node _ number b => .triggerInsert node (UInt8.ofNat number) b.payload
  | .demand node b => .demandInsert node b.payload
  | .lowPriority node b => .lowprioInsert node b.payload
  | .trigger node number => .triggerExecute node (UInt8.ofNat number)

/-! ## The byte source -/

/-- `rawGetHeader`: one byte. -/
def rawGetHeader : List UInt8 → Option (UInt8 × List UInt8)
  | [] => none
  | b :: rest => some (b, rest)

/-- `rawGetBytes`: the next `n` bytes. -/
def rawGetBytes (s : List UInt8) (n : Nat) : Option (List UInt8 × List UInt8) :=
  if n ≤ s.length then some (s.take n, s.drop n) else none

/-- `for (i = 0; i < n; i++) messageSize += extraHeaders[i];` in a `uint8_t`. -/
def addHeaders (messageSize : UInt8) (extra : List UInt8) : UInt8 :=
  extra.foldl (· + ·) messageSize

/-- The branch of `getMessage` that reads a payload: the extra length headers, then as many bytes
as `messageSize` says. -/
def readPayload (byteOne nExtraHeaders : UInt8) (s : List UInt8) :
    Option (List UInt8 × List UInt8) := do
  let (extraHeaders, s) ← rawGetBytes s nExtraHeaders.toNat
  let messageSize := addHeaders (byteOne &&& 0x0F) extraHeaders
  rawGetBytes s messageSize.toNat

/-! ## The working copy -/

namespace WorkingCopy

/-- `getMessage` of `tests/qtest/queue.c`: the call made and the bytes that are left. -/
def getMessage (s : List UInt8) : Option (List Call × List UInt8) := do
  let (byteOne, s) ← rawGetHeader s
  let (nodeNumber, s) ← rawGetHeader s
  let mType := (byteOne &&& 0xC0) >>> 6
  let (triggerNumber, s) ← if mType = 0 then rawGetHeader s else some (0, s)
  if mType = 3 then
    some ([.triggerExecute nodeNumber (byteOne &&& 0x3F)], s)
  else
    let nExtraHeaders := (byteOne &&& 0x30) >>> 4
    let (message, s) ← readPayload byteOne nExtraHeaders s
    if mType = 0 then some ([.triggerInsert nodeNumber triggerNumber message], s)
    else if mType = 1 then some ([.demandInsert nodeNumber message], s)
    else some ([.lowprioInsert nodeNumber message], s)

end WorkingCopy

/-! ## The module -/

namespace Module

/-- `getMessage` of `modules/queue/queue.c`. The masks are written with `&&`, so that `mType` is
the truth value of the first byte, and the number of extra headers is the mask itself. The
uninitialised `triggerNumber` is `indeterminate`. -/
def getMessage (indeterminate : UInt8) (s : List UInt8) : Option (List Call × List UInt8) := do
  let (byteOne, s) ← rawGetHeader s
  let (nodeNumber, s) ← rawGetHeader s
  let mType : Nat := if byteOne ≠ 0 then 1 else 0
  let (triggerNumber, s) ← if mType = 0 then rawGetHeader s else some (indeterminate, s)
  if mType = 3 then
    some ([.triggerExecute nodeNumber (byteOne &&& 0x3F)], s)
  else
    let nExtraHeaders : UInt8 := 0x30
    let (message, s) ← readPayload byteOne nExtraHeaders s
    -- The payload branch already inserts a trigger message, whatever the kind.
    let first := Call.triggerInsert nodeNumber triggerNumber message
    match mType with
    | 0 => some ([first, .triggerInsert nodeNumber triggerNumber message], s)
    | 1 => some ([first, .demandInsert nodeNumber message], s)
    | 2 => some ([first, .lowprioInsert nodeNumber message], s)
    | _ => some ([first], s)

end Module

/-! ## Decoding a stream -/

/-- `n` calls of `getMessage` on a stream: the calls each makes and the bytes left over. -/
def decode (get : List UInt8 → Option (List Call × List UInt8)) :
    Nat → List UInt8 → Option (List (List Call) × List UInt8)
  | 0, s => some ([], s)
  | n + 1, s => do
      let (calls, s) ← get s
      let (rest, s) ← decode get n s
      some (calls :: rest, s)

/-- The stream of a list of messages. -/
def stream (ms : List Message) : List UInt8 :=
  ms.flatMap Message.encode

/-- What framing promises of a list of messages: `get` takes exactly one message off the stream
and makes exactly the call that serves it, and `n` calls decode a stream of `n` messages. -/
structure Frames (get : List UInt8 → Option (List Call × List UInt8)) (ms : List Message) :
    Prop where
  each : ∀ x ∈ ms, ∀ rest, get (x.encode ++ rest) = some ([x.call], rest)
  all : ∀ rest, decode get ms.length (stream ms ++ rest) = some (ms.map fun x => [x.call], rest)

/-- One message after the other: framing of each message gives framing of the stream. -/
theorem Frames.of_each {get : List UInt8 → Option (List Call × List UInt8)} {ms : List Message}
    (h : ∀ x ∈ ms, ∀ rest, get (x.encode ++ rest) = some ([x.call], rest)) : Frames get ms := by
  refine ⟨h, ?_⟩
  induction ms with
  | nil =>
      intro rest
      rfl
  | cons x ms ih =>
      intro rest
      have hhead := h x List.mem_cons_self (stream ms ++ rest)
      have htail := ih (fun y hy => h y (List.mem_cons_of_mem x hy)) rest
      have happ : stream (x :: ms) ++ rest = x.encode ++ (stream ms ++ rest) := by
        simp [stream]
      simp [decode, happ, hhead, htail]

/-! ## Header bits -/

theorem kind_bits : ∀ k e : Fin 4, ∀ i : Fin 16,
    (UInt8.ofNat (64 * k + 16 * e + i) &&& 0xC0) >>> 6 = UInt8.ofNat k := by
  decide +kernel

theorem extra_bits : ∀ k e : Fin 4, ∀ i : Fin 16,
    ((UInt8.ofNat (64 * k + 16 * e + i) &&& 0x30) >>> 4).toNat = e := by
  decide +kernel

theorem initial_bits : ∀ k e : Fin 4, ∀ i : Fin 16,
    UInt8.ofNat (64 * k + 16 * e + i) &&& 0x0F = UInt8.ofNat i := by
  decide +kernel

theorem trigger_bits : ∀ t : Fin 64,
    (UInt8.ofNat (192 + t) &&& 0xC0) >>> 6 = 3 ∧
      UInt8.ofNat (192 + t) &&& 0x3F = UInt8.ofNat t := by
  decide +kernel

namespace Body

variable (b : Body) {k : Nat}

theorem firstHeader_kind (hk : k < 4) : (firstHeader k b &&& 0xC0) >>> 6 = UInt8.ofNat k :=
  kind_bits ⟨k, hk⟩ ⟨b.extra.length, Nat.lt_succ_of_le b.extra_le⟩ b.initial

theorem firstHeader_extra (hk : k < 4) :
    ((firstHeader k b &&& 0x30) >>> 4).toNat = b.extra.length :=
  extra_bits ⟨k, hk⟩ ⟨b.extra.length, Nat.lt_succ_of_le b.extra_le⟩ b.initial

theorem firstHeader_initial (hk : k < 4) : firstHeader k b &&& 0x0F = UInt8.ofNat b.initial :=
  initial_bits ⟨k, hk⟩ ⟨b.extra.length, Nat.lt_succ_of_le b.extra_le⟩ b.initial

end Body

/-- The accumulator holds the length modulo 256. -/
theorem addHeaders_toNat (size : UInt8) (extra : List UInt8) :
    (addHeaders size extra).toNat = (size.toNat + extraLength extra) % 256 := by
  induction extra generalizing size with
  | nil => simp [addHeaders, extraLength, Nat.mod_eq_of_lt size.toNat_lt]
  | cons x extra ih =>
      have hstep : addHeaders size (x :: extra) = addHeaders (size + x) extra := rfl
      rw [hstep, ih]
      simp [extraLength, Nat.add_assoc]

theorem Body.addHeaders_eq (b : Body) :
    (addHeaders (UInt8.ofNat b.initial) b.extra).toNat = b.payload.length % 256 := by
  simp [addHeaders_toNat, b.payload_length]

theorem rawGetBytes_append {xs rest : List UInt8} {n : Nat} (h : n = xs.length) :
    rawGetBytes (xs ++ rest) n = some (xs, rest) := by
  subst h
  simp [rawGetBytes]

/-- A short count leaves the rest of the payload on the stream. -/
theorem rawGetBytes_short {xs rest : List UInt8} {n : Nat} (h : n ≤ xs.length) :
    rawGetBytes (xs ++ rest) n = some (xs.take n, xs.drop n ++ rest) := by
  have hle : n ≤ xs.length + rest.length := Nat.le_add_right_of_le h
  simp [rawGetBytes, hle, List.take_append_of_le_length h, List.drop_append_of_le_length h]

/-! ## The working copy -/

namespace WorkingCopy

/-- What a message's payload loses in the 8-bit accumulator. -/
def clipped (b : Body) : List UInt8 :=
  b.payload.take (b.payload.length % 256)

/-- The call the working copy makes for a message: the third header is passed on whole. -/
def callOf : Message → Call
  | .triggerMessage node unused number b =>
      .triggerInsert node (UInt8.ofNat (64 * unused + number)) (clipped b)
  | .demand node b => .demandInsert node (clipped b)
  | .lowPriority node b => .lowprioInsert node (clipped b)
  | .trigger node number => .triggerExecute node (UInt8.ofNat number)

/-- The payload bytes that stay on the stream. -/
def leftover : Message → List UInt8
  | .triggerMessage _ _ _ b | .demand _ b | .lowPriority _ b =>
      b.payload.drop (b.payload.length % 256)
  | .trigger _ _ => []

theorem readPayload_spec (b : Body) {k : Nat} (hk : k < 4) (rest : List UInt8) :
    readPayload (firstHeader k b) ((firstHeader k b &&& 0x30) >>> 4) (b.extra ++ b.payload ++ rest)
      = some (clipped b, b.payload.drop (b.payload.length % 256) ++ rest) := by
  have hextra : rawGetBytes (b.extra ++ (b.payload ++ rest))
      ((firstHeader k b &&& 0x30) >>> 4).toNat = some (b.extra, b.payload ++ rest) :=
    rawGetBytes_append (b.firstHeader_extra hk)
  have hshort : rawGetBytes (b.payload ++ rest)
      (addHeaders (firstHeader k b &&& 0x0F) b.extra).toNat
        = some (clipped b, b.payload.drop (b.payload.length % 256) ++ rest) := by
    rw [b.firstHeader_initial hk, b.addHeaders_eq]
    exact rawGetBytes_short (Nat.mod_le _ _)
  rw [readPayload, List.append_assoc, hextra]
  exact hshort

theorem getMessage_spec (x : Message) (rest : List UInt8) :
    getMessage (x.encode ++ rest) = some ([callOf x], leftover x ++ rest) := by
  cases x with
  | triggerMessage node unused number b =>
      have hkind : (firstHeader 0 b &&& 0xC0) >>> 6 = 0 := b.firstHeader_kind (by decide)
      have hread := readPayload_spec b (show 0 < 4 by decide) rest
      simp only [Message.encode, List.cons_append, getMessage, rawGetHeader, Option.bind_eq_bind,
        Option.bind_some, hkind, hread]
      rfl
  | demand node b =>
      have hkind : (firstHeader 1 b &&& 0xC0) >>> 6 = 1 := b.firstHeader_kind (by decide)
      have hread := readPayload_spec b (show 1 < 4 by decide) rest
      simp only [Message.encode, List.cons_append, getMessage, rawGetHeader, Option.bind_eq_bind,
        Option.bind_some, hkind, hread]
      rfl
  | lowPriority node b =>
      have hkind : (firstHeader 2 b &&& 0xC0) >>> 6 = 2 := b.firstHeader_kind (by decide)
      have hread := readPayload_spec b (show 2 < 4 by decide) rest
      simp only [Message.encode, List.cons_append, getMessage, rawGetHeader, Option.bind_eq_bind,
        Option.bind_some, hkind, hread]
      rfl
  | trigger node number =>
      have hbits := trigger_bits number
      simp only [Message.encode, List.cons_append, List.nil_append, getMessage, rawGetHeader,
        Option.bind_eq_bind, Option.bind_some, hbits.1, hbits.2]
      rfl

theorem clipped_eq_iff (b : Body) : clipped b = b.payload ↔ b.payload.length < 256 := by
  constructor
  · intro h
    have hlen := congrArg List.length h
    rw [clipped, List.length_take] at hlen
    omega
  · intro h
    rw [clipped, Nat.mod_eq_of_lt h, List.take_length]

theorem number_eq_iff : ∀ u : Fin 4, ∀ n : Fin 64,
    UInt8.ofNat (64 * u + n) = UInt8.ofNat n ↔ u = 0 := by
  decide +kernel

end WorkingCopy

/-- The messages an 8-bit length and an unmasked third header carry unharmed. -/
def Message.Narrow : Message → Prop
  | .triggerMessage _ unused _ b => unused = 0 ∧ b.payload.length < 256
  | .demand _ b | .lowPriority _ b => b.payload.length < 256
  | .trigger _ _ => True

namespace WorkingCopy

theorem callOf_eq_iff (x : Message) : callOf x = x.call ↔ x.Narrow := by
  cases x with
  | triggerMessage node unused number b =>
      simp only [callOf, Message.call, Call.triggerInsert.injEq, true_and, Message.Narrow]
      exact and_congr (number_eq_iff unused number) (clipped_eq_iff b)
  | demand node b => simp [callOf, Message.call, Message.Narrow, clipped_eq_iff]
  | lowPriority node b => simp [callOf, Message.call, Message.Narrow, clipped_eq_iff]
  | trigger node number => simp [callOf, Message.call, Message.Narrow]

theorem leftover_eq_nil {x : Message} (h : x.Narrow) : leftover x = [] := by
  have hdrop : ∀ b : Body, b.payload.length < 256 →
      b.payload.drop (b.payload.length % 256) = [] := by
    intro b hb
    rw [Nat.mod_eq_of_lt hb, List.drop_length]
  cases x with
  | triggerMessage node unused number b => exact hdrop b h.2
  | demand node b => exact hdrop b h
  | lowPriority node b => exact hdrop b h
  | trigger node number => rfl

theorem frames_iff (ms : List Message) : Frames getMessage ms ↔ ∀ x ∈ ms, x.Narrow := by
  constructor
  · intro h x hx
    have heq := h.each x hx []
    rw [getMessage_spec] at heq
    have hcall : callOf x = x.call := by
      have := congrArg (Option.map Prod.fst) heq
      simpa using this
    exact (callOf_eq_iff x).mp hcall
  · intro h
    refine Frames.of_each ?_
    intro x hx rest
    rw [getMessage_spec, (callOf_eq_iff x).mpr (h x hx), leftover_eq_nil (h x hx)]
    rfl

end WorkingCopy

/-! ## The module -/

namespace Module

/-- A payload is inserted twice: whatever the stream, a call of `getMessage` that returns has
made two calls. -/
theorem getMessage_two_calls {u : UInt8} {s rest : List UInt8} {calls : List Call}
    (h : getMessage u s = some (calls, rest)) : calls.length = 2 := by
  cases s with
  | nil => simp [getMessage, rawGetHeader] at h
  | cons byteOne s =>
      cases s with
      | nil => simp [getMessage, rawGetHeader] at h
      | cons node s =>
          by_cases hzero : byteOne = 0
          · cases s with
            | nil => simp [getMessage, rawGetHeader, hzero] at h
            | cons number s =>
                simp [getMessage, rawGetHeader, hzero, Option.bind_eq_some_iff] at h
                rcases h with ⟨_, _, hcalls⟩
                rw [← hcalls]
                rfl
          · simp [getMessage, rawGetHeader, hzero, Option.bind_eq_some_iff] at h
            rcases h with ⟨_, _, hcalls⟩
            rw [← hcalls]
            rfl

theorem frames_iff (u : UInt8) (ms : List Message) : Frames (getMessage u) ms ↔ ms = [] := by
  constructor
  · intro h
    cases ms with
    | nil => rfl
    | cons x ms =>
        have hone := getMessage_two_calls (h.each x List.mem_cons_self [])
        simp at hone
  · intro h
    subst h
    refine Frames.of_each ?_
    intro x hx
    simp at hx

end Module

/-! ## Framing -/

/-- The module frames no stream but the empty one; the working copy frames exactly the streams
whose messages are shorter than 256 bytes and leave the unused bits of the third header zero. -/
theorem getMessage_frames_iff (indeterminate : UInt8) (ms : List Message) :
    (Frames (Module.getMessage indeterminate) ms ↔ ms = []) ∧
      (Frames WorkingCopy.getMessage ms ↔ ∀ x ∈ ms, x.Narrow) :=
  ⟨Module.frames_iff indeterminate ms, WorkingCopy.frames_iff ms⟩

/-- The demand message of `headers.c` for node 4. -/
def demandN4 : Message :=
  .demand 4 { initial := 3, extra := [], payload := [0x4E, 0x34, 0x44],
              extra_le := by decide, payload_length := rfl }

/-- A demand message of 256 bytes: 1 by the first header and 255 by an extra one. -/
def demand256 : Message :=
  .demand 4 { initial := 1, extra := [255], payload := List.replicate 256 0,
              extra_le := by decide, payload_length := List.length_replicate }

theorem getMessage_loses_frames :
    ¬ Frames (Module.getMessage 0) [demandN4] ∧ ¬ Frames WorkingCopy.getMessage [demand256] := by
  constructor
  · intro h
    have := (Module.frames_iff 0 [demandN4]).mp h
    simp at this
  · intro h
    have hsmall := (WorkingCopy.frames_iff [demand256]).mp h demand256 List.mem_cons_self
    have hlen : (List.replicate 256 (0 : UInt8)).length < 256 := hsmall
    rw [List.length_replicate] at hlen
    exact absurd hlen (by decide)

end Queue
end EmbeddedOS
