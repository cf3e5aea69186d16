import EmbeddedOS.Drivers.SdWrite

/-!
# `sd_read`

The receiving loop of `sd.c`. Here it is the aligned buffer that takes the byte path. The word path
advances its pointer by as many elements as the byte path advances its own by bytes.
-/

namespace EmbeddedOS
namespace Drivers

open Base Base.ByteMem

/-! ## The card -/

/-- Answers of the card to one transfer, as in `Card`, and the words that successive loads from
`EMMC_DATA` return. -/
structure ReadCard where
  ensureDataMode : Int
  waitData : Int
  /-- The read-ready interrupt of sector `c`. -/
  readReady : Nat → Int
  data : Nat → UInt32

/-- The card delivers every sector. -/
structure ReadCard.Delivers (card : ReadCard) : Prop where
  ensureDataMode : card.ensureDataMode = E_NOERR
  waitData : card.waitData = E_NOERR
  readReady : ∀ c, card.readReady c = E_NOERR

inductive ReadCommand where
  | CMD12
  | CMD17
  | CMD18
  deriving DecidableEq

/-- What `sd_read` does to the controller and to memory. -/
inductive ReadEvent where
  | blockSizeCount (value : Nat)
  | command (cmd : ReadCommand) (arg : Nat)
  | store (address : Nat) (byte : UInt8)
  deriving DecidableEq

/-- The bytes stored to memory. -/
def stores (events : List ReadEvent) : List (Nat × UInt8) :=
  events.filterMap fun e => match e with
    | .store address byte => some (address, byte)
    | .blockSizeCount _ | .command _ _ => none

/-- Memory after some stores. -/
def written (m : ByteMem) (ws : List (Nat × UInt8)) : ByteMem :=
  ws.foldl (fun m w x => if x = w.1 then w.2 else m x) m

/-! ## The loops -/

/-- `x & 0xff` -/
def lowByte (x : Int) : UInt8 := UInt8.ofNat (x % 256).toNat

/-- The byte path, with the words from `i` on: `data` is an `int`, `done` advances by four. -/
def receiveBytes (card : ReadCard) (buffer : Nat) : Nat → Nat → Nat → List ReadEvent
  | 0, _, _ => []
  | n + 1, done, i =>
      let data := i32 ((card.data i).toNat : Int)
      .store (buffer + done) (lowByte (data >>> (0 : Nat))) ::
      .store (buffer + (done + 1)) (lowByte (data >>> (8 : Nat))) ::
      .store (buffer + (done + 2)) (lowByte (data >>> (16 : Nat))) ::
      .store (buffer + (done + 3)) (lowByte (data >>> (24 : Nat))) ::
      receiveBytes card buffer n (done + 4) (i + 1)

/-- One word store to `a`, little-endian. -/
def storeWord (a v : Nat) : List ReadEvent :=
  (List.range 4).map fun j => .store (a + j) (byteOf v j)

/-- The word path: `buf[done++]`. -/
def receiveWords (card : ReadCard) (buf : Nat) : Nat → Nat → Nat → List ReadEvent
  | 0, _, _ => []
  | n + 1, done, i =>
      storeWord (buf + 4 * done) (card.data i).toNat ++ receiveWords card buf n (done + 1) (i + 1)

/-- One sector: `while (done < 512)` in steps of four bytes, or `while (done < 128)`. -/
def receiveSector (card : ReadCard) (buffer buf i : Nat) : List ReadEvent :=
  if buffer % 4 = 0 then receiveBytes card buffer 128 0 i else receiveWords card buf 128 0 i

/-- `while (c < num)`, from sector `c` on, with return code and events. The counter is an `int`;
its overflow has no defined result. `buffer` points to bytes and `buf` to words of four bytes; each
is advanced by 512 on its own path. -/
def receiveSectors (card : ReadCard) (num : Nat) :
    Nat → Nat → Nat → Nat → Option (Int × List ReadEvent)
  | 0, _, _, _ => some (E_NOERR, [])
  | n + 1, c, buffer, buf =>
      if c < num then
        if card.readReady c ≠ E_NOERR then some (E_DISKERR, [])
        else if c = 2147483647 then none
        else do
          let (ret, rest) ←
            if buffer % 4 = 0 then receiveSectors card num n (c + 1) (buffer + 512) buf
            else receiveSectors card num n (c + 1) buffer (buf + 4 * 512)
          some (ret, receiveSector card buffer buf (128 * c) ++ rest)
      else some (E_NOERR, [])

/-- Return value and events of `sd_read`. -/
def sdRead (card : ReadCard) (buffer num lba : Nat) : Option (Int × List ReadEvent) := do
  let num := if num < 1 then 1 else num
  if card.ensureDataMode ≠ E_NOERR then some (card.ensureDataMode, [])
  else if card.waitData ≠ E_NOERR then some (E_TIMEOUT, [])
  else
    let buf := buffer
    let cmd := if num = 1 then ReadCommand.CMD17 else .CMD18
    let start := [ReadEvent.blockSizeCount (u32 ((num * 2 ^ 16 ||| 512 : Nat) : Int)),
      .command cmd lba]
    let (r, events) ← receiveSectors card num (num + 1) 0 buffer buf
    if r ≠ E_NOERR then some (r, start ++ events)
    else
      let stop := if num > 1 then [ReadEvent.command .CMD12 0] else []
      some (num, start ++ events ++ stop)

/-! ## What the buffer should get -/

/-- Byte `x` of what the card delivers, each word little-endian. -/
def delivered (card : ReadCard) (x : Nat) : UInt8 := byteOf (card.data (x / 4)).toNat (x % 4)

/-- `sd_read` returns `num`, the buffer holds the `num` sectors, and nothing else is written. -/
def FillsBuffer (card : ReadCard) (m : ByteMem) (buffer num : Nat)
    (r : Option (Int × List ReadEvent)) : Prop :=
  ∃ events, r = some ((num : Int), events) ∧
    (∀ k, k < num → ∀ i, i < 512 →
      written m (stores events) (buffer + 512 * k + i) = delivered card (512 * k + i)) ∧
    ∀ w ∈ stores events, buffer ≤ w.1 ∧ w.1 < buffer + 512 * num

/-! ## Stores -/

theorem stores_cons (a : Nat) (b : UInt8) (events : List ReadEvent) :
    stores (.store a b :: events) = (a, b) :: stores events := rfl

theorem stores_append (xs ys : List ReadEvent) : stores (xs ++ ys) = stores xs ++ stores ys :=
  List.filterMap_append

/-- `n` bytes at `a`. -/
def storeRange (a n : Nat) (f : Nat → UInt8) : List (Nat × UInt8) :=
  (List.range n).map fun j => (a + j, f j)

theorem storeRange_add (a n n' : Nat) (f : Nat → UInt8) :
    storeRange a (n + n') f = storeRange a n f ++ storeRange (a + n) n' fun j => f (n + j) := by
  unfold storeRange
  rw [List.range_add, List.map_append, List.map_map]
  congr 1
  refine List.map_congr_left ?_
  intro j _
  simp only [Function.comp_apply, Nat.add_assoc]

theorem mem_storeRange {a n : Nat} {f : Nat → UInt8} {w : Nat × UInt8} :
    w ∈ storeRange a n f ↔ ∃ j, j < n ∧ (a + j, f j) = w := by
  simp [storeRange]

theorem written_storeRange (m : ByteMem) (a n : Nat) (f : Nat → UInt8) (x : Nat) :
    written m (storeRange a n f) x = if a ≤ x ∧ x < a + n then f (x - a) else m x := by
  induction n with
  | zero =>
      rw [if_neg (by omega)]
      rfl
  | succ n ih =>
      have hsplit : written m (storeRange a (n + 1) f) x =
          if x = a + n then f n else written m (storeRange a n f) x := by
        simp [written, storeRange, List.range_succ, List.foldl_append]
      rw [hsplit, ih]
      by_cases hx : x = a + n
      · rw [if_pos hx, if_pos (by omega), hx, Nat.add_sub_cancel_left]
      · rw [if_neg hx]
        by_cases hin : a ≤ x ∧ x < a + n
        · rw [if_pos hin, if_pos (by omega)]
        · rw [if_neg hin, if_neg (by omega)]

/-! ## One sector -/

/-- Byte `j` of an `int` is that of its 32 bits. -/
theorem lowByte_shift (v : Nat) {j : Nat} (hj : j < 4) :
    lowByte (i32 (v : Int) >>> (8 * j)) = byteOf v j := by
  have hdiv : i32 (v : Int) >>> (8 * j) = i32 v / 256 ^ j := by
    rw [Int.shiftRight_eq_div_pow, Nat.pow_mul]
    norm_cast
  have hmod : ((i32 (v : Int) / 256 ^ j) % 256).toNat = v / 256 ^ j % 256 := by
    -- The sign bits are above the four bytes.
    rw [i32_eq]
    match j, hj with
    | 0, _ => omega
    | 1, _ => omega
    | 2, _ => omega
    | 3, _ => omega
  rw [lowByte, hdiv, hmod, byteOf]
  refine UInt8.toNat_inj.mp ?_
  simp

/-- The four bytes of word `i`, at `a`. -/
theorem wordStores_eq (card : ReadCard) (a i : Nat) :
    storeRange a 4 (fun j => delivered card (4 * i + j)) =
      (List.range 4).map fun j => (a + j, byteOf (card.data i).toNat j) := by
  refine List.map_congr_left ?_
  intro j hj
  have hlt : j < 4 := List.mem_range.mp hj
  have hdiv : (4 * i + j) / 4 = i := by omega
  have hmod : (4 * i + j) % 4 = j := by omega
  simp only [delivered, hdiv, hmod]

/-- The bytes from the next word on. -/
theorem delivered_succ (card : ReadCard) (i : Nat) :
    (fun j => delivered card (4 * (i + 1) + j)) = fun j => delivered card (4 * i + (4 + j)) := by
  funext j
  congr 1
  omega

theorem receiveBytes_stores (card : ReadCard) (buffer n done i : Nat) :
    stores (receiveBytes card buffer n done i) =
      storeRange (buffer + done) (4 * n) fun j => delivered card (4 * i + j) := by
  induction n generalizing done i with
  | zero => rfl
  | succ n ih =>
      -- The four shifts of a pass are the four bytes of its word.
      have h0 := lowByte_shift (card.data i).toNat (j := 0) (by decide)
      have h1 := lowByte_shift (card.data i).toNat (j := 1) (by decide)
      have h2 := lowByte_shift (card.data i).toNat (j := 2) (by decide)
      have h3 := lowByte_shift (card.data i).toNat (j := 3) (by decide)
      simp only [Nat.reduceMul] at h0 h1 h2 h3
      rw [show 4 * (n + 1) = 4 + 4 * n by omega, storeRange_add, wordStores_eq]
      simp only [receiveBytes, stores_cons, ih, h0, h1, h2, h3]
      rw [show buffer + (done + 4) = buffer + done + 4 by omega, delivered_succ]
      rfl

theorem receiveWords_stores (card : ReadCard) (buf n done i : Nat) :
    stores (receiveWords card buf n done i) =
      storeRange (buf + 4 * done) (4 * n) fun j => delivered card (4 * i + j) := by
  induction n generalizing done i with
  | zero => rfl
  | succ n ih =>
      rw [show 4 * (n + 1) = 4 + 4 * n by omega, storeRange_add, wordStores_eq, receiveWords,
        stores_append, ih, show buf + 4 * (done + 1) = buf + 4 * done + 4 by omega, delivered_succ]
      rfl

/-- Both paths store the same 512 bytes, the byte path at `buffer` and the word path at `buf`. -/
theorem receiveSector_stores (card : ReadCard) (buffer buf c : Nat) :
    stores (receiveSector card buffer buf (128 * c)) =
      storeRange (if buffer % 4 = 0 then buffer else buf) 512
        fun j => delivered card (512 * c + j) := by
  have hindex : (fun j => delivered card (4 * (128 * c) + j)) =
      fun j => delivered card (512 * c + j) := by
    funext j
    congr 1
    omega
  unfold receiveSector
  by_cases h : buffer % 4 = 0
  · rw [if_pos h, if_pos h, receiveBytes_stores, Nat.add_zero, hindex]
  · rw [if_neg h, if_neg h, receiveWords_stores, Nat.mul_zero, Nat.add_zero, hindex]

/-! ## All sectors -/

/-- Bytes from the start of one sector to that of the next. -/
def stride (buffer : Nat) : Nat := if buffer % 4 = 0 then 512 else 4 * 512

/-- The stores of the sectors from `c` on, `n` of them. -/
def sectorStores (card : ReadCard) (buffer c n : Nat) : List (Nat × UInt8) :=
  (List.range' c n).flatMap fun k =>
    storeRange (buffer + stride buffer * k) 512 fun j => delivered card (512 * k + j)

theorem receiveSectors_spec {card : ReadCard} (hdeliver : card.Delivers) (buffer : Nat) {num : Nat}
    (hnum : num < 2147483648) (n c : Nat) (hn : num < n + c) (hc : c ≤ num) :
    ∃ events, receiveSectors card num n c
        (if buffer % 4 = 0 then buffer + stride buffer * c else buffer)
        (if buffer % 4 = 0 then buffer else buffer + stride buffer * c) = some (E_NOERR, events) ∧
      stores events = sectorStores card buffer c (num - c) := by
  induction n generalizing c with
  | zero => omega
  | succ n ih =>
      by_cases hlt : c < num
      · rcases ih (c + 1) (by omega) hlt with ⟨events, hrun, hstores⟩
        have hsplit : num - c = (num - (c + 1)) + 1 := by omega
        have hrest : sectorStores card buffer c (num - c) =
            storeRange (buffer + stride buffer * c) 512 (fun j => delivered card (512 * c + j)) ++
              stores events := by
          rw [hstores, hsplit, sectorStores, List.range'_succ, List.flatMap_cons]
          rfl
        -- Each sector is tested anew; advancing does not change how the buffer is aligned.
        by_cases halign : buffer % 4 = 0
        · have hstride : stride buffer = 512 := if_pos halign
          have hmod : (buffer + 512 * c) % 4 = 0 := by omega
          simp only [halign, if_true, hstride] at hrun hrest ⊢
          refine ⟨receiveSector card (buffer + 512 * c) buffer (128 * c) ++ events, ?_, ?_⟩
          · rw [receiveSectors, if_pos hlt, hdeliver.readReady, if_neg (by simp), if_neg (by omega),
              if_pos hmod, show buffer + 512 * c + 512 = buffer + 512 * (c + 1) by omega, hrun]
            rfl
          · rw [stores_append, receiveSector_stores, if_pos hmod, hrest]
        -- `buf` points to words and is advanced by 512 of them.
        · have hstride : stride buffer = 4 * 512 := if_neg halign
          simp only [halign, if_false, hstride] at hrun hrest ⊢
          refine ⟨receiveSector card buffer (buffer + 4 * 512 * c) (128 * c) ++ events, ?_, ?_⟩
          · rw [receiveSectors, if_pos hlt, hdeliver.readReady, if_neg (by simp), if_neg (by omega),
              if_neg halign, show buffer + 4 * 512 * c + 4 * 512 = buffer + 4 * 512 * (c + 1) by omega,
              hrun]
            rfl
          · rw [stores_append, receiveSector_stores, if_neg halign, hrest]
      · refine ⟨[], ?_, ?_⟩
        · rw [receiveSectors, if_neg hlt]
        · rw [show num - c = 0 by omega]
          rfl

/-- From 2^31 sectors on the sector counter overflows. -/
theorem receiveSectors_overflow {card : ReadCard} (hdeliver : card.Delivers) {num : Nat}
    (hnum : 2147483648 ≤ num) (n c buffer buf : Nat) (hn : 2147483647 < n + c)
    (hc : c ≤ 2147483647) : receiveSectors card num n c buffer buf = none := by
  induction n generalizing c buffer buf with
  | zero => omega
  | succ n ih =>
      rw [receiveSectors, if_pos (by omega), hdeliver.readReady, if_neg (by simp)]
      by_cases hlast : c = 2147483647
      -- Here `c++` has no defined result.
      · rw [if_pos hlast]
      · have hrest : ∀ buffer buf, receiveSectors card num n (c + 1) buffer buf = none :=
          fun buffer buf => ih (c + 1) buffer buf (by omega) (by omega)
        rw [if_neg hlast]
        split <;> rw [hrest] <;> rfl

/-- A transfer that the card delivers: the stores are those of the sectors, `stride` apart. -/
theorem sdRead_stores {card : ReadCard} (hdeliver : card.Delivers) (buffer : Nat) {num : Nat}
    (lba : Nat) (hone : 1 ≤ num) (hnum : num < 2147483648) :
    ∃ events, sdRead card buffer num lba = some ((num : Int), events) ∧
      stores events = sectorStores card buffer 0 num := by
  rcases receiveSectors_spec hdeliver buffer hnum (num + 1) 0 (by omega) (Nat.zero_le _) with
    ⟨events, hrun, hstores⟩
  simp only [Nat.mul_zero, Nat.add_zero, ite_self] at hrun
  rw [Nat.sub_zero] at hstores
  have hnone : ¬ num < 1 := Nat.not_lt.mpr hone
  -- The commands before and behind the sectors store nothing.
  refine ⟨[ReadEvent.blockSizeCount (u32 ((num * 2 ^ 16 ||| 512 : Nat) : Int)),
    .command (if num = 1 then ReadCommand.CMD17 else .CMD18) lba] ++ events
      ++ (if num > 1 then [ReadEvent.command .CMD12 0] else []), ?_, ?_⟩
  · rw [sdRead]
    simp only [if_neg hnone, hdeliver.ensureDataMode, hdeliver.waitData, hrun, ne_eq,
      not_true_eq_false, if_false, Option.bind_eq_bind, Option.bind_some]
  · have hstop : stores (if num > 1 then [ReadEvent.command .CMD12 0] else []) = [] := by
      by_cases h : num > 1
      · rw [if_pos h]
        rfl
      · rw [if_neg h]
        rfl
    rw [stores_append, stores_append, hstop, List.append_nil, hstores]
    rfl

theorem sdRead_overflow {card : ReadCard} (hdeliver : card.Delivers) (buffer : Nat) {num : Nat}
    (lba : Nat) (hnum : 2147483648 ≤ num) : sdRead card buffer num lba = none := by
  have hnone : ¬ num < 1 := by omega
  have hrun := receiveSectors_overflow hdeliver hnum (num + 1) 0 buffer buffer (by omega)
    (Nat.zero_le _)
  rw [sdRead]
  simp only [if_neg hnone, hdeliver.ensureDataMode, hdeliver.waitData, hrun, ne_eq,
    not_true_eq_false, if_false, Option.bind_eq_bind, Option.bind_none]

/-! ## Where the sectors go -/

/-- Sectors one behind the other are one range. -/
theorem sectorStores_dense (card : ReadCard) {buffer num : Nat}
    (hdense : stride buffer = 512 ∨ num = 1) :
    sectorStores card buffer 0 num = storeRange buffer (512 * num) (delivered card) := by
  have hone : ∀ s, (List.range' 0 1).flatMap (fun k => storeRange (buffer + s * k) 512
      fun j => delivered card (512 * k + j)) = storeRange buffer 512 (delivered card) := by
    intro s
    simp [List.range'_succ]
  rcases hdense with hstride | rfl
  · unfold sectorStores
    rw [hstride]
    induction num with
    | zero => rfl
    | succ num ih =>
        rw [List.range'_concat, List.flatMap_append, ih, List.flatMap_singleton, Nat.mul_succ,
          storeRange_add, Nat.zero_add, Nat.one_mul]
  · exact hone (stride buffer)

theorem fillsBuffer_of_dense {card : ReadCard} (hdeliver : card.Delivers) (m : ByteMem)
    {buffer num : Nat} (lba : Nat) (hone : 1 ≤ num) (hnum : num < 2147483648)
    (hdense : stride buffer = 512 ∨ num = 1) :
    FillsBuffer card m buffer num (sdRead card buffer num lba) := by
  rcases sdRead_stores hdeliver buffer lba hone hnum with ⟨events, hrun, hstores⟩
  rw [sectorStores_dense card hdense] at hstores
  refine ⟨events, hrun, ?_, ?_⟩
  · intro k hk i hi
    rw [hstores, written_storeRange, if_pos (by omega)]
    congr 1
    omega
  · intro w hw
    rw [hstores, mem_storeRange] at hw
    rcases hw with ⟨j, hj, rfl⟩
    exact ⟨Nat.le_add_right _ _, Nat.add_lt_add_left hj _⟩

/-- With the stride of the word path the last of several sectors is past the buffer. -/
theorem not_fillsBuffer_of_sparse {card : ReadCard} (hdeliver : card.Delivers) (m : ByteMem)
    {buffer num : Nat} (lba : Nat) (hunaligned : buffer % 4 ≠ 0) (htwo : 2 ≤ num)
    (hnum : num < 2147483648) : ¬ FillsBuffer card m buffer num (sdRead card buffer num lba) := by
  rintro ⟨events, hrun, -, hinside⟩
  rcases sdRead_stores hdeliver buffer lba (by omega) hnum with ⟨events', hrun', hstores⟩
  cases hrun.symm.trans hrun'
  have hstride : stride buffer = 4 * 512 := if_neg hunaligned
  -- The first byte of the last sector is the witness.
  have hlast : (buffer + stride buffer * (num - 1) + 0, delivered card (512 * (num - 1) + 0)) ∈
      stores events := by
    rw [hstores, sectorStores, List.mem_flatMap]
    exact ⟨num - 1, by simp; omega, mem_storeRange.mpr ⟨0, by decide, rfl⟩⟩
  have hend := (hinside _ hlast).2
  rw [hstride] at hend
  simp only at hend
  omega

/-- **A read fills the buffer** exactly if the sector counter does not overflow and the buffer is
aligned or takes one sector. -/
theorem sdRead_fills_iff (card : ReadCard) (m : ByteMem) (buffer num lba : Nat)
    (hdeliver : card.Delivers) (hone : 1 ≤ num) :
    FillsBuffer card m buffer num (sdRead card buffer num lba) ↔
      num < 2147483648 ∧ (buffer % 4 = 0 ∨ num = 1) := by
  by_cases hnum : num < 2147483648
  · rw [and_iff_right hnum]
    constructor
    · intro hfills
      by_contra hsparse
      rw [not_or] at hsparse
      exact not_fillsBuffer_of_sparse hdeliver m lba hsparse.1 (by omega) hnum hfills
    · rintro (halign | hsingle)
      · exact fillsBuffer_of_dense hdeliver m lba hone hnum (.inl (if_pos halign))
      · exact fillsBuffer_of_dense hdeliver m lba hone hnum (.inr hsingle)
  · rw [sdRead_overflow hdeliver buffer lba (Nat.not_lt.mp hnum)]
    simp [FillsBuffer, hnum]

/-- A card that delivers zeros. -/
def zeroCard : ReadCard :=
  { ensureDataMode := E_NOERR, waitData := E_NOERR, readReady := fun _ => E_NOERR,
    data := fun _ => 0 }

theorem zeroCard_delivers : zeroCard.Delivers := ⟨rfl, rfl, fun _ => rfl⟩

/-- A disk block to an aligned buffer. -/
theorem sdRead_fills_block :
    FillsBuffer zeroCard (fun _ => 1) 4096 8 (sdRead zeroCard 4096 8 7) :=
  (sdRead_fills_iff zeroCard (fun _ => 1) 4096 8 7 zeroCard_delivers (by decide)).mpr
    ⟨by decide, .inl (by decide)⟩

/-- Two sectors to an unaligned buffer. -/
theorem sdRead_skips :
    ¬ FillsBuffer zeroCard (fun _ => 1) 4097 2 (sdRead zeroCard 4097 2 7) :=
  not_fillsBuffer_of_sparse zeroCard_delivers _ 7 (by decide) (by decide) (by decide)

end Drivers
end EmbeddedOS
