import EmbeddedOS.Base.ByteMem

/-!
# `sd_write`

The transfer loop of `sd.c`. What the card answers (data mode, the waits, the interrupts) is a
parameter; what the driver does to it is the list of its commands and data words. The loop has a
byte path for an unaligned buffer and a word path for an aligned one.
-/

namespace EmbeddedOS
namespace Drivers

open Base Base.ByteMem

abbrev E_NOERR : Int := 0x0000
abbrev E_DISKERR : Int := 0x0202
abbrev E_TIMEOUT : Int := 0x0204

/-! ## The card -/

/-- Answers of the card to one transfer: error codes, `E_NOERR` where it accepts. -/
structure Card where
  ensureDataMode : Int
  waitData : Int
  /-- The write-ready interrupt of sector `c`. -/
  writeReady : Nat → Int
  dataDone : Int

/-- The card accepts the transfer. -/
structure Card.Accepts (card : Card) : Prop where
  ensureDataMode : card.ensureDataMode = E_NOERR
  waitData : card.waitData = E_NOERR
  writeReady : ∀ c, card.writeReady c = E_NOERR
  dataDone : card.dataDone = E_NOERR

inductive Command where
  | CMD12
  | CMD24
  | CMD25
  deriving DecidableEq

/-- What `sd_write` does to the controller. -/
inductive Event where
  | blockSizeCount (value : Nat)
  | command (cmd : Command) (arg : Nat)
  | data (word : Nat)
  deriving DecidableEq

/-- The words stored to `EMMC_DATA`. -/
def dataWords (events : List Event) : List Nat :=
  events.filterMap fun e => match e with
    | .data word => some word
    | .blockSizeCount _ | .command _ _ => none

/-! ## The loops -/

/-- The byte path: `data` is an `int` that four bytes are added to, `done` advances by four. -/
def sendBytes (m : ByteMem) (buffer : Nat) : Nat → Nat → List Event
  | 0, _ => []
  | n + 1, done =>
      let data := i32 ((m (buffer + done)).toNat : Int)
      let data := i32 (data + i32 ((m (buffer + (done + 1))).toNat * 2 ^ 8))
      let data := i32 (data + i32 ((m (buffer + (done + 2))).toNat * 2 ^ 16))
      let data := i32 (data + i32 ((m (buffer + (done + 3))).toNat * 2 ^ 24))
      .data (u32 data) :: sendBytes m buffer n (done + 4)

/-- The word path: `buf[done++]`. -/
def sendWords (m : ByteMem) (buf : Nat) : Nat → Nat → List Event
  | 0, _ => []
  | n + 1, done => .data (load m (buf + 4 * done) 4) :: sendWords m buf n (done + 1)

/-- One sector: `while (done < 512)` in steps of four bytes, or `while (done < 128)`. -/
def sendSector (m : ByteMem) (buffer buf : Nat) : List Event :=
  if buffer % 4 ≠ 0 then sendBytes m buffer 128 0 else sendWords m buf 128 0

/-- `while (c < num)`, from sector `c` on, with return code and events. The counter is an `int`;
its overflow has no defined result. Only `buffer` is advanced. -/
def sendSectors (card : Card) (m : ByteMem) (buf num : Nat) :
    Nat → Nat → Nat → Option (Int × List Event)
  | 0, _, _ => some (E_NOERR, [])
  | n + 1, c, buffer =>
      if c < num then
        if card.writeReady c ≠ E_NOERR then some (E_DISKERR, [])
        else if c = 2147483647 then none
        else do
          let (ret, rest) ← sendSectors card m buf num n (c + 1) (buffer + 512)
          some (ret, sendSector m buffer buf ++ rest)
      else some (E_NOERR, [])

/-- Return value and events of `sd_write`. -/
def sdWrite (card : Card) (m : ByteMem) (buffer num lba : Nat) : Option (Int × List Event) := do
  let num := if num < 1 then 1 else num
  if card.ensureDataMode ≠ E_NOERR then some (card.ensureDataMode, [])
  else if card.waitData ≠ E_NOERR then some (E_TIMEOUT, [])
  else
    let cmd := if num = 1 then Command.CMD24 else .CMD25
    let start := [Event.blockSizeCount (u32 ((num * 2 ^ 16 ||| 512 : Nat) : Int)),
      .command cmd lba]
    let buf := buffer
    let (r, events) ← sendSectors card m buf num (num + 1) 0 buffer
    if r ≠ E_NOERR then some (r, start ++ events)
    else if card.dataDone ≠ E_NOERR then some (E_TIMEOUT, start ++ events)
    else
      let stop := if num > 1 then [Event.command .CMD12 0] else []
      some (num, start ++ events ++ stop)

/-! ## What the card should get -/

/-- Word `i` of a buffer, little-endian. -/
def bufferWord (m : ByteMem) (buffer i : Nat) : Nat :=
  load m (buffer + 4 * i) 4

/-- The buffer's words, 128 for each sector. -/
def bufferWords (m : ByteMem) (buffer num : Nat) : List Nat :=
  (List.range (128 * num)).map (bufferWord m buffer)

/-- The 128 words of the sector at `a`. -/
def sectorWords (m : ByteMem) (a : Nat) : List Nat :=
  (List.range 128).map fun i => load m (a + 4 * i) 4

/-! ## One sector -/

theorem load_four (m : ByteMem) (a : Nat) :
    load m a 4 = (m a).toNat + 256 * (m (a + 1)).toNat + 65536 * (m (a + 2)).toNat
      + 16777216 * (m (a + 3)).toNat := by
  have h2 : a + 1 + 1 = a + 2 := rfl
  have h3 : a + 1 + 1 + 1 = a + 3 := rfl
  simp only [load, h2, h3]
  omega

/-- A word determines its four bytes. -/
theorem load_four_inj {m : ByteMem} {a b : Nat} (h : load m a 4 = load m b 4) :
    ∀ i, i < 4 → m (a + i) = m (b + i) := by
  rw [load_four, load_four] at h
  have hlt : ∀ x, (m x).toNat < 256 := fun x => (m x).toNat_lt
  have ha0 := hlt a
  have ha1 := hlt (a + 1)
  have ha2 := hlt (a + 2)
  have ha3 := hlt (a + 3)
  have hb0 := hlt b
  have hb1 := hlt (b + 1)
  have hb2 := hlt (b + 2)
  have hb3 := hlt (b + 3)
  intro i hi
  refine UInt8.toNat_inj.mp ?_
  match i, hi with
  | 0, _ => simpa using (by omega : (m a).toNat = (m b).toNat)
  | 1, _ => omega
  | 2, _ => omega
  | 3, _ => omega

/-- The `int` sum of the four shifted bytes is the little-endian word. -/
theorem shifted_sum {b0 b1 b2 b3 : Nat} (h0 : b0 < 256) (h1 : b1 < 256) (h2 : b2 < 256)
    (h3 : b3 < 256) :
    u32 (i32 (i32 (i32 (i32 (b0 : Int) + i32 ((b1 : Int) * 2 ^ 8)) + i32 ((b2 : Int) * 2 ^ 16))
      + i32 ((b3 : Int) * 2 ^ 24))) = b0 + 256 * b1 + 65536 * b2 + 16777216 * b3 := by
  have hlow : i32 (i32 (i32 (b0 : Int) + i32 ((b1 : Int) * 2 ^ 8)) + i32 ((b2 : Int) * 2 ^ 16))
      = b0 + 256 * b1 + 65536 * b2 := by
    rw [i32_of_range (x := (b0 : Int)) (by omega) (by omega),
      i32_of_range (x := (b1 : Int) * 2 ^ 8) (by omega) (by omega),
      i32_of_range (x := (b2 : Int) * 2 ^ 16) (by omega) (by omega),
      i32_of_range (x := (b0 : Int) + (b1 : Int) * 2 ^ 8) (by omega) (by omega),
      i32_of_range (by omega) (by omega)]
    omega
  rw [hlow, i32_eq, i32_eq]
  unfold u32
  omega

theorem dataWords_cons (w : Nat) (events : List Event) :
    dataWords (.data w :: events) = w :: dataWords events := rfl

theorem dataWords_append (xs ys : List Event) :
    dataWords (xs ++ ys) = dataWords xs ++ dataWords ys :=
  List.filterMap_append

theorem sendBytes_words (m : ByteMem) (buffer n done : Nat) :
    dataWords (sendBytes m buffer n done)
      = (List.range n).map fun i => load m (buffer + done + 4 * i) 4 := by
  induction n generalizing done with
  | zero => rfl
  | succ n ih =>
      have hlt : ∀ x, (m x).toNat < 256 := fun x => (m x).toNat_lt
      rw [sendBytes, dataWords_cons, ih, List.range_succ_eq_map, List.map_cons, List.map_map]
      congr 1
      · rw [shifted_sum (hlt _) (hlt _) (hlt _) (hlt _), load_four]
        simp [Nat.add_assoc]
      · refine List.map_congr_left ?_
        intro i _
        simp only [Function.comp_apply]
        congr 1
        omega

theorem sendWords_words (m : ByteMem) (buf n done : Nat) :
    dataWords (sendWords m buf n done)
      = (List.range n).map fun i => load m (buf + 4 * done + 4 * i) 4 := by
  induction n generalizing done with
  | zero => rfl
  | succ n ih =>
      rw [sendWords, dataWords_cons, ih, List.range_succ_eq_map, List.map_cons, List.map_map]
      congr 1
      refine List.map_congr_left ?_
      intro i _
      simp only [Function.comp_apply]
      congr 1
      omega

/-- The byte path reads the sector at `buffer`, the word path the one at `buf`. -/
theorem sendSector_words (m : ByteMem) (buffer buf : Nat) :
    dataWords (sendSector m buffer buf) = sectorWords m (if buffer % 4 ≠ 0 then buffer else buf) := by
  unfold sendSector sectorWords
  by_cases h : buffer % 4 ≠ 0
  · rw [if_pos h, if_pos h, sendBytes_words, Nat.add_zero]
  · rw [if_neg h, if_neg h, sendWords_words, Nat.mul_zero, Nat.add_zero]

/-! ## All sectors -/

/-- Where sector `k` is read. -/
def source (buffer k : Nat) : Nat :=
  if buffer % 4 ≠ 0 then buffer + 512 * k else buffer

theorem sendSectors_spec {card : Card} (haccept : card.Accepts) (m : ByteMem) (buffer : Nat)
    {num : Nat} (hnum : num < 2147483648) (n c : Nat) (hn : num < n + c) (hc : c ≤ num) :
    ∃ events, sendSectors card m buffer num n c (buffer + 512 * c) = some (E_NOERR, events) ∧
      dataWords events = (List.range' c (num - c)).flatMap fun k => sectorWords m (source buffer k) := by
  induction n generalizing c with
  | zero => omega
  | succ n ih =>
      by_cases hlt : c < num
      · rcases ih (c + 1) (by omega) hlt with ⟨events, hrun, hwords⟩
        have hsplit : num - c = (num - (c + 1)) + 1 := by omega
        have hmod : (buffer + 512 * c) % 4 = buffer % 4 := by omega
        refine ⟨sendSector m (buffer + 512 * c) buffer ++ events, ?_, ?_⟩
        · rw [sendSectors, if_pos hlt, haccept.writeReady, if_neg (by simp), if_neg (by omega),
            show buffer + 512 * c + 512 = buffer + 512 * (c + 1) by omega, hrun]
          rfl
        · rw [dataWords_append, sendSector_words, hwords, hsplit, List.range'_succ,
            List.flatMap_cons, hmod]
          rfl
      · refine ⟨[], ?_, ?_⟩
        · rw [sendSectors, if_neg hlt]
        · rw [show num - c = 0 by omega]
          rfl

/-- From 2^31 sectors on the sector counter overflows. -/
theorem sendSectors_overflow {card : Card} (haccept : card.Accepts) (m : ByteMem)
    (buf : Nat) {num : Nat} (hnum : 2147483648 ≤ num) (n c buffer : Nat) (hn : 2147483647 < n + c)
    (hc : c ≤ 2147483647) : sendSectors card m buf num n c buffer = none := by
  induction n generalizing c buffer with
  | zero => omega
  | succ n ih =>
      rw [sendSectors, if_pos (by omega), haccept.writeReady, if_neg (by simp)]
      by_cases hlast : c = 2147483647
      · rw [if_pos hlast]
      · rw [if_neg hlast, ih (c + 1) _ (by omega) (by omega)]
        rfl

/-- An accepted transfer: the words are those of the sectors that the loop reads. -/
theorem sdWrite_words {card : Card} (haccept : card.Accepts) (m : ByteMem) (buffer : Nat)
    {num : Nat} (lba : Nat) (hone : 1 ≤ num) (hnum : num < 2147483648) :
    ∃ events, sdWrite card m buffer num lba = some ((num : Int), events) ∧
      dataWords events = (List.range num).flatMap fun k => sectorWords m (source buffer k) := by
  rcases sendSectors_spec haccept m buffer hnum (num + 1) 0 (by omega) (Nat.zero_le _) with
    ⟨events, hrun, hwords⟩
  simp only [Nat.mul_zero, Nat.add_zero] at hrun
  rw [Nat.sub_zero, ← List.range_eq_range'] at hwords
  have hnone : ¬ num < 1 := Nat.not_lt.mpr hone
  refine ⟨[Event.blockSizeCount (u32 ((num * 2 ^ 16 ||| 512 : Nat) : Int)),
    .command (if num = 1 then Command.CMD24 else .CMD25) lba] ++ events
      ++ (if num > 1 then [Event.command .CMD12 0] else []), ?_, ?_⟩
  · rw [sdWrite]
    simp only [if_neg hnone, haccept.ensureDataMode, haccept.waitData, haccept.dataDone, hrun,
      ne_eq, not_true_eq_false, if_false, Option.bind_eq_bind, Option.bind_some]
  · have hstop : dataWords (if num > 1 then [Event.command .CMD12 0] else []) = [] := by
      by_cases h : num > 1
      · rw [if_pos h]
        rfl
      · rw [if_neg h]
        rfl
    rw [dataWords_append, dataWords_append, hstop, List.append_nil, hwords]
    rfl

theorem sdWrite_overflow {card : Card} (haccept : card.Accepts) (m : ByteMem) (buffer : Nat)
    {num : Nat} (lba : Nat) (hnum : 2147483648 ≤ num) : sdWrite card m buffer num lba = none := by
  have hnone : ¬ num < 1 := by omega
  have hrun := sendSectors_overflow haccept m buffer hnum (num + 1) 0 buffer (by omega)
    (Nat.zero_le _)
  rw [sdWrite]
  simp only [if_neg hnone, haccept.ensureDataMode, haccept.waitData, hrun, ne_eq,
    not_true_eq_false, if_false, Option.bind_eq_bind, Option.bind_none]

/-! ## The buffer's words -/

theorem sectorWords_length (m : ByteMem) (a : Nat) : (sectorWords m a).length = 128 := by
  simp [sectorWords]

/-- Two sectors have the same words exactly if they have the same bytes. -/
theorem sectorWords_eq_iff (m : ByteMem) (a b : Nat) :
    sectorWords m a = sectorWords m b ↔ ∀ i, i < 512 → m (a + i) = m (b + i) := by
  unfold sectorWords
  rw [List.map_inj_left]
  constructor
  · intro h i hi
    have hword := h (i / 4) (List.mem_range.mpr (by omega))
    have hbyte := load_four_inj hword (i % 4) (Nat.mod_lt i (by decide))
    rwa [Nat.add_assoc, Nat.add_assoc, Nat.div_add_mod] at hbyte
  · intro h i hi
    refine load_shift 4 ?_
    intro j hj
    have hlt := List.mem_range.mp hi
    have hbyte := h (4 * i + j) (by omega)
    rwa [← Nat.add_assoc, ← Nat.add_assoc] at hbyte

theorem bufferWords_succ (m : ByteMem) (buffer num : Nat) :
    bufferWords m buffer (num + 1) = bufferWords m buffer num
      ++ sectorWords m (buffer + 512 * num) := by
  unfold bufferWords sectorWords
  rw [Nat.mul_succ, List.range_add, List.map_append, List.map_map]
  congr 1
  refine List.map_congr_left ?_
  intro i _
  simp only [Function.comp_apply, bufferWord]
  congr 1
  omega

/-- Sectors read elsewhere give the buffer's words exactly if each of them has its words. -/
theorem flatMap_eq_bufferWords (m : ByteMem) (buffer num : Nat) (src : Nat → Nat) :
    ((List.range num).flatMap fun k => sectorWords m (src k)) = bufferWords m buffer num ↔
      ∀ k, k < num → sectorWords m (src k) = sectorWords m (buffer + 512 * k) := by
  induction num with
  | zero => simp [bufferWords]
  | succ num ih =>
      rw [List.range_succ, List.flatMap_append, List.flatMap_singleton, bufferWords_succ]
      constructor
      · intro h k hk
        have hlen : (sectorWords m (src num)).length
            = (sectorWords m (buffer + 512 * num)).length := by
          rw [sectorWords_length, sectorWords_length]
        rcases List.append_inj' h hlen with ⟨hinit, hlast⟩
        rcases Nat.lt_succ_iff_lt_or_eq.mp hk with hk | rfl
        · exact ih.mp hinit k hk
        · exact hlast
      · intro h
        rw [ih.mpr fun k hk => h k (Nat.lt_succ_of_lt hk), h num (Nat.lt_succ_self num)]

/-- An accepted transfer sends the buffer exactly if every sector is read with its own words. -/
theorem sdWrite_sends_iff_sectors {card : Card} (haccept : card.Accepts) (m : ByteMem)
    (buffer : Nat) {num : Nat} (lba : Nat) (hone : 1 ≤ num) (hnum : num < 2147483648) :
    (∃ events, sdWrite card m buffer num lba = some ((num : Int), events) ∧
        dataWords events = bufferWords m buffer num) ↔
      ∀ k, k < num → sectorWords m (source buffer k) = sectorWords m (buffer + 512 * k) := by
  rcases sdWrite_words haccept m buffer lba hone hnum with ⟨events, hrun, hwords⟩
  rw [← flatMap_eq_bufferWords, ← hwords]
  constructor
  · rintro ⟨events', hrun', hwords'⟩
    cases hrun.symm.trans hrun'
    exact hwords'
  · intro h
    exact ⟨events, hrun, h⟩

/-- An accepted transfer sends exactly the buffer if and only if the sector counter does not
overflow and the buffer is unaligned or repeats its first sector. -/
theorem sdWrite_sends_iff (card : Card) (m : ByteMem) (buffer num lba : Nat)
    (haccept : card.Accepts) (hone : 1 ≤ num) :
    (∃ events, sdWrite card m buffer num lba = some ((num : Int), events) ∧
        dataWords events = bufferWords m buffer num) ↔
      num < 2147483648 ∧ (buffer % 4 ≠ 0 ∨
        ∀ k, k < num → ∀ i, i < 512 → m (buffer + 512 * k + i) = m (buffer + i)) := by
  by_cases hnum : num < 2147483648
  · rw [sdWrite_sends_iff_sectors haccept m buffer lba hone hnum, and_iff_right hnum]
    by_cases halign : buffer % 4 ≠ 0
    · simp [source, halign]
    · simp only [source, halign, if_false, false_or, sectorWords_eq_iff]
      constructor
      · intro h k hk i hi
        exact (h k hk i hi).symm
      · intro h k hk i hi
        exact (h k hk i hi).symm
  · rw [sdWrite_overflow haccept m buffer lba (Nat.not_lt.mp hnum)]
    simp [hnum]

/-- A card that accepts every transfer. -/
def acceptingCard : Card :=
  { ensureDataMode := E_NOERR, waitData := E_NOERR, writeReady := fun _ => E_NOERR,
    dataDone := E_NOERR }

theorem acceptingCard_accepts : acceptingCard.Accepts := ⟨rfl, rfl, fun _ => rfl, rfl⟩

/-- One sector from an aligned buffer. -/
theorem sdWrite_sends_one :
    ∃ events, sdWrite acceptingCard (fun a => UInt8.ofNat a) 4096 1 7 = some (1, events) ∧
      dataWords events = bufferWords (fun a => UInt8.ofNat a) 4096 1 := by
  have hiff := sdWrite_sends_iff acceptingCard (fun a => UInt8.ofNat a) 4096 1 7
    acceptingCard_accepts (Nat.le_refl 1)
  refine hiff.mpr ⟨by decide, .inr ?_⟩
  intro k hk i _
  rw [Nat.lt_one_iff.mp hk, Nat.mul_zero, Nat.add_zero]

/-- Two sectors from an aligned buffer, the first all zero and the second all one: the first is
sent twice. -/
theorem sdWrite_repeats :
    ¬ ∃ events, sdWrite acceptingCard (fun a => if a < 4608 then 0 else 1) 4096 2 7
        = some (((2 : Nat) : Int), events) ∧
      dataWords events = bufferWords (fun a => if a < 4608 then 0 else 1) 4096 2 := by
  rw [sdWrite_sends_iff_sectors acceptingCard_accepts _ _ _ (by decide) (by decide)]
  intro h
  have hsecond := h 1 (by decide)
  rw [sectorWords_eq_iff] at hsecond
  have hbyte := hsecond 0 (by decide)
  simp [source] at hbyte

end Drivers
end EmbeddedOS
