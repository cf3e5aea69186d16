import EmbeddedOS.Memory.PageRuns

/-!
# First fit

`find_free` goes through its zone from the start and counts free chunks at each of them. It sees
every free run but one: the run that ends where the zone ends. Nothing keeps the count inside the
zone, so a long request may also count past the end of the map. When the search fails, `reserve`
takes the failure value for a chunk.
-/

namespace EmbeddedOS
namespace Memory

open Base

variable {map : PageMap} {n i j left start stop first : Nat}

/-- `test_used` finds chunk `c` free. -/
def Free (map : PageMap) (c : Nat) : Prop := testUsed map c = some false

/-- Chunks `i` to `i + n - 1` are free. -/
def FreeRun (map : PageMap) (i n : Nat) : Prop := ∀ x, x < n → Free map (i + x)

/-- First fit: the least chunk of the zone at which a free run of `n` chunks starts that ends in the
zone, or `-1` if there is none. -/
def IsFirstFit (map : PageMap) (n start stop r : Nat) : Prop :=
  (start ≤ r ∧ r + n ≤ stop ∧ FreeRun map r n ∧
    ∀ i, start ≤ i → i < r → ¬ FreeRun map i n) ∨
  (r = NOT_FOUND ∧ ∀ i, start ≤ i → i + n ≤ stop → ¬ FreeRun map i n)

/-- The only free run of `n` chunks in the zone ends where the zone ends. -/
def OnlyAtEnd (map : PageMap) (n start stop : Nat) : Prop :=
  start + n ≤ stop ∧ FreeRun map (stop - n) n ∧
    ∀ i, start ≤ i → i + n < stop → ¬ FreeRun map i n

/-- From some chunk of the zone on everything is free, and `n` chunks from there are more than the
map has. -/
def RunsOff (map : PageMap) (n start stop : Nat) : Prop :=
  ∃ i, start ≤ i ∧ i < stop ∧ MAP_CHUNKS < i + n ∧ ∀ c, i ≤ c → c < MAP_CHUNKS → Free map c

theorem FreeRun.mono {k : Nat} (h : FreeRun map i n) (hk : k ≤ n) : FreeRun map i k :=
  fun x hx => h x (Nat.lt_of_lt_of_le hx hk)

theorem Free.inBounds {c : Nat} (h : Free map c) : c < MAP_CHUNKS := testUsed_inBounds h

/-! ## The inner loop -/

/-- The count stops at the first used chunk, at the end of the request, or outside of the map. -/
theorem scanRun_cases (map : PageMap) (i j left : Nat)
    (hbound : i + j + left < 18446744073709551616) :
    (∃ j', scanRun map i left j = some j' ∧ j ≤ j' ∧ j' ≤ j + left ∧
      (∀ x, j ≤ x → x < j' → Free map (i + x)) ∧
      (j' = j + left ∨ testUsed map (i + j') = some true)) ∨
    (scanRun map i left j = none ∧ ∃ k, j ≤ k ∧ k < j + left ∧ MAP_CHUNKS ≤ i + k ∧
      ∀ x, j ≤ x → x < k → Free map (i + x)) := by
  induction left generalizing j with
  | zero =>
      refine .inl ⟨j, rfl, Nat.le_refl _, Nat.le_refl _, ?_, .inl rfl⟩
      intro x hx hx'
      omega
  | succ left ih =>
      have hidx : u64 ((i : Int) + j) = i + j := u64_of_range (by omega) (by omega)
      rw [scanRun, hidx]
      cases ht : testUsed map (i + j) with
      | none =>
          refine .inr ⟨rfl, j, Nat.le_refl _, by omega, ?_, ?_⟩
          · unfold testUsed at ht
            split at ht
            · cases ht
            · simp only [MAP_WORDS, MAP_CHUNKS] at *
              omega
          · intro x hx hx'
            omega
      | some b =>
          cases b with
          | true =>
              refine .inl ⟨j, rfl, Nat.le_refl _, by omega, ?_, .inr ht⟩
              intro x hx hx'
              omega
          | false =>
              have hcons : ∀ k, (∀ x, j + 1 ≤ x → x < k → Free map (i + x)) →
                  ∀ x, j ≤ x → x < k → Free map (i + x) := by
                intro k hk x hx hx'
                rcases Nat.eq_or_lt_of_le hx with rfl | hlt
                · exact ht
                · exact hk x hlt hx'
              simp only [Option.bind_eq_bind, Option.bind_some, Bool.false_eq_true, if_false]
              rcases ih (j + 1) (by omega) with
                ⟨j', hscan, hle, hle', hfree, hend⟩ | ⟨hscan, k, hle, hlt, hout, hfree⟩
              · exact .inl ⟨j', hscan, by omega, by omega, hcons j' hfree, by
                  rcases hend with hend | hend
                  · exact .inl (by omega)
                  · exact .inr hend⟩
              · exact .inr ⟨hscan, k, by omega, by omega, hout, hcons k hfree⟩

/-! ## The outer loop -/

/-- What the search finds inside the bounds of the zone. -/
def IsFoundFrom (map : PageMap) (n i stop r : Nat) : Prop :=
  (i ≤ r ∧ r + n < stop ∧ FreeRun map r n ∧ ∀ k, i ≤ k → k < r → ¬ FreeRun map k n) ∨
  (r = NOT_FOUND ∧ ∀ k, i ≤ k → k + n < stop → ¬ FreeRun map k n)

/-- A chunk where no run starts can be passed over. -/
theorem IsFoundFrom.skip {r : Nat} (h : IsFoundFrom map n (i + 1) stop r)
    (hno : i + n < stop → ¬ FreeRun map i n) : IsFoundFrom map n i stop r := by
  rcases h with ⟨hle, hend, hrun, hleast⟩ | ⟨rfl, hnone⟩
  · refine .inl ⟨by omega, hend, hrun, ?_⟩
    intro k hk hkr
    rcases Nat.eq_or_lt_of_le hk with rfl | hlt
    · exact hno (by omega)
    · exact hleast k hlt hkr
  · refine .inr ⟨rfl, ?_⟩
    intro k hk hkend
    rcases Nat.eq_or_lt_of_le hk with rfl | hlt
    · exact hno hkend
    · exact hnone k hlt hkend

/-- The search either finds the first run that ends before the zone does, or counts past the end of
the map at some chunk. -/
theorem findFreeFrom_cases (map : PageMap) (hn : 0 < n) (hsmall : n < 2147483648) (hstop : stop ≤ MAP_CHUNKS)
    (hend : i + left = stop) :
    (∃ r, findFreeFrom map n stop left i = some r ∧ IsFoundFrom map n i stop r) ∨
    (findFreeFrom map n stop left i = none ∧ RunsOff map n i stop) := by
  induction left generalizing i with
  | zero =>
      refine .inl ⟨NOT_FOUND, rfl, .inr ⟨rfl, ?_⟩⟩
      intro k hk hkend
      omega
  | succ left ih =>
      have hmap : MAP_CHUNKS = 786432 := rfl
      have hskip : (i + n < stop → ¬ FreeRun map i n) →
          (∃ r, findFreeFrom map n stop left (i + 1) = some r ∧ IsFoundFrom map n i stop r) ∨
          (findFreeFrom map n stop left (i + 1) = none ∧ RunsOff map n i stop) := by
        intro hno
        rcases ih (i := i + 1) (by omega) with ⟨r, hfind, hfound⟩ | ⟨hfind, k, hk, hrest⟩
        · exact .inl ⟨r, hfind, hfound.skip hno⟩
        · exact .inr ⟨hfind, k, by omega, hrest⟩
      rw [findFreeFrom]
      cases ht : testUsed map i with
      | none =>
          unfold testUsed at ht
          split at ht
          · cases ht
          · simp only [MAP_WORDS, MAP_CHUNKS] at *
            omega
      | some b =>
          cases b with
          | true =>
              refine hskip fun _ hrun => ?_
              have hfree : testUsed map i = some false := hrun 0 hn
              rw [ht] at hfree
              cases hfree
          | false =>
              simp only [Option.bind_eq_bind, Option.bind_some, Bool.false_eq_true, if_false]
              rcases scanRun_cases map i 0 n (by omega) with
                ⟨j', hscan, _, hle, hfree, hcase⟩ | ⟨hscan, k, _, hlt, hout, hfree⟩
              · have hidx : u64 ((i : Int) + j') = i + j' := u64_of_range (by omega) (by omega)
                rw [hscan, Option.bind_some, hidx]
                by_cases hfound : j' = n ∧ i + j' < stop
                · rw [if_pos hfound]
                  rcases hfound with ⟨rfl, hlt⟩
                  refine .inl ⟨i, rfl, .inl ⟨Nat.le_refl _, hlt, ?_, ?_⟩⟩
                  · exact fun x hx => hfree x (Nat.zero_le x) hx
                  · intro k hk hki
                    omega
                · rw [if_neg hfound]
                  refine hskip fun hlt hrun => ?_
                  rcases hcase with rfl | hused
                  · exact hfound ⟨by omega, by omega⟩
                  · have hjn : j' < n := by
                      by_contra hge
                      exact hfound ⟨by omega, by omega⟩
                    have hfree' : testUsed map (i + j') = some false := hrun j' hjn
                    rw [hused] at hfree'
                    cases hfree'
              · rw [hscan]
                refine .inr ⟨rfl, i, Nat.le_refl _, by omega, by omega, ?_⟩
                intro c hc hc'
                have hx := hfree (c - i) (Nat.zero_le _) (by omega)
                rwa [Nat.add_sub_cancel' hc] at hx

/-- A count that would go past the end of the map does so, as nothing is long enough to be found
before. -/
theorem RunsOff.findFreeFrom (hoff : RunsOff map n i stop) (hsmall : n < 2147483648)
    (hstop : stop ≤ 262144) (hend : i + left = stop) : findFreeFrom map n stop left i = none := by
  have hmap : MAP_CHUNKS = 786432 := rfl
  rcases hoff with ⟨k, hk, hkstop, hlong, hfree⟩
  induction left generalizing i with
  | zero => omega
  | succ left ih =>
      rw [Memory.findFreeFrom]
      cases ht : testUsed map i with
      | none => rfl
      | some b =>
          cases b with
          | true =>
              -- Chunk `k` is free, so it is still to come.
              have hne : i ≠ k := by
                rintro rfl
                have hfree' : testUsed map i = some false := hfree i (Nat.le_refl _) (by omega)
                rw [ht] at hfree'
                cases hfree'
              exact ih (by omega) (by omega)
          | false =>
              simp only [Option.bind_eq_bind, Option.bind_some, Bool.false_eq_true, if_false]
              rcases scanRun_cases map i 0 n (by omega) with
                ⟨j', hscan, _, hle, hrun, hcase⟩ | ⟨hscan, _⟩
              · have hidx : u64 ((i : Int) + j') = i + j' := u64_of_range (by omega) (by omega)
                rw [hscan, Option.bind_some, hidx, if_neg (by omega)]
                have hne : i ≠ k := by
                  rintro rfl
                  rcases hcase with rfl | hused
                  · have hlast : Free map (i + (MAP_CHUNKS - i)) :=
                      hrun (MAP_CHUNKS - i) (Nat.zero_le _) (by omega)
                    have hin := hlast.inBounds
                    omega
                  · have hin : i + j' < MAP_CHUNKS := testUsed_inBounds hused
                    have hfree' : testUsed map (i + j') = some false := hfree _ (by omega) hin
                    rw [hused] at hfree'
                    cases hfree'
                exact ih (by omega) (by omega)
              · rw [hscan]
                rfl

/-! ## `find_free` -/

/-- What the search finds is a first fit, unless the only fit ends where the zone ends. -/
theorem IsFoundFrom.firstFit_iff {r : Nat} (h : IsFoundFrom map n start stop r)
    (hstop : stop ≤ 262144) : IsFirstFit map n start stop r ↔ ¬ OnlyAtEnd map n start stop := by
  have hbig : NOT_FOUND = 18446744073709551615 := rfl
  constructor
  · rintro hfit ⟨hle, hrun, hnone⟩
    rcases h with ⟨hlo, hend, hrun', _⟩ | ⟨rfl, _⟩
    · exact hnone r hlo hend hrun'
    · rcases hfit with ⟨_, hend, _⟩ | ⟨_, hno⟩
      · omega
      · exact hno (stop - n) (by omega) (by omega) hrun
  · intro hnot
    rcases h with ⟨hlo, hend, hrun, hleast⟩ | ⟨rfl, hnone⟩
    · exact .inl ⟨hlo, Nat.le_of_lt hend, hrun, hleast⟩
    · refine .inr ⟨rfl, ?_⟩
      intro i hi hend hrun
      rcases Nat.lt_or_eq_of_le hend with hlt | heq
      · exact hnone i hi hlt hrun
      · refine hnot ⟨by omega, ?_, hnone⟩
        rwa [show stop - n = i by omega]

theorem findFree_cases (map : PageMap) (start : Nat) (hn : 0 < n) (hsmall : n < 2147483648) (hstop : stop ≤ 262144) :
    (∃ r, findFree map n start stop = some r ∧ IsFoundFrom map n start stop r ∧
      ¬ RunsOff map n start stop) ∨
    (findFree map n start stop = none ∧ RunsOff map n start stop) := by
  have hlen : u64 (n : Int) = n := u64_of_range rfl (by omega)
  have hmap : MAP_CHUNKS = 786432 := rfl
  rw [findFree, hlen]
  rcases Nat.lt_or_ge stop start with hempty | hle
  · rw [Nat.sub_eq_zero_of_le (Nat.le_of_lt hempty)]
    refine .inl ⟨NOT_FOUND, rfl, .inr ⟨rfl, ?_⟩, ?_⟩
    · intro k hk hkend
      omega
    · rintro ⟨k, hk, hkstop, _⟩
      omega
  have hend : start + (stop - start) = stop := by omega
  rcases findFreeFrom_cases map hn hsmall (by omega) hend with
    ⟨r, hfind, hfound⟩ | ⟨hfind, hoff⟩
  · refine .inl ⟨r, hfind, hfound, fun hoff => ?_⟩
    rw [hoff.findFreeFrom hsmall hstop hend] at hfind
    cases hfind
  · exact .inr ⟨hfind, hoff⟩

/-- **First fit.** `find_free` returns the first free run of its zone, or `-1` if there is none,
exactly if the only such run does not end where the zone ends, and the count stays inside the map. -/
theorem findFree_firstFit_iff (hn : 0 < n) (hsmall : n < 2147483648) (hstop : stop ≤ 262144) :
    (∃ r, findFree map n start stop = some r ∧ IsFirstFit map n start stop r) ↔
      ¬ OnlyAtEnd map n start stop ∧ ¬ RunsOff map n start stop := by
  rcases findFree_cases map start hn hsmall hstop with ⟨r, hfind, hfound, hin⟩ | ⟨hfind, hoff⟩
  · constructor
    · rintro ⟨r', hfind', hfit⟩
      obtain rfl : r = r' := Option.some.inj (hfind.symm.trans hfind')
      exact ⟨(hfound.firstFit_iff hstop).1 hfit, hin⟩
    · rintro ⟨hnot, _⟩
      exact ⟨r, hfind, (hfound.firstFit_iff hstop).2 hnot⟩
  · constructor
    · rintro ⟨r', hfind', _⟩
      rw [hfind] at hfind'
      cases hfind'
    · rintro ⟨_, hin⟩
      exact absurd hoff hin

theorem freeRun_zero (i n : Nat) (h : i + n ≤ MAP_CHUNKS) : FreeRun (fun _ => 0#64) i n := by
  intro x hx
  rw [Free, testUsed_eq mirrored_zero (by omega)]
  simp [used]

/-- One chunk in a kernel zone with nothing in use. -/
theorem findFree_firstFit_one_chunk :
    ∃ r, findFree (fun _ => 0#64) (1 : Nat) 0 4096 = some r ∧
      IsFirstFit (fun _ => 0#64) 1 0 4096 r := by
  refine (findFree_firstFit_iff (by decide) (by decide) (by decide)).2 ⟨?_, ?_⟩
  · rintro ⟨_, _, hnone⟩
    exact hnone 0 (by decide) (by decide) (freeRun_zero 0 1 (by decide))
  · rintro ⟨i, _, hlt, hlong, _⟩
    simp only [MAP_CHUNKS] at hlong
    omega

/-- The whole kernel zone is free, but a request for all of it is not found. -/
theorem findFree_misses_whole_zone : ¬ ∃ r, findFree (fun _ => 0#64) (4096 : Nat) 0 4096 = some r ∧
    IsFirstFit (fun _ => 0#64) 4096 0 4096 r := by
  rintro ⟨r, hfind, hfit⟩
  rcases findFree_cases (n := 4096) (fun _ => 0#64) 0 (by decide)
    (by decide) (show 4096 ≤ 262144 by decide) with ⟨r', hfind', hfound, _⟩ | ⟨hfind', _⟩
  · obtain rfl : r' = r := Option.some.inj (hfind'.symm.trans hfind)
    refine (hfound.firstFit_iff (by decide)).1 hfit ⟨by decide, freeRun_zero 0 4096 (by decide), ?_⟩
    intro i _ hend
    omega
  · rw [hfind] at hfind'
    cases hfind'

/-! ## `reserve` without a free run -/

/-- `reserve` returns 0 and leaves the map and the memory alone. -/
def ReportsExhaustion (s : Machine) (n type : Nat) : Prop :=
  ∃ s', reserve s n type = some (0, s') ∧ s'.memoryMap = s.memoryMap ∧ s'.mem = s.mem

/-- The failure value is not negative, and the chunk of that number lies outside of the map. -/
theorem reserve_exhausted {s : Machine} {n type : Nat} (ht : type = MEM_K ∨ type = MEM_U)
    (hfull : findFree s.memoryMap (i32 (count n)) (zone s type).1 (zone s type).2 = some NOT_FOUND) :
    reserve s n type = none := by
  rw [reserve_eq s ht, reserveIn, hfull, Option.bind_eq_bind, Option.bind_some, if_neg (by decide),
    markUsedUpTo_notFound _ (count_pos n)]
  rfl

/-- A count that is to go past the end of the map never completes. -/
theorem scanRun_short : ∀ {left j j' : Nat}, i + j ≤ MAP_CHUNKS → MAP_CHUNKS < i + j + left →
    scanRun map i left j = some j' → j' < j + left := by
  intro left
  induction left with
  | zero =>
      intro j j' hle hlt
      omega
  | succ left ih =>
      intro j j' hle hlt hscan
      have hmap : MAP_CHUNKS = 786432 := rfl
      have hidx : u64 ((i : Int) + j) = i + j := u64_of_range (by omega) (by omega)
      rw [scanRun, hidx] at hscan
      cases ht : testUsed map (i + j) with
      | none =>
          rw [ht] at hscan
          cases hscan
      | some b =>
          rw [ht] at hscan
          cases b with
          | true =>
              have heq : j = j' := Option.some.inj hscan
              omega
          | false =>
              have hin : i + j < MAP_CHUNKS := Free.inBounds ht
              have hrest := ih (by omega) (by omega) hscan
              omega

/-- More chunks than the map has are not found. -/
theorem findFreeFrom_long (hlong : MAP_CHUNKS < n) : ∀ {left i r : Nat}, i + left ≤ MAP_CHUNKS →
    findFreeFrom map n stop left i = some r → r = NOT_FOUND := by
  intro left
  induction left with
  | zero =>
      intro i r _ hfind
      exact (Option.some.inj hfind).symm
  | succ left ih =>
      intro i r hend hfind
      rw [findFreeFrom] at hfind
      cases ht : testUsed map i with
      | none =>
          rw [ht] at hfind
          cases hfind
      | some b =>
          rw [ht] at hfind
          cases b with
          | true => exact ih (by omega) hfind
          | false =>
              simp only [Option.bind_eq_bind, Option.bind_some, Bool.false_eq_true, if_false] at hfind
              cases hscan : scanRun map i n 0 with
              | none =>
                  rw [hscan] at hfind
                  cases hfind
              | some j =>
                  have hshort := scanRun_short (by omega) (by omega) hscan
                  rw [hscan, Option.bind_some, if_neg (by omega)] at hfind
                  exact ih (by omega) hfind

/-- A number of chunks that is negative as an `int` is never handed out. -/
theorem reserve_negative {s : Machine} {type : Nat} (ht : type = MEM_K ∨ type = MEM_U)
    (hmax : s.maxChunk ≤ MAP_CHUNKS) (hlo : 2147483648 ≤ n) (hhi : n < 4294967296) :
    reserve s n type = none := by
  have hmap : MAP_CHUNKS = 786432 := rfl
  have hcount : count n = n := if_neg (by omega)
  have hlong : MAP_CHUNKS < u64 (i32 n) := by
    rw [i32_eq]
    unfold u64
    omega
  have hzone : (zone s type).2 ≤ MAP_CHUNKS ∧ (zone s type).1 ≤ MAP_CHUNKS := by
    unfold zone
    split
    · exact ⟨show KERNEL_RESERVED / CHUNK_SIZE ≤ MAP_CHUNKS by decide, Nat.zero_le _⟩
    · exact ⟨hmax, show KERNEL_RESERVED / CHUNK_SIZE ≤ MAP_CHUNKS by decide⟩
  cases hfind : findFree s.memoryMap (i32 (count n)) (zone s type).1 (zone s type).2 with
  | none => rw [reserve_eq s ht, reserveIn, hfind]; rfl
  | some r =>
      have hr : r = NOT_FOUND := by
        rw [hcount] at hfind
        exact findFreeFrom_long hlong (by omega) hfind
      rw [hr] at hfind
      exact reserve_exhausted ht hfind

/-- **Exhaustion.** When `find_free` reports that there is no run, `reserve` never reports it. -/
theorem reserve_never_reports {s : Machine} {n type : Nat} (ht : type = MEM_K ∨ type = MEM_U)
    (hfull : findFree s.memoryMap (i32 (count n)) (zone s type).1 (zone s type).2 = some NOT_FOUND) :
    ¬ ReportsExhaustion s n type := by
  rintro ⟨s', hrun, _⟩
  rw [reserve_exhausted ht hfull] at hrun
  cases hrun

/-- One chunk more than the kernel zone has. -/
theorem findFree_more_than_zone :
    findFree (fun _ => 0#64) (i32 (count 4097)) 0 4096 = some NOT_FOUND := by
  have hlen : i32 (count 4097) = (4097 : Nat) := by decide
  rw [hlen]
  rcases findFree_cases (n := 4097) (fun _ => 0#64) 0 (by decide)
    (by decide) (show 4096 ≤ 262144 by decide) with ⟨r, hfind, ⟨_, hend, _⟩ | ⟨rfl, _⟩, _⟩ | ⟨_, hoff⟩
  · omega
  · exact hfind
  · rcases hoff with ⟨i, _, hlt, hlong, _⟩
    simp only [MAP_CHUNKS] at hlong
    omega

theorem reserve_never_reports_kernel_zone :
    ¬ ReportsExhaustion (.atBoot (fun _ => 0) 0) 4097 MEM_K :=
  reserve_never_reports (.inl rfl) findFree_more_than_zone

/-- `reserve(4097, MEM_K)` right after boot: the search fails, and the failure is not reported. -/
theorem reserve_misses_exhaustion :
    findFree (Machine.atBoot (fun _ => 0) 0).memoryMap (i32 (count 4097)) 0 4096 = some NOT_FOUND ∧
      ¬ ReportsExhaustion (.atBoot (fun _ => 0) 0) 4097 MEM_K := by
  refine ⟨findFree_more_than_zone, ?_⟩
  have hnone : reserve (.atBoot (fun _ => 0) 0) 4097 MEM_K = none :=
    reserve_exhausted (.inl rfl) findFree_more_than_zone
  rintro ⟨s', hrun, _⟩
  rw [hnone] at hrun
  cases hrun

end Memory
end EmbeddedOS
