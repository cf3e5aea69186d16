import EmbeddedOS.Base.MachineInt
import EmbeddedOS.Base.Sorting
import EmbeddedOS.Perf.Events

/-!
# Lookup of performance events

`init_events` of `perf.c`, and the hash, the comparison and the lookup of `perf.h`. The comparison is
a total order on the hashes, so the lookup finds an event with the hash of the string. Nothing
compares the names.
-/

namespace EmbeddedOS
namespace Perf

open Base

/-! ## The code -/

/-- `perf_hash`, on the characters in front of the terminator. -/
def perf_hash (string : List UInt8) : Nat :=
  let val := string.foldl (fun val c => ((val <<< 5) + val + c.toNat) % 18446744073709551616) 5381
  val % 2147483647

def perf_cmp (a b : PerfEvent) : Int := i32 (u32 ((a.hash : Int) - b.hash))

section Library

variable (qsort : (PerfEvent → PerfEvent → Int) → List PerfEvent → List PerfEvent)
  (bsearch : (PerfEvent → PerfEvent → Int) → PerfEvent → List PerfEvent → Option PerfEvent)

/-- The table after `init_events`. -/
def init_events : List PerfEvent :=
  qsort perf_cmp ((perf_events.take 180).map fun e => { e with hash := perf_hash e.name })

def perf_lookup (string : List UInt8) (user_table : List PerfEvent) (size : Nat) : Option PerfEvent :=
  let key := perf_hash string
  let table : PerfEvent := ⟨ascii "None", 0, key⟩
  bsearch perf_cmp table (user_table.take size)

/-- The lookup returns an event exactly if one has that name, and one that has it. -/
def LooksUp (s : List UInt8) : Prop :=
  ((perf_lookup bsearch s (init_events qsort) 180).isSome ↔ ∃ e ∈ perf_events, e.name = s) ∧
    ∀ e, perf_lookup bsearch s (init_events qsort) 180 = some e → e.name = s

end Library

/-! ## The comparison -/

theorem perf_hash_lt (s : List UInt8) : perf_hash s < 2147483647 :=
  Nat.mod_lt _ (by decide)

theorem perf_cmp_eq {a b : PerfEvent} (ha : a.hash < 2147483647) (hb : b.hash < 2147483647) :
    perf_cmp a b = (a.hash : Int) - b.hash := by
  rw [perf_cmp, i32_u32]
  exact i32_of_range (by omega) (by omega)

theorem perf_cmp_byKey {table : List PerfEvent} (h : ∀ e ∈ table, e.hash < 2147483647) :
    ByKey perf_cmp table := by
  refine ⟨PerfEvent.hash, fun x hx y hy => ?_⟩
  rw [perf_cmp_eq (h x hx) (h y hy)]
  omega

/-! ## The table -/

theorem perf_events_length : perf_events.length = 180 := by
  decide +kernel

set_option maxRecDepth 10000 in
/-- Two rows have the same hash only where they have the same name. -/
theorem perf_events_apart : perf_events.Pairwise fun a b =>
    perf_hash a.name = perf_hash b.name → a.name = b.name := by
  decide +kernel

theorem perf_events_injective {a b : PerfEvent} (ha : a ∈ perf_events) (hb : b ∈ perf_events)
    (h : perf_hash a.name = perf_hash b.name) : a.name = b.name := by
  have hflip := perf_events_apart.imp fun {a b} hab hba => (hab (Eq.symm hba)).symm
  exact List.Pairwise.forall_of_forall_of_flip (fun _ _ _ => rfl) perf_events_apart hflip ha hb h

section Table

variable {qsort : (PerfEvent → PerfEvent → Int) → List PerfEvent → List PerfEvent}
  {bsearch : (PerfEvent → PerfEvent → Int) → PerfEvent → List PerfEvent → Option PerfEvent}
  {s : List UInt8}

theorem mem_hashed {e : PerfEvent} :
    e ∈ ((perf_events.take 180).map fun e => { e with hash := perf_hash e.name }) ↔
      e.hash = perf_hash e.name ∧ ∃ e' ∈ perf_events, e'.name = e.name ∧
        e'.event_number = e.event_number := by
  rw [List.take_of_length_le (Nat.le_of_eq perf_events_length), List.mem_map]
  constructor
  · rintro ⟨e', he', rfl⟩
    exact ⟨rfl, e', he', rfl, rfl⟩
  · rintro ⟨hhash, e', he', hname, hnumber⟩
    refine ⟨e', he', ?_⟩
    cases e
    simp only at hhash hname hnumber
    simp only [hname, hnumber, hhash]

/-- What `init_events` leaves: sorted, the rows of the table with their hashes. -/
theorem init_events_spec (hq : IsQsort qsort) :
    (∀ e, e ∈ init_events qsort ↔ e.hash = perf_hash e.name ∧ ∃ e' ∈ perf_events,
        e'.name = e.name ∧ e'.event_number = e.event_number) ∧
      (init_events qsort).length = 180 ∧
      (init_events qsort).Pairwise fun x y => perf_cmp x y ≤ 0 := by
  have hperm := hq.perm perf_cmp
    ((perf_events.take 180).map fun e => { e with hash := perf_hash e.name })
  refine ⟨fun e => hperm.mem_iff.trans mem_hashed, ?_, hq.sorted _ _ (perf_cmp_byKey ?_)⟩
  · rw [init_events, hperm.length_eq, List.length_map, List.length_take, perf_events_length,
      Nat.min_self]
  · intro e he
    rw [(mem_hashed.mp he).1]
    exact perf_hash_lt _

/-- An event is returned exactly if one has the hash of the string, and then one that has it. -/
theorem perf_lookup_spec (hq : IsQsort qsort) (hb : IsBsearch bsearch) (s : List UInt8) :
    (∀ e, perf_lookup bsearch s (init_events qsort) 180 = some e →
        perf_hash e.name = perf_hash s ∧ ∃ e' ∈ perf_events, e'.name = e.name) ∧
      ((∃ e ∈ perf_events, perf_hash e.name = perf_hash s) →
        (perf_lookup bsearch s (init_events qsort) 180).isSome) := by
  obtain ⟨hmem, hlen, hsorted⟩ := init_events_spec hq
  let key : PerfEvent := ⟨ascii "None", 0, perf_hash s⟩
  have hall : ∀ e ∈ init_events qsort, e.hash < 2147483647 := by
    intro e he
    rw [((hmem e).mp he).1]
    exact perf_hash_lt _
  have hcmp : ∀ e ∈ init_events qsort, perf_cmp key e = 0 ↔ perf_hash e.name = perf_hash s := by
    intro e he
    rw [perf_cmp_eq (perf_hash_lt s) (hall e he), ((hmem e).mp he).1]
    simp only [key]
    omega
  rw [perf_lookup, List.take_of_length_le (Nat.le_of_eq hlen)]
  constructor
  · intro e he
    obtain ⟨hin, hzero⟩ := hb.found _ _ _ _ he
    obtain ⟨-, e', he', hname, -⟩ := (hmem e).mp hin
    exact ⟨(hcmp e hin).mp hzero, e', he', hname⟩
  · rintro ⟨e, he, hhash⟩
    let row : PerfEvent := { e with hash := perf_hash e.name }
    have hrow : row ∈ init_events qsort := (hmem row).mpr ⟨rfl, e, he, rfl, rfl⟩
    refine hb.finds perf_cmp key _ (perf_cmp_byKey ?_) hsorted ⟨row, hrow, (hcmp row hrow).mpr hhash⟩
    intro x hx
    rcases List.mem_cons.mp hx with rfl | hx
    · exact perf_hash_lt s
    · exact hall x hx

/-- A string with the hash of another name finds the event of that name. -/
theorem not_looksUp (hq : IsQsort qsort) (hb : IsBsearch bsearch) {e : PerfEvent}
    (he : e ∈ perf_events) (hhash : perf_hash e.name = perf_hash s) (hname : e.name ≠ s) :
    ¬ LooksUp qsort bsearch s := by
  intro h
  obtain ⟨hfound, hfinds⟩ := perf_lookup_spec hq hb s
  rcases Option.isSome_iff_exists.mp (hfinds ⟨e, he, hhash⟩) with ⟨x, hx⟩
  obtain ⟨hxhash, e', he', hxname⟩ := hfound x hx
  refine hname ?_
  rw [← h.2 x hx, ← hxname]
  exact perf_events_injective he he' (by rw [hhash, hxname, hxhash])

end Table

/-- **Which strings are looked up by their name.** Those whose hash no event of another name has. -/
theorem perf_lookup_names_iff
    (qsort : (PerfEvent → PerfEvent → Int) → List PerfEvent → List PerfEvent)
    (bsearch : (PerfEvent → PerfEvent → Int) → PerfEvent → List PerfEvent → Option PerfEvent)
    (hq : IsQsort qsort) (hb : IsBsearch bsearch) (s : List UInt8) :
    LooksUp qsort bsearch s ↔
      ∀ e ∈ perf_events, perf_hash e.name = perf_hash s → e.name = s := by
  constructor
  · intro h e he hhash
    by_contra hname
    exact not_looksUp hq hb he hhash hname h
  · intro hnames
    obtain ⟨hfound, hfinds⟩ := perf_lookup_spec hq hb s
    have hname : ∀ e, perf_lookup bsearch s (init_events qsort) 180 = some e → e.name = s := by
      intro e he
      obtain ⟨hhash, e', he', hsame⟩ := hfound e he
      rw [← hsame]
      exact hnames e' he' (by rw [hsame, hhash])
    refine ⟨⟨?_, ?_⟩, hname⟩
    · intro hsome
      rcases Option.isSome_iff_exists.mp hsome with ⟨e, he⟩
      obtain ⟨-, e', he', hsame⟩ := hfound e he
      exact ⟨e', he', hsame.trans (hname e he)⟩
    · rintro ⟨e, he, rfl⟩
      exact hfinds ⟨e, he, rfl⟩

set_option maxRecDepth 10000 in
theorem perf_lookup_names_load :
    LooksUp qsort bsearchElement (ascii "Load") :=
  (perf_lookup_names_iff qsort bsearchElement isQsort_qsort isBsearch_bsearchElement _).mpr
    (by decide +kernel)

/-- `"Csq"` has the hash of `"DSP"`. -/
theorem perf_lookup_csq : ¬ LooksUp qsort bsearchElement (ascii "Csq") := by
  have he : event "DSP" 0x82AB ∈ perf_events := by
    decide +kernel
  exact not_looksUp isQsort_qsort isBsearch_bsearchElement he (by decide +kernel)
    (by decide +kernel)

end Perf
end EmbeddedOS
