import EmbeddedOS.Base.LinkTable
import EmbeddedOS.Base.Loop
import EmbeddedOS.Base.MachineInt
import EmbeddedOS.Base.Runs
import EmbeddedOS.Fat32.Codecs
import Mathlib.Order.Interval.Finset.Nat

/-!
# Cluster chains of FAT32

`create_chain` and `remove_chain` of `fat32.c`, over a FAT whose entries are read and written
without error. The end of a chain is marked with the value that `get_entry` returns on an error, and
both functions take it for one.
-/

namespace EmbeddedOS
namespace Fat32

open Base

/-! ## The code -/

/-- The FAT, and the fields of `FS` that the chains are made with. -/
structure Table where
  n_entries : Nat
  lac : Nat
  nfc : Nat
  fsiflag : Nat
  status : Nat
  entry : Nat → Nat

/-- The end-of-chain mark. -/
abbrev EOC : Nat := 0xFFFFFFFF

namespace Table

def get_entry (fs : Table) (n : Nat) : Nat :=
  if n < 2 ∨ n ≥ fs.n_entries then 0xFFFFFFFF else fs.entry n

def set_entry (fs : Table) (n v : Nat) : Int × Table :=
  if n < 2 ∨ n ≥ fs.n_entries then (E_BADC, fs)
  else (E_NOERR, { fs with entry := Function.update fs.entry n v })

/-- One pass of the loop of `remove_chain`. -/
def removePass : Table × Nat → Option (Pass (Table × Nat) (Int × Table))
  | (fs, n) =>
      let next := fs.get_entry n
      if next = 0 then some (.done (E_NOERR, fs))
      else if next = 0xFFFFFFFF then some (.done (E_FAILDEV, fs))
      else
        let (ret, fs) := fs.set_entry n 0
        if ret ≠ E_NOERR then some (.done (ret, fs))
        else
          let fs :=
            if fs.nfc < u32 (fs.n_entries - 2) then
              { fs with nfc := u32 (fs.nfc + 1), fsiflag := fs.fsiflag ||| 1 }
            else fs
          if next < fs.n_entries then some (.again (fs, next)) else some (.done (ret, fs))

def remove_chain (fuel : Nat) (fs : Table) (n prev : Nat) : Option (Int × Table) :=
  if n < 2 ∨ n ≥ fs.n_entries then some (E_BADC, fs)
  else
    let (ret, fs) :=
      if prev ≠ 0 ∧ fs.status ≠ 2 then fs.set_entry prev 0xFFFFFFFF else (E_NOERR, fs)
    if ret ≠ E_NOERR then some (ret, fs) else loop removePass fuel (fs, n)

/-- Where the search starts, or what is returned before it. -/
def searchStart (fs : Table) (n : Nat) : Except Nat Nat :=
  if n = 0 then .ok (if fs.lac = 0 ∨ fs.lac > fs.n_entries then 1 else fs.lac)
  else
    let stat := fs.get_entry n
    if stat < 2 then .error 1
    else if stat = 0xFFFFFFFF then .error stat
    else if stat < fs.n_entries then .error stat
    else .ok n

/-- The cluster right behind `n` if it is free, and else 0 and where the search starts. -/
def tryNext (fs : Table) (start n : Nat) : Except Nat (Nat × Nat) :=
  if start = n then
    let next := u32 (start + 1)
    let next := if next ≥ fs.n_entries then 2 else next
    let stat := fs.get_entry next
    if stat = 1 ∨ stat = 0xFFFFFFFF then .error stat
    else if stat ≠ 0 then
      .ok (0, if fs.lac ≥ 2 ∧ fs.lac < fs.n_entries then fs.lac else start)
    else .ok (next, start)
  else .ok (0, start)

/-- One pass of the search of `create_chain`. -/
def searchPass (fs : Table) (start next : Nat) : Option (Pass Nat (Except Nat Nat)) :=
  let next := u32 (next + 1)
  if next ≥ fs.n_entries ∧ 2 > start then some (.done (.error 0))
  else
    let next := if next ≥ fs.n_entries then 2 else next
    let stat := fs.get_entry next
    if stat = 0 then some (.done (.ok next))
    else if stat = 1 ∨ stat = 0xFFFFFFFF then some (.done (.error stat))
    else if next = start then some (.done (.error 0))
    else some (.again next)

/-- The entries and FSInfo fields that `create_chain` sets for the cluster it has found. -/
def allocate (fs : Table) (n next : Nat) : Nat × Table :=
  let (ret, fs) := fs.set_entry next 0xFFFFFFFF
  let (ret, fs) := if ret = E_NOERR ∧ n ≠ 0 then fs.set_entry n next else (ret, fs)
  if ret = E_NOERR then
    (next,
      { fs with
        lac := next
        nfc := if fs.nfc ≤ u32 (fs.n_entries - 2) then u32 (fs.nfc - 1) else fs.nfc
        fsiflag := fs.fsiflag ||| 1 })
  else (if ret = E_FAILDEV then 0xFFFFFFFF else 1, fs)

def create_chain (fuel : Nat) (fs : Table) (n : Nat) : Option (Nat × Table) :=
  match fs.searchStart n with
  | .error stat => some (stat, fs)
  | .ok start =>
      if fs.nfc = 0 then some (0, fs)
      else
        match fs.tryNext start n with
        | .error stat => some (stat, fs)
        | .ok (next, start) =>
            match if next = 0 then loop (fs.searchPass start) fuel start else some (.ok next) with
            | none => none
            | some (.error stat) => some (stat, fs)
            | some (.ok next) => some (fs.allocate n next)

/-! ## The format -/

/-- The clusters that the FAT has entries for. -/
def clusters (fs : Table) : Finset Nat := Finset.Ico 2 fs.n_entries

/-- The used clusters form these chains, and `nfc` counts the others. -/
structure Chains (fs : Table) (chains : List (List Nat)) : Prop where
  layout : Layout EOC 0 fs.clusters fs.entry chains
  count : fs.nfc = (freePlaces 0 fs.clusters fs.entry).card
  size : fs.n_entries ≤ 0xFFFFFFFF

def Free (fs : Table) (k : Nat) : Prop := k ∈ fs.clusters ∧ fs.entry k = 0

inductive Call where
  | create_chain (n : Nat)
  | remove_chain (n : Nat)

def call (fuel : Nat) (fs : Table) : Call → Option (Int × Table)
  | .create_chain n => (create_chain fuel fs n).map fun (k, fs) => ((k : Int), fs)
  | .remove_chain n => remove_chain fuel fs n 0

/-- `create_chain` is called for no chain or for the last cluster of one, `remove_chain` for the
first. -/
def Allowed (fs : Table) : Call → Prop
  | .create_chain n => n = 0 ∨ ∃ c others, fs.Chains (c :: others) ∧ c.getLast? = some n
  | .remove_chain n => ∃ c others, fs.Chains (c :: others) ∧ c.head? = some n

/-- What a call is for. -/
def Good (fs : Table) : Call → Int → Table → Prop
  | .create_chain n, ret, fs' =>
      ((∃ k, fs.Free k) → ∃ k, fs.Free k ∧ ret = k ∧
        (n = 0 → ∀ chains, fs.Chains chains → fs'.Chains ([k] :: chains)) ∧
        (n ≠ 0 → ∀ c others, fs.Chains (c :: others) → c.getLast? = some n →
          fs'.Chains ((c ++ [k]) :: others))) ∧
      ((¬ ∃ k, fs.Free k) → ∀ chains, fs.Chains chains → fs'.Chains chains)
  | .remove_chain n, ret, fs' =>
      ret = E_NOERR ∧ ∀ c others, fs.Chains (c :: others) → c.head? = some n →
        (∀ k ∈ c, fs'.entry k = 0) ∧ fs'.Chains others

/-! ## The search -/

/-- Where the search for a new chain starts. -/
def hint (fs : Table) : Nat := if fs.lac = 0 ∨ fs.lac > fs.n_entries then 1 else fs.lac

/-- The cluster that the search looks at after `i` others: up from the hint, then from 2. -/
def scanned (fs : Table) (i : Nat) : Nat :=
  let base := min (fs.hint + 1) fs.n_entries
  if base + i < fs.n_entries then base + i else 2 + (base + i - fs.n_entries)

/-- The search comes to a free cluster before it comes to the last one of a chain. -/
def FreeFirst (fs : Table) : Prop :=
  fs.hint < 0xFFFFFFFF ∧ ∃ i, fs.Free (fs.scanned i) ∧ i < fs.n_entries - 2 ∧
    ∀ j < i, fs.entry (fs.scanned j) ≠ EOC

/-- The calls that do what they are for. -/
def Meets (fs : Table) : Call → Prop
  | .create_chain n => (∃ k, fs.Free k) → n = 0 ∧ fs.FreeFirst
  | .remove_chain _ => False

/-! ## Entries -/

section Entries

variable {fs : Table} {chains others : List (List Nat)} {k n next v : Nat} {rest : List Nat}

theorem mem_clusters : k ∈ fs.clusters ↔ 2 ≤ k ∧ k < fs.n_entries := Finset.mem_Ico

theorem card_clusters : fs.clusters.card = fs.n_entries - 2 := Nat.card_Ico 2 fs.n_entries

theorem zero_notMem_clusters : 0 ∉ fs.clusters := by
  rw [mem_clusters]
  omega

theorem get_entry_mem (hk : k ∈ fs.clusters) : fs.get_entry k = fs.entry k := by
  rw [mem_clusters] at hk
  exact if_neg (by omega)

theorem set_entry_mem (hk : k ∈ fs.clusters) : fs.set_entry k v =
    (E_NOERR, { fs with entry := Function.update fs.entry k v }) := by
  rw [mem_clusters] at hk
  exact if_neg (by omega)

/-- The entry of a cluster: free, the last of a chain, or a cluster. -/
theorem Chains.entry_cases (h : fs.Chains chains) (hk : k ∈ fs.clusters) :
    fs.entry k = 0 ∨ fs.entry k = EOC ∨ fs.entry k ∈ fs.clusters :=
  h.layout.entry_cases hk

theorem Chains.mem_ne_EOC (h : fs.Chains chains) (hk : k ∈ fs.clusters) : k ≠ EOC := by
  have hsize := h.size
  rw [mem_clusters] at hk
  exact Nat.ne_of_lt (Nat.lt_of_lt_of_le hk.2 hsize)

/-- Not every cluster is free while one is used. -/
theorem Chains.nfc_lt (h : fs.Chains chains) (hk : k ∈ fs.clusters) (hused : fs.entry k ≠ 0) :
    fs.nfc < fs.n_entries - 2 := by
  rw [h.count, ← card_clusters]
  refine Finset.card_lt_card ?_
  refine Finset.filter_ssubset.mpr ⟨k, hk, hused⟩

theorem Chains.nfc_le (h : fs.Chains chains) : fs.nfc ≤ fs.n_entries - 2 := by
  rw [h.count, ← card_clusters]
  exact Finset.card_filter_le _ _

theorem Chains.nfc_pos_iff (h : fs.Chains chains) : fs.nfc ≠ 0 ↔ ∃ k, fs.Free k := by
  rw [h.count, ← Nat.pos_iff_ne_zero, Finset.card_pos]
  exact ⟨fun ⟨k, hk⟩ => ⟨k, mem_freePlaces.mp hk⟩, fun ⟨k, hk⟩ => ⟨k, mem_freePlaces.mpr hk⟩⟩

theorem u32_sub_two (h : fs.Chains chains) (hk : k ∈ fs.clusters) :
    u32 (fs.n_entries - 2) = fs.n_entries - 2 := by
  have hsize := h.size
  rw [mem_clusters] at hk
  exact u32_of_range (by omega) (by omega)

/-! ## Removing a chain -/

/-- The FAT after a pass that clears the entry of `n`. -/
def dropped (fs : Table) (n : Nat) : Table :=
  { fs with
    entry := Function.update fs.entry n 0
    nfc := fs.nfc + 1
    fsiflag := fs.fsiflag ||| 1 }

theorem removePass_link (h : fs.Chains ((n :: next :: rest) :: others)) :
    removePass (fs, n) = some (.again (fs.dropped n, next)) := by
  have hn : n ∈ fs.clusters := h.layout.mem_dom List.mem_cons_self List.mem_cons_self
  have hnext : next ∈ fs.clusters :=
    h.layout.mem_dom List.mem_cons_self (List.mem_cons_of_mem _ List.mem_cons_self)
  have hentry : fs.entry n = next := (linked_cons.mp (h.layout.linked _ List.mem_cons_self)).1
  have hne : next ≠ 0 := fun heq => zero_notMem_clusters (heq ▸ hnext)
  have hnfc : fs.nfc < fs.n_entries - 2 := h.nfc_lt hn (by rwa [hentry])
  have hup : u32 (fs.nfc + 1) = fs.nfc + 1 := by
    have hsize := h.size
    exact u32_of_range (by omega) (by omega)
  simp only [removePass, get_entry_mem hn, hentry, set_entry_mem hn, u32_sub_two h hn]
  rw [if_neg hne, if_neg (h.mem_ne_EOC hnext), if_neg (not_not_intro rfl), if_pos hnfc,
    if_pos (mem_clusters.mp hnext).2, hup]
  rfl

theorem removePass_last (h : fs.Chains ([n] :: others)) :
    removePass (fs, n) = some (.done (E_FAILDEV, fs)) := by
  have hn : n ∈ fs.clusters := h.layout.mem_dom List.mem_cons_self List.mem_cons_self
  have hentry : fs.entry n = EOC := h.layout.linked _ List.mem_cons_self
  simp only [removePass, get_entry_mem hn, hentry]
  rw [if_neg (by decide)]
  exact if_pos trivial

theorem Chains.dropped (h : fs.Chains ((n :: next :: rest) :: others)) :
    (fs.dropped n).Chains ((next :: rest) :: others) := by
  have hn : n ∈ fs.clusters := h.layout.mem_dom List.mem_cons_self List.mem_cons_self
  have hused : fs.entry n ≠ 0 :=
    h.layout.used_ne_free (by decide) zero_notMem_clusters List.mem_cons_self List.mem_cons_self
  refine ⟨h.layout.dropHead, ?_, h.size⟩
  exact (congrArg (· + 1) h.count).trans (card_freePlaces_free hn hused).symm

/-- The loop clears a chain down to its last cluster, and takes that one for an error. -/
theorem removeLoop_chain {fuel : Nat} (h : fs.Chains ((n :: rest) :: others))
    (hfuel : rest.length < fuel) :
    ∃ last fs', loop removePass fuel (fs, n) = some (E_FAILDEV, fs') ∧
      fs'.n_entries = fs.n_entries ∧ fs'.Chains ([last] :: others) ∧
      (n :: rest).getLast? = some last := by
  induction rest generalizing fs n fuel with
  | nil =>
      obtain ⟨fuel, rfl⟩ := Nat.exists_eq_succ_of_ne_zero (Nat.ne_zero_of_lt hfuel)
      exact ⟨n, fs, loop_done (removePass_last h), rfl, h, rfl⟩
  | cons next rest ih =>
      obtain ⟨fuel, rfl⟩ := Nat.exists_eq_succ_of_ne_zero (Nat.ne_zero_of_lt hfuel)
      rcases ih h.dropped (Nat.lt_of_succ_lt_succ hfuel) with ⟨last, fs', hrun, hsame, hchains, hlast⟩
      refine ⟨last, fs', ?_, hsame, hchains, ?_⟩
      · rw [loop_again (removePass_link h), hrun]
      · rw [List.getLast?_cons_cons, hlast]

theorem remove_chain_first {fuel : Nat} {c : List Nat} (h : fs.Chains (c :: others))
    (hfirst : c.head? = some n) (hfuel : fs.n_entries < fuel) :
    ∃ last fs', remove_chain fuel fs n 0 = some (E_FAILDEV, fs') ∧
      fs'.n_entries = fs.n_entries ∧ fs'.Chains ([last] :: others) ∧ c.getLast? = some last := by
  obtain ⟨rest, rfl⟩ : ∃ rest, c = n :: rest := by
    cases c with
    | nil => cases hfirst
    | cons head rest => exact ⟨rest, by rw [Option.some.inj hfirst]⟩
  have hn : n ∈ fs.clusters := h.layout.mem_dom List.mem_cons_self List.mem_cons_self
  have hlength := h.layout.length_le List.mem_cons_self
  rw [card_clusters, List.length_cons] at hlength
  have hshort : rest.length < fuel := by omega
  rcases removeLoop_chain h hshort with ⟨last, fs', hrun, hrest⟩
  refine ⟨last, fs', ?_, hrest⟩
  rw [mem_clusters] at hn
  rw [remove_chain, if_neg (by omega)]
  exact hrun

end Entries

/-! ## Starting a chain -/

section Search

variable {fs : Table} {chains : List (List Nat)} {i k : Nat}

theorem hint_bounds (hk : k ∈ fs.clusters) : 1 ≤ fs.hint ∧ fs.hint ≤ fs.n_entries := by
  rw [mem_clusters] at hk
  unfold hint
  split <;> omega

/-- Where the search is before it looks at `scanned i`. -/
def before (fs : Table) (i : Nat) : Nat := if i = 0 then fs.hint else fs.scanned (i - 1)

theorem before_zero (fs : Table) : fs.before 0 = fs.hint := if_pos rfl

theorem before_succ (fs : Table) (i : Nat) : fs.before (i + 1) = fs.scanned i :=
  if_neg (Nat.succ_ne_zero i)

theorem scanned_mem (hhint : 1 ≤ fs.hint) (hi : i < fs.n_entries - 2) :
    fs.scanned i ∈ fs.clusters := by
  rw [mem_clusters]
  simp only [scanned]
  split <;> omega

/-- The search looks at every cluster. -/
theorem exists_scanned (hk : k ∈ fs.clusters) : ∃ i < fs.n_entries - 2, fs.scanned i = k := by
  have hhint := hint_bounds hk
  rw [mem_clusters] at hk
  simp only [scanned]
  by_cases hup : min (fs.hint + 1) fs.n_entries ≤ k
  · refine ⟨k - min (fs.hint + 1) fs.n_entries, by omega, ?_⟩
    rw [if_pos (by omega)]
    omega
  · refine ⟨fs.n_entries - min (fs.hint + 1) fs.n_entries + (k - 2), by omega, ?_⟩
    rw [if_neg (by omega)]
    omega

/-- One step up, or back to the first cluster. -/
theorem scanned_eq (hhint : 1 ≤ fs.hint ∧ fs.hint ≤ fs.n_entries) (hi : i < fs.n_entries - 2) :
    fs.scanned i = (if fs.before i + 1 ≥ fs.n_entries then 2 else fs.before i + 1) ∧
      (fs.before i + 1 ≥ fs.n_entries → 2 ≤ fs.hint) := by
  cases i with
  | zero =>
      simp only [scanned, before, if_true]
      split_ifs <;> omega
  | succ i =>
      simp only [before_succ, scanned]
      split_ifs <;> omega

/-- What the search looks at before the last cluster is not where it started. -/
theorem scanned_ne_hint (hhint : 1 ≤ fs.hint ∧ fs.hint ≤ fs.n_entries)
    (hi : i + 1 < fs.n_entries - 2) : fs.scanned i ≠ fs.hint := by
  simp only [scanned]
  split <;> omega

theorem before_lt (hsize : fs.n_entries ≤ 0xFFFFFFFF) (hstart : fs.hint < 0xFFFFFFFF)
    (hhint : 1 ≤ fs.hint) (hi : i < fs.n_entries - 2) : fs.before i + 1 < 4294967296 := by
  cases i with
  | zero => exact Nat.succ_lt_succ hstart
  | succ i =>
      have hmem := mem_clusters.mp (scanned_mem hhint (Nat.lt_of_succ_lt hi))
      rw [before_succ]
      omega

theorem searchPass_before (hsize : fs.n_entries ≤ 0xFFFFFFFF) (hstart : fs.hint < 0xFFFFFFFF)
    (hhint : 1 ≤ fs.hint ∧ fs.hint ≤ fs.n_entries) (hi : i < fs.n_entries - 2) :
    fs.searchPass fs.hint (fs.before i) =
      if fs.entry (fs.scanned i) = 0 then some (.done (.ok (fs.scanned i)))
      else if fs.entry (fs.scanned i) = 1 ∨ fs.entry (fs.scanned i) = 0xFFFFFFFF then
        some (.done (.error (fs.entry (fs.scanned i))))
      else if fs.scanned i = fs.hint then some (.done (.error 0))
      else some (.again (fs.scanned i)) := by
  obtain ⟨hscanned, hwrap⟩ := scanned_eq hhint hi
  have hup : u32 (fs.before i + 1) = fs.before i + 1 :=
    u32_of_range (by omega) (before_lt hsize hstart hhint.1 hi)
  simp only [searchPass, hup]
  rw [if_neg (fun h => by have := hwrap h.1; omega), ← hscanned, get_entry_mem (scanned_mem hhint.1 hi)]

/-- The first cluster with a given kind of entry, in the order of the search. -/
theorem exists_first {p : Nat → Prop} (hk : k ∈ fs.clusters) (hp : p (fs.entry k)) :
    ∃ i < fs.n_entries - 2, p (fs.entry (fs.scanned i)) ∧
      ∀ j < i, ¬ p (fs.entry (fs.scanned j)) := by
  classical
  have hexists : ∃ i, i < fs.n_entries - 2 ∧ p (fs.entry (fs.scanned i)) := by
    rcases exists_scanned hk with ⟨i, hi, rfl⟩
    exact ⟨i, hi, hp⟩
  obtain ⟨hlt, hfound⟩ := Nat.find_spec hexists
  refine ⟨Nat.find hexists, hlt, hfound, fun j hj hpj => ?_⟩
  exact Nat.find_min hexists hj ⟨Nat.lt_trans hj hlt, hpj⟩

/-- The search passes over the used clusters up to the first that is free or the last of a chain. -/
theorem search_first (h : fs.Chains chains) (hstart : fs.hint < 0xFFFFFFFF)
    (hhint : 1 ≤ fs.hint ∧ fs.hint ≤ fs.n_entries) (hk : k < fs.n_entries - 2)
    (hstop : fs.entry (fs.scanned k) = 0 ∨ fs.entry (fs.scanned k) = EOC)
    (hgap : ∀ j < k, ¬ (fs.entry (fs.scanned j) = 0 ∨ fs.entry (fs.scanned j) = EOC))
    (hi : i ≤ k) :
    loop (fs.searchPass fs.hint) (k - i + 1) (fs.before i) =
      some (if fs.entry (fs.scanned k) = 0 then .ok (fs.scanned k) else .error EOC) := by
  induction hd : k - i generalizing i with
  | zero =>
      obtain rfl : i = k := Nat.le_antisymm hi (Nat.le_of_sub_eq_zero hd)
      apply loop_done
      rw [searchPass_before h.size hstart hhint hk]
      rcases hstop with hzero | hlast
      · rw [if_pos hzero, if_pos hzero]
      · rw [hlast, if_neg (by decide), if_pos (Or.inr rfl), if_neg (by decide)]
  | succ d ih =>
      have hlt : i < k := by omega
      have hnot := not_or.mp (hgap i hlt)
      have hmem := scanned_mem hhint.1 (Nat.lt_trans hlt hk)
      -- An entry that is neither free nor the last of a chain is a cluster, and so is not 1.
      have hne : ¬ (fs.entry (fs.scanned i) = 1 ∨ fs.entry (fs.scanned i) = 0xFFFFFFFF) := by
        have hentry := ((h.entry_cases hmem).resolve_left hnot.1).resolve_left hnot.2
        rw [mem_clusters] at hentry
        exact not_or.mpr ⟨by omega, hnot.2⟩
      rw [← ih (i := i + 1) hlt (by omega), before_succ]
      apply loop_again
      rw [searchPass_before h.size hstart hhint (Nat.lt_trans hlt hk), if_neg hnot.1, if_neg hne,
        if_neg (scanned_ne_hint hhint (by omega))]

/-! ## The chain that is started -/

/-- The FAT after `create_chain` has taken the cluster `k` for a new chain. -/
def allocated (fs : Table) (k : Nat) : Table :=
  { fs with
    entry := Function.update fs.entry k EOC
    lac := k
    nfc := fs.nfc - 1
    fsiflag := fs.fsiflag ||| 1 }

theorem allocate_zero (h : fs.Chains chains) (hk : fs.Free k) :
    fs.allocate 0 k = (k, fs.allocated k) := by
  have hnfc : fs.nfc ≠ 0 := h.nfc_pos_iff.mpr ⟨k, hk⟩
  have hle := h.nfc_le
  have hsize := h.size
  have hdown : u32 (fs.nfc - 1) = fs.nfc - 1 := u32_of_range (by omega) (by omega)
  simp only [allocate, set_entry_mem hk.1, ne_eq, not_true_eq_false, and_false, if_false, if_true,
    u32_sub_two h hk.1]
  rw [if_pos hle, hdown]
  rfl

theorem Chains.allocated (h : fs.Chains chains) (hk : fs.Free k) :
    (fs.allocated k).Chains ([k] :: chains) := by
  refine ⟨h.layout.start (by decide) zero_notMem_clusters hk.1 hk.2, ?_, h.size⟩
  have hcard := card_freePlaces_mark (show EOC ≠ 0 by decide) hk.1 hk.2
  have hcount := h.count
  exact Nat.sub_eq_of_eq_add (hcount.trans hcard.symm)

theorem create_chain_zero (fuel : Nat) (fs : Table) : create_chain fuel fs 0 =
    if fs.nfc = 0 then some (0, fs)
    else
      match loop (fs.searchPass fs.hint) fuel fs.hint with
      | none => none
      | some (.error stat) => some (stat, fs)
      | some (.ok next) => some (fs.allocate 0 next) := by
  have hstart : fs.searchStart 0 = .ok fs.hint := rfl
  have hne : fs.hint ≠ 0 := by
    unfold hint
    split <;> omega
  simp only [create_chain, hstart, tryNext, if_neg hne, if_true]

theorem create_zero_full (h : fs.Chains chains) (hfull : ¬ ∃ k, fs.Free k) (fuel : Nat) :
    create_chain fuel fs 0 = some (0, fs) := by
  rw [create_chain_zero, if_pos (by_contra fun hne => hfull (h.nfc_pos_iff.mp hne))]

theorem create_zero_first {fuel : Nat} (h : fs.Chains chains) (hfirst : fs.FreeFirst)
    (hfuel : fs.n_entries < fuel) :
    ∃ k, fs.Free k ∧ create_chain fuel fs 0 = some (k, fs.allocated k) := by
  rcases hfirst with ⟨hstart, i, hfree, hi, hgap⟩
  have hhint := hint_bounds hfree.1
  rcases exists_first (p := fun v => v = 0 ∨ v = EOC) hfree.1 (.inl hfree.2) with
    ⟨k, hk, hstop, hbefore⟩
  -- The search cannot stop later than at `i`, and what it stops at before is not the last of a chain.
  have hki : k ≤ i := Nat.le_of_not_lt fun hlt => hbefore i hlt (.inl hfree.2)
  have hzero : fs.entry (fs.scanned k) = 0 := by
    rcases Nat.lt_or_eq_of_le hki with hlt | rfl
    · exact hstop.resolve_right (hgap k hlt)
    · exact hfree.2
  have hfound : fs.Free (fs.scanned k) := ⟨scanned_mem hhint.1 hk, hzero⟩
  have hsearch := search_first h hstart hhint hk hstop hbefore (Nat.zero_le k)
  rw [if_pos hzero, before_zero] at hsearch
  refine ⟨fs.scanned k, hfound, ?_⟩
  rw [create_chain_zero, if_neg (h.nfc_pos_iff.mpr ⟨_, hfound⟩),
    loop_mono hsearch (by omega)]
  exact congrArg some (allocate_zero h hfound)

theorem create_zero_blocked {fuel : Nat} (h : fs.Chains chains) (hfree : ∃ k, fs.Free k)
    (hblocked : ¬ fs.FreeFirst) (hfuel : fs.n_entries < fuel) :
    create_chain fuel fs 0 = some (EOC, fs) := by
  rcases hfree with ⟨f, hf⟩
  have hhint := hint_bounds hf.1
  rw [create_chain_zero, if_neg (h.nfc_pos_iff.mpr ⟨f, hf⟩)]
  by_cases hstart : fs.hint < 0xFFFFFFFF
  · rcases exists_first (p := fun v => v = 0 ∨ v = EOC) hf.1 (.inl hf.2) with
      ⟨k, hk, hstop, hbefore⟩
    have hused : fs.entry (fs.scanned k) ≠ 0 := by
      intro hzero
      exact hblocked ⟨hstart, k, ⟨scanned_mem hhint.1 hk, hzero⟩, hk,
        fun j hj => (not_or.mp (hbefore j hj)).2⟩
    have hsearch := search_first h hstart hhint hk hstop hbefore (Nat.zero_le k)
    rw [if_neg hused, before_zero] at hsearch
    rw [loop_mono hsearch (by omega)]
  · -- The hint is the last number there is: the next one is 0, which has no entry.
    have hsize := h.size
    have hmax : fs.hint = 0xFFFFFFFF := by omega
    have hpass : fs.searchPass fs.hint fs.hint = some (.done (.error EOC)) := by
      have hzero : u32 (fs.hint + 1) = 0 := by
        rw [hmax]
        decide
      have hlow : ¬ 0 ≥ fs.n_entries := by omega
      have hget : fs.get_entry 0 = EOC := if_pos (.inl (by decide))
      simp only [searchPass, hzero]
      rw [if_neg (fun hwrap => hlow hwrap.1), if_neg hlow, hget, if_neg (by decide)]
      exact if_pos (.inr rfl)
    obtain ⟨fuel, rfl⟩ := Nat.exists_eq_succ_of_ne_zero (Nat.ne_zero_of_lt hfuel)
    rw [loop_done hpass]

/-- For the last cluster of a chain the end-of-chain mark is returned before any search. -/
theorem create_chain_last {fuel n : Nat} {c : List Nat} {others : List (List Nat)}
    (h : fs.Chains (c :: others)) (hlast : c.getLast? = some n) :
    create_chain fuel fs n = some (EOC, fs) := by
  have hn : n ∈ fs.clusters := h.layout.mem_dom List.mem_cons_self (List.mem_of_getLast? hlast)
  have hentry : fs.entry n = EOC := linked_last (h.layout.linked c List.mem_cons_self) hlast
  have hne : n ≠ 0 := fun heq => zero_notMem_clusters (heq ▸ hn)
  have hstart : fs.searchStart n = .error EOC := by
    simp only [searchStart, get_entry_mem hn, hentry]
    rw [if_neg hne, if_neg (by decide)]
    exact if_pos trivial
  rw [create_chain, hstart]

end Search

/-! ## Sequences of calls -/

section Calls

variable {fs : Table} {fuel : Nat}

/-- A call that the interface allows returns, leaves cluster chains, and does what it is for exactly
under its condition. -/
theorem call_spec (h : ∃ chains, fs.Chains chains) (hfuel : fs.n_entries < fuel) {c : Call}
    (hallowed : fs.Allowed c) :
    ∃ ret fs', call fuel fs c = some (ret, fs') ∧ fs'.n_entries = fs.n_entries ∧
      (∃ chains, fs'.Chains chains) ∧ (fs.Good c ret fs' ↔ fs.Meets c) := by
  rcases h with ⟨chains, h⟩
  cases c with
  | create_chain n =>
      by_cases hfree : ∃ k, fs.Free k
      · by_cases hmeets : n = 0 ∧ fs.FreeFirst
        · obtain ⟨rfl, hfirst⟩ := hmeets
          rcases create_zero_first h hfirst hfuel with ⟨k, hk, hrun⟩
          refine ⟨k, fs.allocated k, by rw [call, hrun]; rfl, rfl, ⟨_, h.allocated hk⟩, ?_⟩
          refine iff_of_true ⟨fun _ => ⟨k, hk, rfl, ?_, ?_⟩, ?_⟩ fun _ => ⟨rfl, hfirst⟩
          · exact fun _ chains hchains => hchains.allocated hk
          · exact fun hne => absurd rfl hne
          · exact fun hfull => absurd hfree hfull
        · -- The mark comes back, and a cluster was asked for.
          have hrun : create_chain fuel fs n = some (EOC, fs) := by
            rcases hallowed with rfl | ⟨c, others, hchains, hlast⟩
            · exact create_zero_blocked h hfree (fun hfirst => hmeets ⟨rfl, hfirst⟩) hfuel
            · exact create_chain_last hchains hlast
          refine ⟨EOC, fs, by rw [call, hrun]; rfl, rfl, ⟨_, h⟩, ?_⟩
          refine iff_of_false (fun hgood => ?_) fun hall => hmeets (hall hfree)
          rcases hgood.1 hfree with ⟨k, hk, hret, -⟩
          exact h.mem_ne_EOC hk.1 (Int.ofNat.inj hret).symm
      · have hrun : ∃ ret : Nat, create_chain fuel fs n = some (ret, fs) := by
          rcases hallowed with rfl | ⟨c, others, hchains, hlast⟩
          · exact ⟨0, create_zero_full h hfree fuel⟩
          · exact ⟨EOC, create_chain_last hchains hlast⟩
        rcases hrun with ⟨ret, hrun⟩
        refine ⟨ret, fs, by rw [call, hrun]; rfl, rfl, ⟨_, h⟩, ?_⟩
        exact iff_of_true ⟨fun hsome => absurd hsome hfree, fun _ _ hchains => hchains⟩
          fun hsome => absurd hsome hfree
  | remove_chain n =>
      rcases hallowed with ⟨c, others, hchains, hfirst⟩
      rcases remove_chain_first hchains hfirst hfuel with ⟨last, fs', hrun, hsame, hleft, -⟩
      refine ⟨E_FAILDEV, fs', hrun, hsame, ⟨_, hleft⟩, ?_⟩
      exact iff_of_false (fun hgood => absurd hgood.1 (by decide)) not_false

/-- **Cluster chains.** Over every sequence of calls: each call does what it is for exactly if every
call asks for a new chain while the search comes to a free cluster before the last one of any chain,
or asks for a cluster of a full FAT. Every call returns, and leaves disjoint chains that `nfc` agrees
with. -/
theorem cluster_chains_iff (h : ∃ chains, fs.Chains chains) (hfuel : fs.n_entries < fuel)
    {calls : List Call} (hcalls : Guarded (call fuel) Allowed fs calls) :
    (EachCall (call fuel) Good fs calls ↔ Guarded (call fuel) Meets fs calls) ∧
      EachCall (call fuel) (fun _ _ _ fs' => ∃ chains, fs'.Chains chains) fs calls := by
  have hinv : ∀ s c ret t, ((∃ chains, s.Chains chains) ∧ s.n_entries < fuel) → s.Allowed c →
      call fuel s c = some (ret, t) → (∃ chains, t.Chains chains) ∧ t.n_entries < fuel := by
    rintro s c ret t ⟨hs, hsize⟩ hallowed hrun
    rcases call_spec hs hsize hallowed with ⟨ret', t', hrun', hsame, hchains, -⟩
    cases hrun.symm.trans hrun'
    exact ⟨hchains, hsame ▸ hsize⟩
  constructor
  · refine eachCall_iff_guarded_within (fun s => (∃ chains, s.Chains chains) ∧ s.n_entries < fuel)
      (fun s c ret t hs hallowed _ => hinv s c ret t hs hallowed) ?_ ⟨h, hfuel⟩ hcalls
    rintro s c ⟨hs, hsize⟩ hallowed
    rcases call_spec hs hsize hallowed with ⟨ret, t, hrun, -, -, hiff⟩
    constructor
    · rintro ⟨ret', t', hrun', hgood⟩
      cases hrun.symm.trans hrun'
      exact hiff.mp hgood
    · exact fun hmeets => ⟨ret, t, hrun, hiff.mpr hmeets⟩
  · refine eachCall_of_allowed (fun s => (∃ chains, s.Chains chains) ∧ s.n_entries < fuel) ?_
      ⟨h, hfuel⟩ hcalls
    intro s c hs hallowed
    rcases call_spec hs.1 hs.2 hallowed with ⟨ret, t, hrun, -, hchains, -⟩
    exact ⟨ret, t, hrun, hchains, hinv s c ret t hs hallowed hrun⟩

end Calls

/-- A volume of eight clusters that holds the root directory only. -/
def rootOnly (lac : Nat) : Table :=
  { n_entries := 10
    lac
    nfc := 7
    fsiflag := 0
    status := 0
    entry := fun k => if k = 2 then EOC else 0 }

theorem rootOnly_chains (lac : Nat) : (rootOnly lac).Chains [[2]] := by
  refine ⟨⟨?_, ?_, ?_, ?_⟩, ?_, ?_⟩
  · intro c hc
    rw [List.mem_singleton.mp hc]
    show (rootOnly lac).entry 2 = EOC
    rfl
  · exact List.nodup_singleton 2
  · intro k hk
    rw [List.mem_singleton.mp hk]
    exact mem_clusters.mpr ⟨Nat.le_refl 2, by show 2 < 10; decide⟩
  · intro k _ hk
    exact if_neg fun heq => hk (List.mem_singleton.mpr heq)
  · show 7 = ((Finset.Ico 2 10).filter fun k => (if k = 2 then EOC else 0) = 0).card
    decide
  · show 10 ≤ 0xFFFFFFFF
    decide

/-- Right behind the root directory there is a cluster for a new chain. -/
theorem cluster_chains_second :
    EachCall (call 11) Good (rootOnly 2) [.create_chain 0] ∧
      ∃ ret fs', call 11 (rootOnly 2) (.create_chain 0) = some (ret, fs') ∧ ret = 3 := by
  refine ⟨(cluster_chains_iff ⟨_, rootOnly_chains 2⟩ (by show 10 < 11; decide) ?_).1.mpr ?_, ?_⟩
  · exact ⟨.inl rfl, fun _ _ _ => trivial⟩
  · refine ⟨fun _ => ⟨rfl, by decide, 0, ⟨?_, rfl⟩, by decide, fun j hj => absurd hj (by omega)⟩,
      fun _ _ _ => trivial⟩
    exact mem_clusters.mpr (by decide)
  · exact ⟨3, _, rfl, rfl⟩

/-- With no hint the search begins at the root directory and returns its mark; the root directory
does not grow, and its chain is not removed. -/
theorem cluster_chains_root :
    (rootOnly 0).Chains [[2]] ∧ (rootOnly 0).Free 3 ∧
      create_chain 11 (rootOnly 0) 0 = some (EOC, rootOnly 0) ∧
      create_chain 11 (rootOnly 0) 2 = some (EOC, rootOnly 0) ∧
      remove_chain 11 (rootOnly 0) 2 0 = some (E_FAILDEV, rootOnly 0) ∧
      ¬ EachCall (call 11) Good (rootOnly 0) [.create_chain 0] ∧
      ¬ EachCall (call 11) Good (rootOnly 0) [.create_chain 2] ∧
      ¬ EachCall (call 11) Good (rootOnly 0) [.remove_chain 2] := by
  have hfree : (rootOnly 0).Free 3 := ⟨mem_clusters.mpr (by decide), rfl⟩
  have hcreate : create_chain 11 (rootOnly 0) 0 = some (EOC, rootOnly 0) := rfl
  have hgrow : create_chain 11 (rootOnly 0) 2 = some (EOC, rootOnly 0) := rfl
  have hremove : remove_chain 11 (rootOnly 0) 2 0 = some (E_FAILDEV, rootOnly 0) := rfl
  have hmark : ∀ n, create_chain 11 (rootOnly 0) n = some (EOC, rootOnly 0) →
      ¬ EachCall (call 11) Good (rootOnly 0) [.create_chain n] := by
    rintro n hrun ⟨ret, fs', hcall, hgood, -⟩
    rw [call, hrun] at hcall
    cases hcall
    rcases hgood.1 ⟨3, hfree⟩ with ⟨k, hk, hret, -⟩
    exact (rootOnly_chains 0).mem_ne_EOC hk.1 (Int.ofNat.inj hret).symm
  refine ⟨rootOnly_chains 0, hfree, hcreate, hgrow, hremove, hmark 0 hcreate, hmark 2 hgrow, ?_⟩
  rintro ⟨ret, fs', hcall, hgood, -⟩
  cases hremove.symm.trans hcall
  exact absurd hgood.1 (by decide)

end Table

end Fat32
end EmbeddedOS
