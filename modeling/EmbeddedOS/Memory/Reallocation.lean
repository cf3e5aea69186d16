import EmbeddedOS.Memory.AllocGrowth

/-!
# Reallocation keeps the data

`change` takes a new block, copies the contents of the old one and culls that. Whatever `cull`
merges, its headers stay inside the bookkeeping, so neither the copy nor any other block loses a
byte.
-/

namespace EmbeddedOS
namespace Memory

open Base Base.ByteMem Stdlib

variable {h n p fuel : Nat} {H : Heap} {s s' : Machine} {live : List (Nat × Nat)} {b d : Nat × Nat}

/-- A tiled heap keeps the invariant for no blocks at all. -/
theorem HeapReady.inv (hH : HeapReady s h H) (ht : H.Tiled) : HeapInv h [] s H :=
  ⟨hH, fun R hR => (ht R hR).fenced (hH.placed.sound R hR).toPlaced, nofun, .nil⟩

/-- Any block in use may be counted among the live ones. -/
theorem HeapInv.cons (hinv : HeapInv h live s H) (hb : Live s.mem h b) (hnew : b ∉ live) :
    HeapInv h (b :: live) s H := by
  refine ⟨hinv.ready, hinv.fenced, ?_, List.nodup_cons.2 ⟨hnew, hinv.nodup⟩⟩
  intro d hd
  rcases List.mem_cons.1 hd with rfl | hd
  · exact hinv.live_iff.1 hb
  · exact hinv.inUse d hd

/-- **Reallocation.** The new block has the contents of the old one as far as both reach, and lies
beside every other block; these keep their contents, and the old one is gone. -/
theorem change_keeps_data (hH : HeapReady s h H) (ht : H.Tiled) (hal : WholePages H.alignment)
    (hb : Live s.mem h b) (hn : n + 32 < 2147483648) (hkernel : KernelHasRoom fuel s h n)
    {s1 : Machine} (halloc : alloc fuel s h n = some (p, s1)) (hp : p ≠ 0) :
    ∃ s', change fuel s h b.1 n = some (p, s') ∧ Live s'.mem h (p, n) ∧
      (∀ k, k < min b.2 n → s'.mem (p + k) = s.mem (b.1 + k)) ∧
      (∀ z, ¬ Live s'.mem h (b.1, z)) ∧
      ∀ d, Live s.mem h d → d ≠ b →
        Live s'.mem h d ∧ NoOverlap (p, n) d ∧ AgreeOn s'.mem s.mem d.1 (d.1 + d.2) := by
  have hinv := (hH.inv ht).cons hb List.not_mem_nil
  have hfits := allocFits_of_returns hH hal hn hkernel halloc
  have hclear := fun i => hH.tailClear (i := i) ht hn
  obtain ⟨s', hrun⟩ : ∃ s', change fuel s h b.1 n = some (p, s') :=
    ⟨_, hinv.change_eq List.mem_cons_self hn hfits hclear halloc⟩
  rcases hinv.change List.mem_cons_self hn hfits hclear hrun with ⟨H', hinv', hmoved, _⟩
  refine ⟨s', hrun, hinv'.live_iff.2 (hinv'.inUse _ List.mem_cons_self), ?_, ?_, ?_⟩
  · intro k hk
    exact hmoved.copied k (by omega) (by omega)
  · intro z hz
    rcases hinv'.live_iff.1 hz with ⟨Q, hQ, huse⟩
    exact hmoved.released Q hQ z huse
  · intro d hd hne
    -- The same call, with `d` among the live blocks.
    have hinv2 := hinv.cons hd (by simpa using hne)
    have hbmem : b ∈ [d, b] := by simp
    rcases hinv2.change hbmem hn hfits hclear hrun with ⟨H2, hinv2', hmoved2, _⟩
    have hkept : d ∈ [d, b].erase b := (hinv2.nodup.mem_erase_iff).2 ⟨hne, List.mem_cons_self⟩
    have hd' := List.mem_cons_of_mem (p, n) hkept
    have hpd : (p, n) ≠ d := by
      rintro rfl
      exact (List.nodup_cons.1 hinv2'.nodup).1 hkept
    exact ⟨hinv2'.live_iff.2 (hinv2'.inUse d hd'), hinv2'.noOverlap List.mem_cons_self hd' hpd,
      hmoved2.same d hkept⟩

/-- A block of 8 bytes in a new heap is reallocated to 16 bytes. -/
theorem change_keeps_data_new_heap : ∃ (s s' : Machine) (p : Nat),
    change 1 s 4176 16777296 16 = some (p, s') ∧ Live s'.mem 4176 (p, 16) ∧
      (∀ k, k < min 8 16 → s'.mem (p + k) = s.mem (16777296 + k)) := by
  rcases exists_created with ⟨s, _, hready, _⟩
  have htiled0 : ∀ Q ∈ [Region.fresh 16777216 4096], Q.Tiled := by
    intro Q hQ
    rw [List.mem_singleton.1 hQ]
    exact Region.tiled_fresh (by decide)
  have hblocks0 : (Region.fresh 16777216 4096).blocks = [] ++ [⟨16777272, 3968, .unallocated⟩] := rfl
  rcases hready.alloc_first (n := 8) rfl htiled0 hblocks0 rfl (by decide) (by decide) with
    ⟨s1, _, _, hready1⟩
  have htiled1 : ∀ Q ∈ [Region.mk 16777216 4096
      [⟨16777272, 8, .reserved⟩, ⟨16777304, 3928, .unallocated⟩]], Q.Tiled := by
    intro Q hQ
    rw [List.mem_singleton.1 hQ]
    simp [Region.Tiled, Region.pieces, Tiles, Region.infoChunk, Region.arrayChunk, Region.arr,
      Region.count, Chunk.stop]
  rcases hready1.alloc_first (n := 16) rfl htiled1
    (show _ = [⟨16777272, 8, .reserved⟩] ++ [_] from rfl) rfl (by decide) (by decide) with
    ⟨s2, hfits, halloc, _⟩
  have hlive : Live s1.mem 4176 (16777296, 8) := by
    refine (hready1.inv htiled1).live_iff.2 ⟨_, List.mem_cons_self, ⟨16777272, 8, .reserved⟩, ?_, rfl, rfl⟩
    exact List.mem_cons_self
  have hkernel : KernelHasRoom 1 s1 4176 16 := by
    intro hnone
    have hfull := alloc_last_without_room hnone hready1.image.alignment (by decide)
    rw [hfull] at halloc
    cases halloc
  rcases change_keeps_data hready1 htiled1 (by decide) hlive (by decide) hkernel halloc (by decide) with
    ⟨s', hrun, hblock, hdata, _⟩
  exact ⟨s1, s', _, hrun, hblock, hdata⟩

end Memory
end EmbeddedOS
