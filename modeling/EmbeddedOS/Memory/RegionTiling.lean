import EmbeddedOS.Memory.RegionCarve
import Mathlib.Data.List.Nodup

/-!
# Tilings under carving and culling

Carving a block and merging with one neighbour keep the pieces of a region a tiling. The blocks in
use stay where they are, and no merge moves a header into one of them. All of it is about lists of
chunks only.
-/

namespace EmbeddedOS
namespace Memory

open Base

variable {R : Region} {n : Nat} {pre rs l : List Chunk} {a b c d t : Chunk} {lo hi hdr : Nat}

/-! ## Tilings of the blocks -/

/-- The record and the chunk array take their places; the blocks tile what is between. -/
theorem Region.Placed.tiled_iff (hp : R.Placed) :
    R.Tiled ↔ Tiles Chunk.hdr Chunk.stop (R.base + 56) R.blocks (R.arr - 24) := by
  have harr := hp.arr_eq
  have hend : R.arr - 24 + 24 + 8 * R.count = R.base + R.size := by omega
  simp only [Region.Tiled, Region.pieces, List.cons_append, Tiles, Tiles.append_iff,
    Region.infoChunk, Region.arrayChunk, Chunk.stop, hend]
  constructor
  · rintro ⟨_, _, mid, htiles, rfl, _, _⟩
    exact htiles
  · intro htiles
    exact ⟨trivial, by omega, _, htiles, rfl, by omega, trivial⟩

/-- In a tiled region the tail ends where the header of the chunk array begins. -/
theorem Region.Tiled.tail_stop (ht : R.Tiled) (hb : R.blocks = pre ++ [t]) :
    t.stop = R.arr - 24 := by
  have hpieces : R.pieces = (R.infoChunk :: pre) ++ [t, R.arrayChunk] := by
    simp [Region.pieces, hb]
  rw [Region.Tiled, hpieces, Tiles.append_iff] at ht
  rcases ht with ⟨mid, _, _, _, hnext, _⟩
  exact hnext

theorem tiles_growLast (h : Tiles Chunk.hdr Chunk.stop lo l hi) (hl : l ≠ []) :
    Tiles Chunk.hdr Chunk.stop lo (growLast l) (hi + 8) := by
  rcases List.eq_nil_or_concat' l with rfl | ⟨pre, t, rfl⟩
  · exact absurd rfl hl
  · rw [growLast_concat]
    rcases Tiles.append_iff.1 h with ⟨mid, hpre, hstart, hle, hstop⟩
    refine Tiles.append_iff.2 ⟨mid, hpre, hstart, ?_, ?_⟩
    · simp only [Chunk.grow, Chunk.stop]
      omega
    · simp only [Tiles, Chunk.grow, Chunk.stop] at hstop ⊢
      omega

/-- A merge that keeps the header of the first chunk keeps the tiling. -/
theorem tiles_joined (h : Tiles Chunk.hdr Chunk.stop lo (pre ++ a :: b :: rs) hi) :
    Tiles Chunk.hdr Chunk.stop lo (joined a.hdr pre a b rs) (hi + 8) := by
  have hmerge : Tiles Chunk.hdr Chunk.stop lo (pre ++ .merged a.hdr a b :: rs) hi := by
    refine h.merge rfl ?_
    have hab : a.stop = b.hdr := by
      rcases Tiles.append_iff.1 h with ⟨_, _, _, _, hnext, _⟩
      exact hnext
    simp only [Chunk.merged, Chunk.stop] at hab ⊢
    omega
  rcases Tiles.append_iff.1 hmerge with ⟨mid, hpre, hrest⟩
  exact Tiles.append_iff.2 ⟨mid, hpre, tiles_growLast hrest (by simp)⟩

theorem Region.Tiled.joined (ht : R.Tiled) (hs : R.Sound) (hb : R.blocks = pre ++ a :: b :: rs) :
    (R.withBlocks (joined a.hdr pre a b rs)).Tiled := by
  have hord := hs.ordered
  rw [hb] at hord
  have hab : a.hdr ≤ b.hdr := by
    have := hord.split.2.2.1
    simp only [Chunk.addr] at this
    omega
  have hs' := hs.joined hb (Nat.le_refl _) hab
  have harr := hs.arr_eq
  have harr' := hs'.arr_eq
  have hcnt : (R.withBlocks (Memory.joined a.hdr pre a b rs)).count + 1 = R.count := by
    simp [Region.count, hb, Memory.joined]
    omega
  rw [hs'.tiled_iff]
  have htiles := (hs.tiled_iff).1 ht
  rw [hb] at htiles
  have hend : (R.withBlocks (Memory.joined a.hdr pre a b rs)).arr - 24 = R.arr - 24 + 8 := by
    simp only [Region.withBlocks_base, Region.withBlocks_size] at harr'
    omega
  rw [hend]
  exact tiles_joined htiles

theorem Region.Tiled.mark (ht : R.Tiled) (hs : R.Sound) (hb : R.blocks = pre ++ c :: rs)
    (hrs : rs ≠ []) : (R.withBlocks (pre ++ c.culled :: rs)).Tiled := by
  have hs' := hs.mark hb hrs
  have hcnt : (R.withBlocks (pre ++ c.culled :: rs)).count = R.count := by
    simp [Region.count, hb]
  have harr : (R.withBlocks (pre ++ c.culled :: rs)).arr = R.arr := by
    simp only [Region.arr, hcnt, Region.withBlocks_base, Region.withBlocks_size]
  have htiles := (hs.tiled_iff).1 ht
  rw [hb] at htiles
  rw [hs'.tiled_iff, harr]
  exact htiles.replace rfl rfl

theorem HasRoom.tiled (hr : HasRoom R pre t n) (ht : R.Tiled) :
    (R.withBlocks (carved pre t n)).Tiled := by
  have hroom := hr.room
  have htiles := (hr.sound.tiled_iff).1 ht
  rw [hr.blocks] at htiles
  have hstop := ht.tail_stop hr.blocks
  have hb := hr.bounds
  rw [hr.sound_carved.tiled_iff, hr.arr_carved]
  rcases Tiles.append_iff.1 htiles with ⟨mid, hpre, hmid, _⟩
  refine Tiles.append_iff.2 ⟨mid, hpre, hmid, ?_, ?_, ?_, ?_⟩ <;>
    simp only [Tiles, Chunk.block, Chunk.remainder, Chunk.stop] at hstop ⊢ <;> omega

/-! ## Culling on tilings -/

/-- Both neighbours of `c` are free, so that `cull` merges twice. -/
def Sandwiched (c : Chunk) (l : List Chunk) : Prop :=
  ∃ pre a b rs, l = pre ++ a :: c :: b :: rs ∧ a.flag ≠ .reserved ∧ b.flag ≠ .reserved

/-- Unless it merges twice, `cull` keeps the tiling. -/
theorem Released.tiled (hrel : Released c R.blocks l) (hs : R.Sound) (ht : R.Tiled)
    (hc : c.flag = .reserved) (hnot : ¬ Sandwiched c R.blocks) : (R.withBlocks l).Tiled := by
  -- Some chunk follows `c`, as the tail is free.
  have hnext : ∀ {pre' rs' : List Chunk}, R.blocks = pre' ++ c :: rs' → rs' ≠ [] :=
    fun hb => hs.after_reserved hb hc
  generalize hl : R.blocks = l₀ at hrel hnot
  cases hrel with
  | alone _ _ => exact ht.mark hs hl (hnext hl)
  | @left pre rs a hfree hafter =>
      have hl' : R.blocks = (pre ++ [a]) ++ c :: rs := by simp [hl]
      have hmark := ht.mark hs hl' (hnext hl')
      have hsmark := hs.mark hl' (hnext hl')
      have hb' : (R.withBlocks (pre ++ [a] ++ c.culled :: rs)).blocks = pre ++ a :: c.culled :: rs := by
        simp
      exact hmark.joined hsmark hb'
  | right _ hfree =>
      have hmark := ht.mark hs hl (hnext hl)
      exact hmark.joined (hs.mark hl (hnext hl)) (a := c.culled) rfl
  | both ha hb _ => exact absurd ⟨_, _, _, _, rfl, ha, hb⟩ hnot

/-- An element that occurs once splits a list in one way. -/
theorem split_unique {α : Type} {pre pre' rs rs' : List α} {c : α} (hnd : (pre ++ c :: rs).Nodup)
    (heq : pre ++ c :: rs = pre' ++ c :: rs') : pre = pre' ∧ rs = rs' := by
  have hpre : c ∉ pre := fun hmem =>
    (List.nodup_append.1 hnd).2.2 c hmem c List.mem_cons_self rfl
  have hrs : c ∉ rs := (List.nodup_cons.1 (List.nodup_append.1 hnd).2.1).1
  rcases (List.append_cons_inj_of_notMem hpre hrs).1 heq with ⟨h1, _, h2⟩
  exact ⟨h1, h2⟩

/-- A chunk stands at one place of the list only. -/
theorem Region.Placed.nodup (hp : R.Placed) : R.blocks.Nodup := by
  refine hp.ordered.pairwise.imp ?_
  rintro c d hle rfl
  simp only [Chunk.addr] at hle
  omega

/-- The outcome of `cull`, seen from the place of the block. -/
theorem Released.outcome (hrel : Released c R.blocks l) (hp : R.Placed)
    (hb : R.blocks = pre ++ c :: rs) :
    (NoFreeBefore pre ∧ NoFreeAfter rs ∧ l = pre ++ c.culled :: rs) ∨
    (∃ p a, pre = p ++ [a] ∧ a.flag ≠ .reserved ∧ NoFreeAfter rs ∧
      l = joined a.hdr p a c.culled rs) ∨
    (∃ b r, rs = b :: r ∧ NoFreeBefore pre ∧ b.flag ≠ .reserved ∧
      l = joined c.hdr pre c.culled b r) ∨
    ∃ p a b r b' r', pre = p ++ [a] ∧ rs = b :: r ∧ a.flag ≠ .reserved ∧ b.flag ≠ .reserved ∧
      growLast (b :: r) = b' :: r' ∧ l = joined c.hdr p (.merged a.hdr a c.culled) b' r' := by
  have hnd := hp.nodup
  generalize R.blocks = l₀ at hrel hnd hb
  cases hrel with
  | alone hbefore hafter =>
      rcases split_unique hnd hb with ⟨rfl, rfl⟩
      exact .inl ⟨hbefore, hafter, rfl⟩
  | @left p r a ha hafter =>
      have hlist : p ++ a :: c :: r = (p ++ [a]) ++ c :: r := by simp
      rw [hlist] at hnd hb
      rcases split_unique hnd hb with ⟨rfl, rfl⟩
      exact .inr (.inl ⟨p, a, rfl, ha, hafter, rfl⟩)
  | @right p r b hbefore hfree =>
      rcases split_unique hnd hb with ⟨rfl, rfl⟩
      exact .inr (.inr (.inl ⟨b, r, rfl, hbefore, hfree, rfl⟩))
  | @both p r r' a b b' ha hfree hg =>
      have hlist : p ++ a :: c :: b :: r = (p ++ [a]) ++ c :: b :: r := by simp
      rw [hlist] at hnd hb
      rcases split_unique hnd hb with ⟨rfl, rfl⟩
      exact .inr (.inr (.inr ⟨p, a, b, r, b', r', rfl, rfl, ha, hfree, hg, rfl⟩))

/-- Between two blocks in use `cull` only marks the block. -/
theorem Released.alone_of_reserved (hrel : Released c R.blocks l) (hp : R.Placed)
    (hb : R.blocks = pre ++ c :: rs) (hbefore : NoFreeBefore pre) (hafter : NoFreeAfter rs) :
    l = pre ++ c.culled :: rs := by
  rcases hrel.outcome hp hb with h | ⟨p, a, rfl, ha, _⟩ | ⟨b, r, rfl, _, hfree, _⟩ |
    ⟨p, a, b, r, _, _, rfl, _, ha, _⟩
  · exact h.2.2
  · exact absurd (hbefore a (by simp)) ha
  · exact absurd (hafter b (by simp)) hfree
  · exact absurd (hbefore a (by simp)) ha

/-- After a free chunk and before a block in use `cull` merges to the left. -/
theorem Released.left_of_free (hrel : Released c R.blocks l) (hp : R.Placed)
    (hb : R.blocks = pre ++ a :: c :: rs) (ha : a.flag ≠ .reserved) (hafter : NoFreeAfter rs) :
    l = joined a.hdr pre a c.culled rs := by
  have hb' : R.blocks = (pre ++ [a]) ++ c :: rs := by simp [hb]
  rcases hrel.outcome hp hb' with ⟨hbefore, _⟩ | ⟨p, a', hpre, _, _, hl⟩ | ⟨b, r, rfl, _, hfree, _⟩ |
    ⟨_, _, b, r, _, _, _, rfl, _, hfree, _⟩
  · exact absurd (hbefore a (by simp)) ha
  · rcases List.append_inj' hpre rfl with ⟨rfl, ha'⟩
    simp only [List.cons.injEq, and_true] at ha'
    rw [hl, ha']
  · exact absurd (hafter b (by simp)) hfree
  · exact absurd (hafter b (by simp)) hfree

/-- After a block in use and before a free chunk `cull` merges to the right. -/
theorem Released.right_of_free (hrel : Released c R.blocks l) (hp : R.Placed)
    (hb : R.blocks = pre ++ c :: b :: rs) (hbefore : NoFreeBefore pre) (hfree : b.flag ≠ .reserved) :
    l = joined c.hdr pre c.culled b rs := by
  rcases hrel.outcome hp hb with ⟨_, hafter, _⟩ | ⟨p, a, rfl, ha, _⟩ | ⟨b', r, hrs, _, _, hl⟩ |
    ⟨p, a, _, _, _, _, rfl, _, ha, _⟩
  · exact absurd (hafter b (by simp)) hfree
  · exact absurd (hbefore a (by simp)) ha
  · simp only [List.cons.injEq] at hrs
    rcases hrs with ⟨rfl, rfl⟩
    exact hl
  · exact absurd (hbefore a (by simp)) ha

/-- Between two free chunks `cull` merges twice. -/
theorem Released.both_of_between {rs : List Chunk} (hrel : Released c R.blocks l) (hp : R.Placed)
    (hb : R.blocks = pre ++ a :: c :: b :: rs) (ha : a.flag ≠ .reserved)
    (hfree : b.flag ≠ .reserved) :
    ∃ b' rs', growLast (b :: rs) = b' :: rs' ∧
      l = joined c.hdr pre (.merged a.hdr a c.culled) b' rs' := by
  have hb' : R.blocks = (pre ++ [a]) ++ c :: b :: rs := by simp [hb]
  rcases hrel.outcome hp hb' with ⟨hbefore, _⟩ | ⟨_, _, _, _, hafter, _⟩ | ⟨_, _, _, hbefore, _⟩ |
    ⟨p, a', e, r, e', r', hpre, hrs, _, _, hg, hl⟩
  · exact absurd (hbefore a (by simp)) ha
  · exact absurd (hafter b (by simp)) hfree
  · exact absurd (hbefore a (by simp)) ha
  · rcases List.append_inj' hpre rfl with ⟨rfl, ha'⟩
    simp only [List.cons.injEq, and_true] at ha' hrs
    rcases hrs with ⟨rfl, rfl⟩
    exact ⟨e', r', hg, by rw [hl, ha']⟩

/-- What `cull` leaves is determined by the blocks. -/
theorem Released.unique {l' : List Chunk} (hrel : Released c R.blocks l)
    (hrel' : Released c R.blocks l') (hp : R.Placed) (hb : R.blocks = pre ++ c :: rs) : l = l' := by
  rcases hrel.outcome hp hb with ⟨hbefore, hafter, hl⟩ | ⟨p, a, rfl, ha, hafter, hl⟩ |
    ⟨b, r, rfl, hbefore, hfree, hl⟩ | ⟨p, a, b, r, b', r', rfl, rfl, ha, hfree, hg, hl⟩
  · rw [hl, hrel'.alone_of_reserved hp hb hbefore hafter]
  · have hlist : R.blocks = p ++ a :: c :: rs := by simp [hb]
    rw [hl, hrel'.left_of_free hp hlist ha hafter]
  · rw [hl, hrel'.right_of_free hp hb hbefore hfree]
  · have hlist : R.blocks = p ++ a :: c :: b :: r := by simp [hb]
    rcases hrel'.both_of_between hp hlist ha hfree with ⟨d, q, hg', hl'⟩
    rw [hg, List.cons.injEq] at hg'
    rw [hl, hl', hg'.1, hg'.2]

/-- A merge on both sides leaves a gap before the merged chunk. -/
theorem not_tiled_of_between {rs rs' : List Chunk} {b' : Chunk} (hs : R.Sound) (ht : R.Tiled)
    (hb : R.blocks = pre ++ a :: c :: b :: rs) (hg : growLast (b :: rs) = b' :: rs') :
    ¬ (R.withBlocks (joined c.hdr pre (.merged a.hdr a c.culled) b' rs')).Tiled := by
  intro htiled
  have hord := hs.ordered
  rw [hb] at hord
  have hac : a.addr ≤ c.hdr := hord.split.2.2.1
  have haddr : a.addr = a.hdr + 24 := rfl
  rw [hs.tiled_iff, hb] at ht
  rcases Tiles.append_iff.1 ht with ⟨mid, hpre, hmid, _⟩
  rw [Region.Tiled] at htiled
  simp only [Region.pieces, List.cons_append, Tiles, Region.withBlocks_blocks, Memory.joined,
    List.append_assoc] at htiled
  rcases Tiles.append_iff.1 htiled.2.2 with ⟨mid', hpre', hrest⟩
  have hsame : mid = mid' := hpre.end_eq hpre'
  cases rs' with
  | nil =>
      have hstart : mid' = c.hdr := hrest.1
      omega
  | cons e rs' =>
      have hstart : mid' = c.hdr := hrest.1
      omega

/-! ## Blocks in use -/

/-- The last chunk is the unallocated tail. -/
def EndsFree (l : List Chunk) : Prop := ∃ ts t, l = ts ++ [t] ∧ t.flag = .unallocated

theorem EndsFree.last (h : EndsFree (l ++ [t])) : t.flag = .unallocated := by
  rcases h with ⟨ts, u, hts, hfree⟩
  have ht := (List.append_inj' hts rfl).2
  simp only [List.cons.injEq, and_true] at ht
  rw [ht]
  exact hfree

/-- Only the last chunk matters. -/
theorem EndsFree.change (h : EndsFree (pre ++ a :: rs)) (hrs : rs ≠ []) (b : Chunk) :
    EndsFree (pre ++ b :: rs) := by
  rcases List.eq_nil_or_concat' rs with rfl | ⟨mid, t, rfl⟩
  · exact absurd rfl hrs
  · have hlist : pre ++ a :: (mid ++ [t]) = (pre ++ a :: mid) ++ [t] := by simp
    rw [hlist] at h
    exact ⟨pre ++ b :: mid, t, by simp, h.last⟩

theorem EndsFree.joined (h : EndsFree (pre ++ a :: b :: rs)) (hdr : Nat) :
    EndsFree (joined hdr pre a b rs) := by
  rcases List.eq_nil_or_concat' rs with rfl | ⟨mid, t, rfl⟩
  · exact ⟨pre, (Chunk.merged hdr a b).grow, rfl, rfl⟩
  · have hlist : pre ++ a :: b :: (mid ++ [t]) = (pre ++ a :: b :: mid) ++ [t] := by simp
    have hcons : Chunk.merged hdr a b :: (mid ++ [t]) = (.merged hdr a b :: mid) ++ [t] := rfl
    rw [hlist] at h
    refine ⟨pre ++ .merged hdr a b :: mid, t.grow, ?_, h.last⟩
    rw [Memory.joined, hcons, growLast_concat, List.append_assoc]

/-- A merge leaves the blocks in use alone. -/
theorem mem_joined (h : EndsFree (pre ++ a :: b :: rs)) (hd : d ∈ pre ++ a :: b :: rs)
    (hflag : d.flag = .reserved) (ha : d ≠ a) (hb : d ≠ b) (hdr : Nat) :
    d ∈ joined hdr pre a b rs := by
  simp only [List.mem_append, List.mem_cons] at hd
  rcases hd with hd | rfl | rfl | hd
  · exact List.mem_append_left _ hd
  · exact absurd rfl ha
  · exact absurd rfl hb
  · refine List.mem_append_right _ ?_
    rcases List.eq_nil_or_concat' rs with rfl | ⟨mid, t, rfl⟩
    · simp at hd
    · have hlist : pre ++ a :: b :: (mid ++ [t]) = (pre ++ a :: b :: mid) ++ [t] := by simp
      have hcons : Chunk.merged hdr a b :: (mid ++ [t]) = (.merged hdr a b :: mid) ++ [t] := rfl
      rw [hcons, growLast_concat]
      rw [List.mem_append, List.mem_singleton] at hd
      rcases hd with hd | rfl
      · exact List.mem_append_left _ (List.mem_cons_of_mem _ hd)
      · rw [hlist] at h
        rw [h.last] at hflag
        exact absurd hflag (by decide)

/-- Every block in use but the culled one is still there. -/
theorem Released.keeps (hrel : Released c R.blocks l) (hs : R.Sound) (hd : d ∈ R.blocks)
    (hflag : d.flag = .reserved) (hne : d ≠ c) : d ∈ l := by
  have hends : EndsFree R.blocks := hs.tail
  have hfree : ∀ {e : Chunk}, e.flag ≠ .reserved → d ≠ e := by
    rintro e he rfl
    exact he hflag
  have hmark : c.culled.flag ≠ .reserved := by simp [Chunk.culled]
  have hpass : ∀ {pre rs : List Chunk}, d ∈ pre ++ c :: rs → d ∈ pre ++ c.culled :: rs := by
    intro pre rs hmem
    simp only [List.mem_append, List.mem_cons] at hmem ⊢
    rcases hmem with hmem | rfl | hmem
    · exact .inl hmem
    · exact absurd rfl hne
    · exact .inr (.inr hmem)
  generalize R.blocks = l₀ at hrel hd hends
  cases hrel with
  | alone _ _ => exact hpass hd
  | @left pre rs a ha _ =>
      have hlist : ∀ x, pre ++ a :: x :: rs = (pre ++ [a]) ++ x :: rs := by simp
      have hd' : d ∈ pre ++ a :: c.culled :: rs := by
        rw [hlist] at hd ⊢
        exact hpass hd
      by_cases hrs : rs = []
      · subst hrs
        -- The list would end with the block in use.
        simp only [List.mem_append, List.mem_cons, List.not_mem_nil, or_false] at hd
        rcases hd with hd | rfl | rfl
        · exact List.mem_append_left _ hd
        · exact absurd hflag ha
        · exact absurd rfl hne
      · rw [hlist] at hends
        have hends' := hends.change hrs c.culled
        rw [← hlist] at hends'
        exact mem_joined hends' hd' hflag (hfree ha) (hfree hmark) _
  | @right pre rs b _ hb =>
      exact mem_joined (hends.change (by simp) c.culled) (hpass hd) hflag (hfree hmark) (hfree hb) _
  | @both pre rs rs' a b b' ha hb hg =>
      have hlist : ∀ x, pre ++ a :: x :: b :: rs = (pre ++ [a]) ++ x :: b :: rs := by simp
      have hd' : d ∈ pre ++ a :: c.culled :: b :: rs := by
        rw [hlist] at hd ⊢
        exact hpass hd
      rw [hlist] at hends
      have hends' := hends.change (by simp) c.culled
      rw [← hlist] at hends'
      have hfirst := mem_joined hends' hd' hflag (hfree ha) (hfree hmark) a.hdr
      have hends2 := hends'.joined a.hdr
      have hgrown : joined a.hdr pre a c.culled (b :: rs)
          = pre ++ .merged a.hdr a c.culled :: b' :: rs' := by
        rw [joined, growLast_cons _ (by simp), hg]
      have hb' : b'.flag = b.flag := by
        cases rs with
        | nil =>
            simp only [growLast, List.cons.injEq] at hg
            rw [← hg.1]
            rfl
        | cons e rs =>
            simp only [growLast, List.cons.injEq] at hg
            rw [← hg.1]
      rw [hgrown] at hfirst hends2
      exact mem_joined hends2 hfirst hflag (hfree (by simp [Chunk.merged]))
        (hfree (by rw [hb']; exact hb)) _

/-- A block in use after a merge is none of the merged chunks. -/
theorem EndsFree.mem_of_joined (h : EndsFree (pre ++ a :: b :: rs)) (hd : d ∈ Memory.joined hdr pre a b rs)
    (hflag : d.flag = .reserved) : d ∈ pre ∨ d ∈ rs := by
  rcases List.eq_nil_or_concat' rs with rfl | ⟨mid, t, rfl⟩
  · simp only [Memory.joined, growLast, List.mem_append, List.mem_singleton] at hd
    rcases hd with hd | rfl
    · exact .inl hd
    · cases hflag
  · have hlist : pre ++ a :: b :: (mid ++ [t]) = (pre ++ a :: b :: mid) ++ [t] := by simp
    have hcons : Chunk.merged hdr a b :: (mid ++ [t]) = (.merged hdr a b :: mid) ++ [t] := rfl
    rw [hlist] at h
    rw [Memory.joined, hcons, growLast_concat] at hd
    simp only [List.mem_append, List.mem_cons, List.not_mem_nil, or_false] at hd
    rcases hd with hd | (rfl | hd) | rfl
    · exact .inl hd
    · cases hflag
    · exact .inr (List.mem_append_left _ hd)
    · have hfree : t.grow.flag = .unallocated := h.last
      rw [hflag] at hfree
      cases hfree

/-- Every block in use after `cull` was one before, and is not the culled one. -/
theorem Released.mem_before (hrel : Released c R.blocks l) (hs : R.Sound)
    (hb : R.blocks = pre ++ c :: rs) (hrs : rs ≠ []) (hd : d ∈ l) (hflag : d.flag = .reserved) :
    d ∈ R.blocks ∧ d ≠ c := by
  have hnd := hs.nodup
  have hends : EndsFree R.blocks := hs.tail
  rw [hb] at hnd hends
  have hmarked := hends.change hrs c.culled
  have hsides : d ∈ pre ∨ d ∈ rs := by
    rcases hrel.outcome hs.toPlaced hb with ⟨_, _, rfl⟩ | ⟨p, a, rfl, _, _, rfl⟩ |
      ⟨b, r, rfl, _, _, rfl⟩ | ⟨p, a, b, r, b', r', rfl, rfl, _, _, hg, rfl⟩
    · rcases List.mem_append.1 hd with hd | hd
      · exact .inl hd
      · rcases List.mem_cons.1 hd with rfl | hd
        · cases hflag
        · exact .inr hd
    · have hlist : (p ++ [a]) ++ c.culled :: rs = p ++ a :: c.culled :: rs := by simp
      rw [hlist] at hmarked
      rcases hmarked.mem_of_joined hd hflag with hd | hd
      · exact .inl (List.mem_append_left _ hd)
      · exact .inr hd
    · rcases hmarked.mem_of_joined hd hflag with hd | hd
      · exact .inl hd
      · exact .inr (List.mem_cons_of_mem _ hd)
    · have hlist : (p ++ [a]) ++ c.culled :: b :: r = p ++ a :: c.culled :: b :: r := by simp
      rw [hlist] at hmarked
      have hfirst : joined a.hdr p a c.culled (b :: r) = p ++ .merged a.hdr a c.culled :: b' :: r' := by
        rw [joined, growLast_cons _ (by simp), hg]
      have hends1 := hmarked.joined a.hdr
      rw [hfirst] at hends1
      rcases hends1.mem_of_joined hd hflag with hd | hd
      · exact .inl (List.mem_append_left _ hd)
      · -- The chunks after the first merge but the grown tail are those from before.
        have hmem : d ∈ joined a.hdr p a c.culled (b :: r) := by
          rw [hfirst]
          exact List.mem_append_right _ (List.mem_cons_of_mem _ (List.mem_cons_of_mem _ hd))
        rcases hmarked.mem_of_joined hmem hflag with hd | hd
        · exact .inl (List.mem_append_left _ hd)
        · exact .inr hd
  have hpre : c ∉ pre := fun hmem =>
    (List.nodup_append.1 hnd).2.2 c hmem c List.mem_cons_self rfl
  have hcrs : c ∉ rs := (List.nodup_cons.1 (List.nodup_append.1 hnd).2.1).1
  rw [hb]
  rcases hsides with hd | hd
  · exact ⟨List.mem_append_left _ hd, fun heq => hpre (heq ▸ hd)⟩
  · exact ⟨List.mem_append_right _ (List.mem_cons_of_mem _ hd), fun heq => hcrs (heq ▸ hd)⟩

theorem HasRoom.keeps (hr : HasRoom R pre t n) (hd : d ∈ R.blocks) (hflag : d.flag = .reserved) :
    d ∈ carved pre t n := by
  rw [hr.blocks] at hd
  rw [List.mem_append, List.mem_singleton] at hd
  rcases hd with hd | rfl
  · exact List.mem_append_left _ hd
  · rw [hr.free] at hflag
    exact absurd hflag (by decide)

/-! ## Blocks in use among the headers -/

/-- A block in use ends before the headers after it. -/
def Fence (a b : Chunk) : Prop := a.flag = .reserved → a.stop ≤ b.hdr

/-- No header after a block in use lies in the block. -/
def Region.Fenced (R : Region) : Prop := R.blocks.Pairwise Fence

/-- In a tiled region every chunk ends before the next one begins. -/
theorem Region.Tiled.pairwise (ht : R.Tiled) (hp : R.Placed) :
    R.blocks.Pairwise (fun a b => a.stop ≤ b.hdr) :=
  (hp.tiled_iff.1 ht).ascends_self.pairwise

theorem Region.Tiled.fenced (ht : R.Tiled) (hp : R.Placed) : R.Fenced := by
  refine (ht.pairwise hp).imp ?_
  intro a b hle _
  exact hle

theorem fenced_fresh (base size : Nat) : (Region.fresh base size).Fenced :=
  List.pairwise_singleton _ _

/-- In the place of a chunk there may be a free one, if its header does not lie before it. -/
theorem fence_replace (h : (pre ++ a :: rs).Pairwise Fence) (hb : b.flag ≠ .reserved)
    (hle : a.hdr ≤ b.hdr) : (pre ++ b :: rs).Pairwise Fence := by
  rw [List.pairwise_append, List.pairwise_cons] at h ⊢
  rcases h with ⟨hpre, ⟨_, hrs⟩, hcross⟩
  refine ⟨hpre, ⟨fun d _ hflag => absurd hflag hb, hrs⟩, ?_⟩
  intro d hd e he
  rcases List.mem_cons.1 he with rfl | he
  · exact fun hflag => (hcross d hd a List.mem_cons_self hflag).trans hle
  · exact hcross d hd e (List.mem_cons_of_mem _ he)

theorem fence_remove (h : (pre ++ a :: b :: rs).Pairwise Fence) :
    (pre ++ a :: rs).Pairwise Fence :=
  h.sublist (List.Sublist.append_left (List.Sublist.cons_cons a (List.sublist_cons_self b rs)) pre)

theorem fence_growLast (h : l.Pairwise Fence) : (growLast l).Pairwise Fence := by
  rcases List.eq_nil_or_concat' l with rfl | ⟨pre, t, rfl⟩
  · exact .nil
  · rw [growLast_concat]
    rw [List.pairwise_append] at h ⊢
    refine ⟨h.1, List.pairwise_singleton _ _, ?_⟩
    intro d hd e he
    rw [List.mem_singleton.1 he]
    exact h.2.2 d hd t (List.mem_singleton_self t)

theorem growLast_append (pre : List Chunk) (hl : l ≠ []) :
    growLast (pre ++ l) = pre ++ growLast l := by
  rcases List.eq_nil_or_concat' l with rfl | ⟨ts, t, rfl⟩
  · exact absurd rfl hl
  · rw [← List.append_assoc, growLast_concat, growLast_concat, List.append_assoc]

theorem fence_joined (h : (pre ++ a :: b :: rs).Pairwise Fence) (hle : a.hdr ≤ hdr) :
    (joined hdr pre a b rs).Pairwise Fence := by
  have hfree : (Chunk.merged hdr a b).flag ≠ .reserved := by simp [Chunk.merged]
  rw [joined, ← growLast_append pre (by simp)]
  exact fence_growLast (fence_replace (fence_remove h) hfree hle)

/-- `cull` moves no header into a block in use, also when it merges twice. -/
theorem Released.fenced (hrel : Released c R.blocks l) (hs : R.Sound) (hf : R.Fenced) :
    (R.withBlocks l).Fenced := by
  have hord := hs.ordered
  have hmark : c.culled.flag ≠ .reserved := by simp [Chunk.culled]
  unfold Region.Fenced at hf ⊢
  rw [Region.withBlocks_blocks]
  generalize R.blocks = l₀ at hrel hf hord
  cases hrel with
  | alone _ _ => exact fence_replace hf hmark (Nat.le_refl _)
  | @left pre rs a _ _ =>
      have hf' : ((pre ++ [a]) ++ c :: rs).Pairwise Fence := by simpa using hf
      have hmarked : ((pre ++ [a]) ++ c.culled :: rs).Pairwise Fence :=
        fence_replace hf' hmark (Nat.le_refl _)
      exact fence_joined (by simpa using hmarked) (Nat.le_refl _)
  | right _ _ => exact fence_joined (fence_replace hf hmark (Nat.le_refl _)) (Nat.le_refl _)
  | @both pre rs rs' a b b' _ _ hg =>
      have hf' : ((pre ++ [a]) ++ c :: b :: rs).Pairwise Fence := by simpa using hf
      have hmarked : ((pre ++ [a]) ++ c.culled :: b :: rs).Pairwise Fence :=
        fence_replace hf' hmark (Nat.le_refl _)
      have hfirst : (joined a.hdr pre a c.culled (b :: rs)).Pairwise Fence :=
        fence_joined (by simpa using hmarked) (Nat.le_refl _)
      rw [joined, growLast_cons _ (by simp), hg] at hfirst
      have hac : a.hdr + 24 ≤ c.hdr := hord.split.2.2.1
      refine fence_joined hfirst ?_
      simp only [Chunk.merged]
      omega

theorem HasRoom.fenced (hr : HasRoom R pre t n) (hf : R.Fenced) :
    (R.withBlocks (carved pre t n)).Fenced := by
  unfold Region.Fenced at hf ⊢
  rw [hr.blocks] at hf
  rw [Region.withBlocks_blocks, carved]
  have hpair : [t.block n, t.remainder n].Pairwise Fence := by
    refine List.pairwise_pair.2 fun _ => ?_
    simp [Chunk.block, Chunk.remainder, Chunk.stop]
  rw [List.pairwise_append] at hf ⊢
  refine ⟨hf.1, hpair, ?_⟩
  intro d hd e he hflag
  have hle := hf.2.2 d hd t (List.mem_singleton_self t) hflag
  rcases List.mem_cons.1 he with rfl | he
  · exact hle
  · rw [List.mem_singleton.1 he]
    simp only [Chunk.remainder]
    omega

end Memory
end EmbeddedOS
