import EmbeddedOS.Fs.BlockMapSet
import EmbeddedOS.Fs.BlockMapTree

/-!
# Setting an entry of the block map

`set_disk_block_number` as one descent for all levels: it sets one entry of a tree, and creates the
index blocks that the path to it lacks. Where no index block is used twice and the new ones hold
zeros, the getter sees the new entry and nothing else changed.
-/

namespace EmbeddedOS
namespace Fs

open Base Base.ByteMem

/-! ## One descent -/

/-- The setter below a pointer of the inode: the index blocks along `es` are passed or created, and
entry `i` of the last one is set. -/
def setAlong (bitmap : Nat → ByteMem) (i : Fin 1024) (v : Nat) :
    Nat → Mounted → Nat → ByteMem → List (Fin 1024) → Option Mounted
  | _, s, block, tmp, [] => setEntry s block tmp (i : Nat) v
  | n, s, block, tmp, e :: es =>
      (childBlock s (bitmap n) block tmp (e : Nat)).bind fun (s, temp, tmp) =>
        setAlong bitmap i v (n + 1) s temp tmp es

section Levels

variable {h : Scratch} {s : Mounted} {inode : ByteMem} {index v : Nat}

theorem root_present {j : Nat} {bitmap : ByteMem} {persist : Mounted → ByteMem → Option Mounted}
    (hroot : blockPtr inode j ≠ 0) :
    alloc_inode_metadata_block s bitmap inode (blockOff j) persist = some (s, inode) :=
  if_neg hroot

/-- The inode cannot be written with its new pointer. -/
theorem root_missing {j r : Nat} {s' : Mounted} {bitmap record : ByteMem}
    (hinode : 0 < s.fs.inode_size) (hroot : blockPtr inode j = 0)
    (halloc : ext2_alloc_block s bitmap = some (r, s')) (hr : r ≠ 0) :
    alloc_inode_metadata_block s bitmap inode (blockOff j) (persistInode record index) = none := by
  have hsize : s'.fs.inode_size = s.fs.inode_size := (allocGroups_volume _ halloc).inode_size
  have hload : load inode (blockOff j) 4 = 0 := hroot
  simp only [alloc_inode_metadata_block, hload, if_true, halloc, Option.bind_some, if_neg hr]
  rw [persistInode_none (by omega), Option.map_none]

/-- The first level; the last block that it takes has no entry there. -/
theorem set_single (hbs : s.fs.block_size = 4096) {a : Nat} (hpos : 0 < a) (ha : a ≤ 1024) :
    set_disk_block_number h s inode index (12 + a) v =
      (alloc_inode_metadata_block s (h.bitmap 0) inode (blockOff 12)
        (persistInode h.record index)).bind fun (s, inode) =>
          (setEntry s (blockPtr inode 12) h.tmp a v).map fun s => (s, inode) := by
  have hp : s.fs.block_size / 4 = 1024 := by rw [hbs]
  have h1 : i32 ((12 + a : Nat) : Int) - 12 = a := by
    rw [i32_natCast (by omega)]
    omega
  have h2 : i32 ((a : Int) - (1024 : Nat)) = (a : Int) - 1024 := i32_of_range (by omega) (by omega)
  simp only [set_disk_block_number, hp, h1, h2]
  rw [if_neg (by omega), if_pos (by omega)]

theorem set_double (hbs : s.fs.block_size = 4096) {b : Nat} (hpos : 0 < b) (hb : b ≤ 1024 * 1024) :
    set_disk_block_number h s inode index (12 + 1024 + b) v =
      (alloc_inode_metadata_block s (h.bitmap 0) inode (blockOff 13)
        (persistInode h.record index)).bind fun (s, inode) =>
          (childBlock s (h.bitmap 1) (blockPtr inode 13) h.tmp (b / 1024 : Nat)).bind
            fun (s, temp, tmp) => (setEntry s temp tmp (b % 1024 : Nat) v).map fun s => (s, inode) := by
  have hp : s.fs.block_size / 4 = 1024 := by rw [hbs]
  have h1 : i32 ((12 + 1024 + b : Nat) : Int) - 12 = 1024 + b := by
    rw [i32_natCast (by omega)]
    omega
  have h2 : i32 ((1024 : Int) + b - (1024 : Nat)) = b := by
    rw [i32_of_range (by omega) (by omega)]
    omega
  have h3 : i32 ((b : Int) - (1024 : Nat) * (1024 : Nat)) = (b : Int) - 1024 * 1024 :=
    i32_of_range (by omega) (by omega)
  have h4 : i32 ((u32 (b : Int) / 1024 : Nat)) = (b / 1024 : Nat) := by
    rw [u32_natCast (by omega), i32_natCast (by omega)]
  have h5 : i32 ((b : Int) - (b / 1024 : Nat) * (1024 : Nat)) = (b % 1024 : Nat) := by
    rw [sub_rows, i32_natCast (by omega)]
  simp only [set_disk_block_number, hp, h1, h2, h3, h4, h5]
  rw [if_neg (by omega), if_neg (by omega), if_pos (by omega)]

theorem set_triple (hbs : s.fs.block_size = 4096) {c : Nat} (hpos : 0 < c)
    (hc : c < 1024 * 1024 * 1024) :
    set_disk_block_number h s inode index (12 + 1024 + 1024 * 1024 + c) v =
      (alloc_inode_metadata_block s (h.bitmap 0) inode (blockOff 14)
        (persistInode h.record index)).bind fun (s, inode) =>
          (childBlock s (h.bitmap 1) (blockPtr inode 14) h.tmp (c / (1024 * 1024) : Nat)).bind
            fun (s, temp, tmp) =>
              (childBlock s (h.bitmap 2) temp tmp (c / 1024 % 1024 : Nat)).bind
                fun (s, temp, tmp) =>
                  (setEntry s temp tmp (c % 1024 : Nat) v).map fun s => (s, inode) := by
  have hp : s.fs.block_size / 4 = 1024 := by rw [hbs]
  have h1 : i32 ((12 + 1024 + 1024 * 1024 + c : Nat) : Int) - 12 = 1024 + 1024 * 1024 + c := by
    rw [i32_natCast (by omega)]
    omega
  have h2 : i32 ((1024 : Int) + 1024 * 1024 + c - (1024 : Nat)) = 1024 * 1024 + c := by
    rw [i32_of_range (by omega) (by omega)]
    omega
  have h3 : i32 ((1024 * 1024 : Int) + c - (1024 : Nat) * (1024 : Nat)) = c := by
    rw [i32_of_range (by omega) (by omega)]
    omega
  have h4 : i32 ((c : Int) - (1024 : Nat) * (1024 : Nat) * (1024 : Nat)) =
      (c : Int) - 1024 * 1024 * 1024 := i32_of_range (by omega) (by omega)
  have h5 : i32 ((u32 (c : Int) / u32 ((1024 : Nat) * (1024 : Nat) : Int) : Nat)) =
      (c / (1024 * 1024) : Nat) := by
    rw [u32_natCast (by omega), ← Nat.cast_mul, u32_natCast (by omega), i32_natCast (by omega)]
  -- What is left behind the first index is below `p * p`.
  have hrest : (c : Int) - (c / (1024 * 1024) : Nat) * (1024 : Nat) * (1024 : Nat) =
      (c % (1024 * 1024) : Nat) := by
    rw [mul_assoc, ← Nat.cast_mul]
    exact sub_rows c (1024 * 1024)
  have h6 : i32 ((u32 ((c : Int) - (c / (1024 * 1024) : Nat) * (1024 : Nat) * (1024 : Nat)) / 1024 :
      Nat)) = (c / 1024 % 1024 : Nat) := by
    rw [hrest, u32_natCast (by omega), Nat.mod_mul_right_div_self, i32_natCast (by omega)]
  have h7 : i32 ((c : Int) - (c / (1024 * 1024) : Nat) * (1024 : Nat) * (1024 : Nat) -
      (c / 1024 % 1024 : Nat) * (1024 : Nat)) = (c % 1024 : Nat) := by
    rw [hrest, ← Nat.mod_mul_right_div_self, sub_rows, Nat.mod_mul_right_mod,
      i32_natCast (by omega)]
  simp only [set_disk_block_number, hp, h1, h2, h3, h4, h5, h6, h7]
  rw [if_neg (by omega), if_neg (by omega), if_neg (by omega), if_pos (by omega)]

/-- Behind the first twelve, a block that setter and getter place alike is set by one descent. -/
theorem set_eq_setAlong (hbs : s.fs.block_size = 4096) {k : Nat} (hk : 12 ≤ k)
    (hk' : k < 12 + 1024 + 1024 * 1024 + 1024 * 1024 * 1024) {r : Fin 3} {i : Fin 1024}
    {es : List (Fin 1024)} (hpath : mapPath k = (r, i :: es.reverse))
    (hedge : k ≠ 12 ∧ k ≠ 12 + 1024 ∧ k ≠ 12 + 1024 + 1024 * 1024)
    (hroot : blockPtr inode (12 + r) ≠ 0) :
    set_disk_block_number h s inode index k v =
      (setAlong h.bitmap i v 1 s (blockPtr inode (12 + r)) h.tmp es).map fun s => (s, inode) := by
  obtain ⟨up, hup⟩ : ∃ up, up = es.reverse := ⟨_, rfl⟩
  obtain rfl : es = up.reverse := by rw [hup, List.reverse_reverse]
  rw [List.reverse_reverse] at hpath
  clear hup
  -- Level by level; only the roots and the number of passed index blocks differ.
  rcases mapPlace_cases hk' with h0 | ⟨a, rfl⟩ | ⟨c, d, rfl⟩ | ⟨e, f, g, rfl⟩
  · omega
  · rw [mapPath_single, Prod.mk.injEq, List.cons.injEq] at hpath
    rcases hpath with ⟨rfl, rfl, rfl⟩
    have hroot : blockPtr inode 12 ≠ 0 := hroot
    rw [set_single hbs (by omega) (by omega), root_present hroot, Option.bind_some]
    rfl
  · rw [mapPath_double, Prod.mk.injEq, List.cons.injEq] at hpath
    rcases hpath with ⟨rfl, rfl, rfl⟩
    have hrow : ((c : Nat) * 1024 + d) / 1024 = c := by omega
    have hlast : ((c : Nat) * 1024 + d) % 1024 = d := by omega
    have hroot : blockPtr inode 13 ≠ 0 := hroot
    rw [set_double hbs (by omega) (by omega), hrow, hlast, root_present hroot, Option.bind_some]
    simp only [List.reverse_singleton, setAlong, Option.map_bind]
    rfl
  · rw [mapPath_triple, Prod.mk.injEq, List.cons.injEq] at hpath
    rcases hpath with ⟨rfl, rfl, rfl⟩
    have hfirst : (((e : Nat) * 1024 + f) * 1024 + g) / (1024 * 1024) = e := by omega
    have hmiddle : (((e : Nat) * 1024 + f) * 1024 + g) / 1024 % 1024 = f := by omega
    have hlast : (((e : Nat) * 1024 + f) * 1024 + g) % 1024 = g := by omega
    have hroot : blockPtr inode 14 ≠ 0 := hroot
    rw [set_triple hbs (by omega) (by omega), hfirst, hmiddle, hlast, root_present hroot,
      Option.bind_some]
    simp only [List.reverse_cons, List.reverse_nil, List.nil_append, List.singleton_append, setAlong,
      Option.map_bind, Function.comp_def]
    rfl

end Levels

/-! ## Blocks that are written back -/

theorem allocGroups_lt {B : Bitmap} {s s' : Mounted} {buf : ByteMem} {i n r : Nat}
    (h : allocGroups B s buf i n = some (r, s')) : r < 4294967296 := by
  induction n generalizing i buf with
  | zero =>
      cases h
      exact u32_lt _
  | succ n ih =>
      rw [allocGroups] at h
      split at h
      · exact ih h
      · simp only at h
        split at h
        · exact ih h
        · obtain ⟨disk, -, heq⟩ := Option.map_eq_some_iff.mp h
          cases heq
          exact u32_lt _

section Entries

variable {fs fs' : EXT2} {disk disk' inode buf tmp : ByteMem} {s s' : Mounted} {b block j : Nat}

/-- A written block has the entries of the buffer, under all its numbers; the others stay. -/
theorem diskEntry_written (hbs : fs.block_size = 4096) (hj : j < 1024) :
    fs.diskEntry (write_disk_block fs disk block buf 0) b j =
      if fs.sectorOf b = fs.sectorOf block then load buf (4 * j) 4 else fs.diskEntry disk b j := by
  have hsec : fs.block_size / 512 = 8 := by rw [hbs]
  rw [EXT2.diskEntry, write_disk_block, hsec]
  by_cases hsame : fs.sectorOf b = fs.sectorOf block
  · rw [if_pos hsame, hsame]
    apply load_shift
    intro x hx
    rw [devWrite_inside (by omega) (by omega)]
    congr 1
    omega
  · rw [if_neg hsame]
    apply load_shift
    intro x hx
    have hapart := sectorOf_apart hsame
    rw [devWrite_outside (by omega)]

theorem load_store_entry {i v : Nat} (hv : v < 4294967296) :
    load (store buf (4 * i) 4 v) (4 * j) 4 = if j = i then v else load buf (4 * j) 4 := by
  by_cases hji : j = i
  · rw [if_pos hji, hji, load_store_same]
    exact Nat.mod_eq_of_lt hv
  · rw [if_neg hji]
    exact load_store_disjoint (by omega)

theorem mapTree_volume (h : SameVolume fs fs') : mapTree fs' disk inode = mapTree fs disk inode := by
  obtain ⟨BGD, rfl⟩ := h
  rfl

theorem sectorOf_volume (h : SameVolume fs fs') : fs'.sectorOf = fs.sectorOf := by
  obtain ⟨BGD, rfl⟩ := h
  rfl

theorem SameVolume.block_size (h : SameVolume fs fs') : fs'.block_size = fs.block_size := by
  obtain ⟨BGD, rfl⟩ := h
  rfl

theorem tmpOff_eq (hbs : fs.block_size = 4096) (i : Fin 1024) :
    tmpOff fs (i : Nat) = some (4 * (i : Nat)) := by
  rw [tmpOff, if_pos (by omega), Int.toNat_natCast]

/-- The block `block` with entry `i` set, as it is written back to a disk that may be another. -/
def withEntry (fs : EXT2) (disk disk' : ByteMem) (block i v : Nat) (tmp : ByteMem) : ByteMem :=
  write_disk_block fs disk' block (store (read_disk_block fs disk block tmp) (4 * i) 4 v) 0

theorem diskEntry_withEntry (hbs : fs.block_size = 4096) {i v : Nat} (hv : v < 4294967296)
    (hj : j < 1024) :
    fs.diskEntry (withEntry fs disk disk' block i v tmp) b j =
      if fs.sectorOf b = fs.sectorOf block then if j = i then v else fs.diskEntry disk b j
      else fs.diskEntry disk' b j := by
  rw [withEntry, diskEntry_written hbs hj, load_store_entry hv, load_read_disk_block fs _ _ _ hj]
  by_cases hsame : fs.sectorOf b = fs.sectorOf block
  · simp only [EXT2.diskEntry, hsame]
  · rw [if_neg hsame, if_neg hsame]

theorem setEntry_eq (hbs : s.fs.block_size = 4096) (i : Fin 1024) (v : Nat) :
    setEntry s block tmp (i : Nat) v =
      some ⟨s.fs, withEntry s.fs s.disk s.disk block i v tmp⟩ := by
  rw [setEntry, tmpOff_eq hbs]
  rfl

/-- A block that is there is passed. -/
theorem childBlock_present (hbs : s.fs.block_size = 4096) {e : Fin 1024} {bitmap : ByteMem}
    (h : s.fs.diskEntry s.disk block e ≠ 0) :
    childBlock s bitmap block tmp (e : Nat) =
      some (s, s.fs.diskEntry s.disk block e, read_disk_block s.fs s.disk block tmp) := by
  have hload : load (read_disk_block s.fs s.disk block tmp) (4 * e) 4 =
      s.fs.diskEntry s.disk block e := load_read_disk_block _ _ _ _ e.isLt
  rw [childBlock, tmpOff_eq hbs, Option.bind_some]
  simp only [alloc_inode_metadata_block]
  rw [if_neg (hload.symm ▸ h), Option.map_some, hload]

/-- What the volume is when `s'` is that after the allocation of `r`, and `r` is linked. -/
def linked (s s' : Mounted) (block e r : Nat) (tmp : ByteMem) : Mounted :=
  ⟨s'.fs, withEntry s.fs s.disk s'.disk block e r tmp⟩

/-- A block that is missing is allocated and linked. -/
theorem childBlock_missing (tmp : ByteMem) (hbs : s.fs.block_size = 4096) {e : Fin 1024}
    {bitmap : ByteMem} {r : Nat} (h : s.fs.diskEntry s.disk block e = 0)
    (halloc : ext2_alloc_block s bitmap = some (r, s')) (hr : r ≠ 0) :
    ∃ tmp', childBlock s bitmap block tmp (e : Nat) =
      some (linked s s' block e r tmp, r, tmp') := by
  have hload : load (read_disk_block s.fs s.disk block tmp) (4 * e) 4 = 0 :=
    (load_read_disk_block _ _ _ _ e.isLt).trans h
  have hvol : SameVolume s.fs s'.fs := allocGroups_volume _ halloc
  have hlt : r < 4294967296 := allocGroups_lt halloc
  have hnew : load (store (read_disk_block s.fs s.disk block tmp) (4 * e) 4 r) (4 * e) 4 = r := by
    rw [load_store_entry hlt, if_pos rfl]
  refine ⟨store (read_disk_block s.fs s.disk block tmp) (4 * e) 4 r, ?_⟩
  rw [childBlock, tmpOff_eq hbs, Option.bind_some]
  simp only [alloc_inode_metadata_block]
  rw [if_pos hload, halloc, Option.bind_some]
  simp only [if_neg hr, persistBuffer, Option.map_some, hnew]
  obtain ⟨BGD, hfs⟩ := hvol
  rw [linked, withEntry]
  simp only [hfs]
  rfl

/-- What a read fills is all that is written. -/
theorem withEntry_congr (hbs : fs.block_size = 4096) (i v : Nat) (tmp' : ByteMem) :
    withEntry fs disk disk' block i v tmp = withEntry fs disk disk' block i v tmp' := by
  have hsec : fs.block_size / 512 = 8 := by rw [hbs]
  funext x
  rw [withEntry, withEntry, write_disk_block, write_disk_block, hsec]
  -- The buffer counts inside of the block only, and there it has been read over.
  rcases Nat.lt_or_ge x (512 * fs.sectorOf block) with hlo | hlo
  · rw [devWrite_outside (Or.inl hlo), devWrite_outside (Or.inl hlo)]
  · rcases Nat.lt_or_ge x (512 * fs.sectorOf block + 512 * 8) with hhi | hhi
    · rw [devWrite_inside hlo hhi, devWrite_inside hlo hhi]
      unfold store
      rw [read_disk_block, read_disk_block, devRead_inside (by omega) (by omega),
        devRead_inside (by omega) (by omega)]
    · rw [devWrite_outside (Or.inr hhi), devWrite_outside (Or.inr hhi)]

end Entries

/-! ## New index blocks -/

section Allocations

/-- The block is none of the inode's index blocks. -/
structure FreshBlock (inode : ByteMem) (s : Mounted) (r : Nat) : Prop where
  ne_zero : r ≠ 0
  apart : ∀ b, (mapTree s.fs s.disk inode).Node b → s.fs.sectorOf b ≠ s.fs.sectorOf r

/-- Its allocation leaves them as they are, and it holds zeros. -/
structure CleanBlock (inode : ByteMem) (s : Mounted) (r : Nat) (s' : Mounted) : Prop where
  kept : ∀ b, (mapTree s.fs s.disk inode).Node b →
    ∀ j : Fin 1024, s.fs.diskEntry s'.disk b j = s.fs.diskEntry s.disk b j
  zero : ∀ j : Fin 1024, s.fs.diskEntry s'.disk r j = 0

/-- What the setter allocates along `es`, below `block`, is had and meets `P`. -/
def AllocAlong (P : Mounted → Nat → Mounted → Prop) (bitmap : Nat → ByteMem) :
    Nat → Mounted → Nat → List (Fin 1024) → Prop
  | _, _, _, [] => True
  | n, s, block, e :: es =>
      let temp := s.fs.diskEntry s.disk block e
      if temp ≠ 0 then
        AllocAlong P bitmap (n + 1) s temp es
      else
        ∃ r s', ext2_alloc_block s (bitmap n) = some (r, s') ∧ P s r s' ∧
          AllocAlong P bitmap (n + 1) (linked s s' block e r fun _ => 0) r es

theorem AllocAlong.and {P Q : Mounted → Nat → Mounted → Prop} {bitmap : Nat → ByteMem} {n : Nat}
    {s : Mounted} {block : Nat} {es : List (Fin 1024)} (hP : AllocAlong P bitmap n s block es)
    (hQ : AllocAlong Q bitmap n s block es) :
    AllocAlong (fun s r s' => P s r s' ∧ Q s r s') bitmap n s block es := by
  induction es generalizing n s block with
  | nil => trivial
  | cons e es ih =>
      rw [AllocAlong] at hP hQ ⊢
      by_cases htemp : s.fs.diskEntry s.disk block e ≠ 0
      · simp only [if_pos htemp] at hP hQ ⊢
        exact ih hP hQ
      · simp only [if_neg htemp] at hP hQ ⊢
        rcases hP with ⟨r, s', halloc, hp, hrest⟩
        rcases hQ with ⟨r', s'', halloc', hq, hrest'⟩
        cases halloc.symm.trans halloc'
        exact ⟨r, s', halloc, ⟨hp, hq⟩, ih hrest hrest'⟩

end Allocations

/-! ## The descent -/

section Descent

variable {fs' : EXT2} {disk' inode : ByteMem} {s : Mounted} {r : Fin 3} {i : Fin 1024}
  {is es : List (Fin 1024)} {v n : Nat} {bitmap : Nat → ByteMem}

/-- Writing an entry of a block back sets it in the trees. -/
theorem setAt_withEntry (tmp : ByteMem) (hbs : s.fs.block_size = 4096) (hv : v < 4294967296)
    (hvol : SameVolume s.fs fs') (hlen : is.length < (r : Nat) + 1)
    (hne : (mapTree s.fs s.disk inode).walk r is ≠ 0)
    (hkept : ∀ b, (mapTree s.fs s.disk inode).Node b →
      ∀ j : Fin 1024, s.fs.diskEntry disk' b j = s.fs.diskEntry s.disk b j)
    (hbelow : is.length + 1 < (r : Nat) + 1 →
      (mapTree s.fs s.disk inode).walk r (i :: is) = 0 ∧
        s.fs.sectorOf v ≠ s.fs.sectorOf ((mapTree s.fs s.disk inode).walk r is) ∧
        ∀ j : Fin 1024, s.fs.diskEntry disk' v j = 0) :
    IndexTree.SetAt (mapTree s.fs s.disk inode)
      (mapTree fs' (withEntry s.fs s.disk disk' ((mapTree s.fs s.disk inode).walk r is) i v tmp) inode)
      s.fs.sectorOf r is i v := by
  rw [mapTree_volume hvol]
  refine ⟨rfl, rfl, hlen, hne, ?_, ?_, ?_⟩
  · exact (diskEntry_withEntry hbs hv i.isLt).trans (by rw [if_pos rfl, if_pos rfl])
  · intro b j hb hother
    refine (diskEntry_withEntry hbs hv j.isLt).trans ?_
    by_cases hsame : s.fs.sectorOf b = s.fs.sectorOf ((mapTree s.fs s.disk inode).walk r is)
    · have hji : (j : Nat) ≠ i := fun h => (hother.resolve_left (not_not_intro hsame)) (Fin.ext h)
      rw [if_pos hsame, if_neg hji]
      rfl
    · rw [if_neg hsame]
      exact hkept b hb j
  · intro hinner
    obtain ⟨hmissing, hapart, hzero⟩ := hbelow hinner
    refine ⟨hmissing, fun j => (diskEntry_withEntry hbs hv j.isLt).trans ?_⟩
    rw [if_neg hapart]
    exact hzero j

/-- **The descent sets one entry**: the path to it leads to the new value, every other path where
it led before. -/
theorem setAlong_spec (tmp : ByteMem) (hbs : s.fs.block_size = 4096) (hv : v < 4294967296)
    (hU : (mapTree s.fs s.disk inode).Unshared s.fs.sectorOf)
    (hne : (mapTree s.fs s.disk inode).walk r is ≠ 0) (hlen : is.length + es.length = r)
    (halloc : AllocAlong (fun s r s' => FreshBlock inode s r ∧ CleanBlock inode s r s') bitmap n s
      ((mapTree s.fs s.disk inode).walk r is) es) :
    ∃ s', setAlong bitmap i v n s ((mapTree s.fs s.disk inode).walk r is) tmp es = some s' ∧
      SameVolume s.fs s'.fs ∧ (mapTree s'.fs s'.disk inode).walk r (es.reverse ++ is) ≠ 0 ∧
      ∀ r' js, js.length = (mapTree s.fs s.disk inode).depth r' →
        (mapTree s'.fs s'.disk inode).walk r' js =
          if r' = r ∧ js = i :: (es.reverse ++ is) then v
          else (mapTree s.fs s.disk inode).walk r' js := by
  induction es generalizing s n tmp is with
  | nil =>
      rw [List.length_nil, Nat.add_zero] at hlen
      have hset := setAt_withEntry (i := i) tmp hbs hv (SameVolume.refl s.fs) (by omega) hne
        (fun _ _ _ => rfl) (fun hinner => absurd hinner (by omega))
      refine ⟨_, setEntry_eq hbs i v, SameVolume.refl s.fs, ?_, ?_⟩
      · rw [List.reverse_nil, List.nil_append, hset.walk_eq hU (Nat.le_of_lt hset.inner), if_neg]
        · exact hne
        · rintro ⟨-, h⟩
          exact absurd (congrArg List.length h) (by simp)
      · intro r' js hjs
        rw [List.reverse_nil, List.nil_append]
        exact hset.walk_eq hU (Nat.le_of_eq hjs)
  | cons e es ih =>
      rw [List.length_cons] at hlen
      rw [AllocAlong] at halloc
      rw [List.reverse_cons, List.append_assoc, List.singleton_append]
      have hwalk : (mapTree s.fs s.disk inode).walk r (e :: is) =
          s.fs.diskEntry s.disk ((mapTree s.fs s.disk inode).walk r is) e :=
        IndexTree.walk_cons_present hne
      by_cases htemp : s.fs.diskEntry s.disk ((mapTree s.fs s.disk inode).walk r is) e ≠ 0
      · -- The next index block is there.
        simp only [if_pos htemp] at halloc
        rw [← hwalk] at halloc
        rcases ih _ hbs hU (hwalk.symm ▸ htemp) (by rw [List.length_cons]; omega) halloc with
          ⟨s', hrun, hrest⟩
        refine ⟨s', ?_, hrest⟩
        rw [setAlong, childBlock_present hbs htemp, Option.bind_some, ← hwalk]
        exact hrun
      · -- It is created.
        simp only [if_neg htemp] at halloc
        rcases halloc with ⟨b, s₁, hcall, ⟨hfresh, hclean⟩, halloc⟩
        rw [not_not] at htemp
        have hvol : SameVolume s.fs s₁.fs := allocGroups_volume _ hcall
        have hnode : (mapTree s.fs s.disk inode).Node ((mapTree s.fs s.disk inode).walk r is) :=
          ⟨hne, r, is, by change is.length < (r : Nat) + 1; omega, rfl⟩
        have hset := setAt_withEntry (i := e) (fun _ => 0) hbs (allocGroups_lt hcall) hvol
          (by omega) hne hclean.kept fun _ =>
            ⟨hwalk.trans htemp, (hfresh.apart _ hnode).symm, hclean.zero⟩
        -- From here on the linked volume is the one that is descended.
        generalize hs₂ : linked s s₁ ((mapTree s.fs s.disk inode).walk r is) e b (fun _ => 0) = s₂
          at halloc
        have htree : mapTree s₁.fs (withEntry s.fs s.disk s₁.disk
            ((mapTree s.fs s.disk inode).walk r is) e b fun _ => 0) inode =
            mapTree s₂.fs s₂.disk inode := by
          rw [← hs₂]
          rfl
        have hvol₂ : SameVolume s.fs s₂.fs := by
          rw [← hs₂]
          exact hvol
        rw [htree] at hset
        have hnew : (mapTree s₂.fs s₂.disk inode).walk r (e :: is) = b := by
          rw [hset.walk_eq hU (by change is.length + 1 ≤ (r : Nat) + 1; omega), if_pos ⟨rfl, rfl⟩]
        have hU₂ : (mapTree s₂.fs s₂.disk inode).Unshared s₂.fs.sectorOf := by
          rw [sectorOf_volume hvol₂]
          exact hset.unshared hU hfresh.apart
        rw [← hnew] at halloc
        rcases childBlock_missing tmp hbs htemp hcall hfresh.ne_zero with ⟨tmp', hchild⟩
        rcases ih tmp' (hvol₂.block_size.trans hbs) hU₂ (hnew.symm ▸ hfresh.ne_zero)
          (by rw [List.length_cons]; omega) halloc with ⟨s', hrun, hvol', hthere, hpaths⟩
        refine ⟨s', ?_, hvol₂.trans hvol', hthere, ?_⟩
        · rw [linked, withEntry_congr hbs e b (fun _ => 0), ← linked, hs₂] at hchild
          rw [setAlong, hchild, Option.bind_some, ← hnew]
          exact hrun
        · intro r' js hjs
          rw [hpaths r' js hjs]
          -- Linking changed one path only, and that one is shorter than those that end at data.
          by_cases hhere : r' = r ∧ js = i :: (es.reverse ++ e :: is)
          · rw [if_pos hhere, if_pos hhere]
          · rw [if_neg hhere, if_neg hhere, hset.walk_eq hU (Nat.le_of_eq hjs), if_neg]
            rintro ⟨rfl, rfl⟩
            have hdepth : (e :: is).length = (r' : Nat) + 1 := hjs
            rw [List.length_cons] at hdepth
            omega

end Descent

/-! ## Setting a block -/

/-- Whatever the buffers held, the setter returns, and the getter finds the new disk block; every
other block that was assigned it finds as before, and none other is assigned. -/
def SetsBlock (h : Scratch) (s : Mounted) (inode : ByteMem) (index k : Nat) : Prop :=
  ∀ tmp tmp' v, v < 4294967296 → ∃ s' inode',
    set_disk_block_number { h with tmp := tmp } s inode index k v = some (s', inode') ∧
      get_disk_block_number s'.fs s'.disk inode' tmp' k = some v ∧
      ∀ j, j < 12 + 1024 + 1024 * 1024 + 1024 * 1024 * 1024 → j ≠ k →
        (assigned s.fs s.disk inode j ≠ 0 →
          get_disk_block_number s'.fs s'.disk inode' tmp' j =
            get_disk_block_number s.fs s.disk inode tmp' j) ∧
        (assigned s.fs s.disk inode j = 0 → assigned s'.fs s'.disk inode' j = 0)

/-- `ext2_alloc_block` returns fresh blocks where the setter calls it. -/
def FreshCalls (h : Scratch) (s : Mounted) (inode : ByteMem) (k : Nat) : Prop :=
  12 < k →
    if blockPtr inode (12 + (setterPath k).1) = 0 then
      ∃ r s', ext2_alloc_block s (h.bitmap 0) = some (r, s') ∧ FreshBlock inode s r
    else
      AllocAlong (fun s r _ => FreshBlock inode s r) h.bitmap 1 s
        (blockPtr inode (12 + (setterPath k).1)) (setterPath k).2

/-- What it returns there holds zeros, and the index blocks stay. -/
def CleanCalls (h : Scratch) (s : Mounted) (inode : ByteMem) (k : Nat) : Prop :=
  AllocAlong (CleanBlock inode) h.bitmap 1 s (blockPtr inode (12 + (setterPath k).1)) (setterPath k).2

/-- Setter and getter follow the same pointer of the inode, and it is set. -/
def SameRoot (inode : ByteMem) (k : Nat) : Prop :=
  (k ≠ 12 ∧ k ≠ 12 + 1024 ∧ k ≠ 12 + 1024 + 1024 * 1024) ∧ blockPtr inode (12 + (mapPath k).1) ≠ 0

section Setter

variable {h : Scratch} {s : Mounted} {inode : ByteMem} {index k : Nat}

/-- One of the first twelve blocks. -/
theorem setsBlock_direct (hbs : s.fs.block_size = 4096) (hk : k < 12) :
    SetsBlock h s inode index k := by
  intro tmp tmp' v hv
  obtain ⟨hrun, -⟩ := @set_disk_block_number_direct s inode { h with tmp := tmp } index k v hk hv
  have hother : ∀ j, j ≠ k → blockPtr (store inode (blockOff k) 4 v) j = blockPtr inode j := by
    intro j hjk
    exact load_store_disjoint (by unfold blockOff; omega)
  have hassigned : ∀ j, j ≠ k →
      assigned s.fs s.disk (store inode (blockOff k) 4 v) j = assigned s.fs s.disk inode j := by
    intro j hjk
    have htree : mapTree s.fs s.disk (store inode (blockOff k) 4 v) = mapTree s.fs s.disk inode := by
      simp only [mapTree, IndexTree.mk.injEq, and_true]
      funext r
      exact hother _ (by omega)
    rw [assigned, assigned, hother j hjk, htree]
  refine ⟨s, store inode (blockOff k) 4 v, hrun, ?_, ?_⟩
  · rw [get_direct hk, blockPtr]
    exact congrArg some ((load_store_same _ _ _ _).trans (Nat.mod_eq_of_lt hv))
  · intro j hj hjk
    rw [hassigned j hjk]
    refine ⟨fun hset => ?_, id⟩
    have hset' : assigned s.fs s.disk (store inode (blockOff k) 4 v) j ≠ 0 := by
      rw [hassigned j hjk]
      exact hset
    rw [get_of_assigned hbs hj hset, get_of_assigned hbs hj hset', hassigned j hjk]

/-- A block behind them, where setter and getter agree. -/
theorem setsBlock_indirect (hbs : s.fs.block_size = 4096) (hk : 12 ≤ k)
    (hk' : k < 12 + 1024 + 1024 * 1024 + 1024 * 1024 * 1024) (hroot : SameRoot inode k)
    (hU : (mapTree s.fs s.disk inode).Unshared s.fs.sectorOf) (hfresh : FreshCalls h s inode k)
    (hclean : CleanCalls h s inode k) : SetsBlock h s inode index k := by
  intro tmp tmp' v hv
  have hpath : setterPath k = ((mapPath k).1, (mapPath k).2.tail.reverse) := by
    rw [setterPath, if_neg hroot.1.2.1, if_neg hroot.1.2.2]
  have hfresh := hfresh (by have := hroot.1.1; omega)
  rw [CleanCalls, hpath] at hclean
  rw [hpath, if_neg hroot.2] at hfresh
  have hlen := mapPath_length hk hk'
  cases hplace : mapPath k with
  | mk r is =>
      have hptr := hroot.2
      rw [hplace] at hclean hfresh hlen hptr
      cases is with
      | nil => exact absurd hlen.symm (Nat.succ_ne_zero _)
      | cons i up =>
          have hne : (mapTree s.fs s.disk inode).walk r [] ≠ 0 := hptr
          have hup : ([] : List (Fin 1024)).length + up.reverse.length = (r : Nat) := by
            rw [List.length_nil, List.length_reverse, Nat.zero_add]
            exact Nat.succ.inj hlen
          rcases setAlong_spec (i := i) tmp hbs hv hU hne hup (hfresh.and hclean) with
            ⟨s', hrun, hvol, hthere, hpaths⟩
          rw [List.reverse_reverse, List.append_nil] at hthere hpaths
          have hbs' : s'.fs.block_size = 4096 := hvol.block_size.trans hbs
          have hother : ∀ j, j < 12 + 1024 + 1024 * 1024 + 1024 * 1024 * 1024 → j ≠ k →
              assigned s'.fs s'.disk inode j = assigned s.fs s.disk inode j := by
            intro j hj hjk
            rw [assigned, assigned]
            by_cases h0 : j < 12
            · rw [if_pos h0, if_pos h0]
            · rw [if_neg h0, if_neg h0, hpaths _ _ (mapPath_length (Nat.not_lt.1 h0) hj), if_neg]
              -- Two blocks with one path are one block.
              rintro ⟨hr, his⟩
              refine hjk (mapPath_inj (Nat.not_lt.1 h0) hj hk hk' ?_)
              rw [hplace, ← hr, ← his]
          refine ⟨s', inode, ?_, ?_, ?_⟩
          · have hplace' : mapPath k = (r, i :: up.reverse.reverse) := by
              rw [List.reverse_reverse, hplace]
            have hsame := @set_eq_setAlong { h with tmp := tmp } s inode index v hbs k hk hk' r i
              up.reverse hplace' hroot.1 hptr
            rw [hsame]
            exact (congrArg (Option.map fun s => (s, inode)) hrun).trans rfl
          · rw [get_of_present hbs' hk hk' hplace hthere, ← IndexTree.walk_cons_present hthere,
              hpaths r (i :: up) hlen, if_pos ⟨rfl, rfl⟩]
          · intro j hj hjk
            rw [hother j hj hjk]
            refine ⟨fun hset => ?_, id⟩
            have hset' : assigned s'.fs s'.disk inode j ≠ 0 := by
              rw [hother j hj hjk]
              exact hset
            rw [get_of_assigned hbs hj hset, get_of_assigned hbs' hj hset', hother j hj hjk]

/-! ### Where they disagree -/

/-- Two values after which the getter finds the same cannot both be found. -/
theorem not_setsBlock_of_same {tmp : ByteMem} {v v' : Nat} (hv : v < 4294967296)
    (hv' : v' < 4294967296) (hne : v ≠ v')
    (hsame : ∀ s₁ inode₁ s₂ inode₂,
      set_disk_block_number { h with tmp := tmp } s inode index k v = some (s₁, inode₁) →
      set_disk_block_number { h with tmp := tmp } s inode index k v' = some (s₂, inode₂) →
        get_disk_block_number s₁.fs s₁.disk inode₁ (fun _ => 0) k =
          get_disk_block_number s₂.fs s₂.disk inode₂ (fun _ => 0) k) :
    ¬ SetsBlock h s inode index k := by
  intro hsets
  obtain ⟨s₁, inode₁, hrun, hget, -⟩ := hsets tmp (fun _ => 0) v hv
  obtain ⟨s₂, inode₂, hrun', hget', -⟩ := hsets tmp (fun _ => 0) v' hv'
  have heq := hsame _ _ _ _ hrun hrun'
  rw [hget, hget', Option.some.injEq] at heq
  exact hne heq

/-- The setter overwrites the pointer to the index block that the getter reads. Two disk blocks 2^29
apart start at the same sector. -/
theorem not_setsBlock_twelve (hbs : s.fs.block_size = 4096) : ¬ SetsBlock h s inode index 12 := by
  have hrun : ∀ tmp v, set_disk_block_number { h with tmp := tmp } s inode index 12 v =
      some (s, store inode (blockOff 12) 4 v) := by
    intro tmp v
    have hint : i32 ((12 : Nat) : Int) - 12 = 0 := by
      rw [i32_natCast (by omega)]
      rfl
    simp only [set_disk_block_number, hint]
    rw [if_pos (Int.le_refl 0), if_pos (by omega)]
  have hget : ∀ v < 4294967296, get_disk_block_number s.fs s.disk (store inode (blockOff 12) 4 v)
      (fun _ => 0) 12 = some (s.fs.diskEntry s.disk v 0) := by
    intro v hv
    have hp : s.fs.block_size / 4 = 1024 := by rw [hbs]
    have hptr : blockPtr (store inode (blockOff 12) 4 v) 12 = v :=
      (load_store_same _ _ _ _).trans (Nat.mod_eq_of_lt hv)
    have hsingle := @get_single s.fs s.disk (store inode (blockOff 12) 4 v) (fun _ => 0) 1024 hp
      (Nat.le_refl _) 0 (by omega)
    rwa [hptr] at hsingle
  refine @not_setsBlock_of_same h s inode index 12 (fun _ => 0) 1 536870913 (by omega) (by omega)
    (by omega) ?_
  intro s₁ inode₁ s₂ inode₂ h₁ h₂
  cases (hrun _ _).symm.trans h₁
  cases (hrun _ _).symm.trans h₂
  have hsector : s.fs.sectorOf 536870913 = s.fs.sectorOf 1 := by
    unfold EXT2.sectorOf u32
    omega
  rw [hget 1 (by omega), hget 536870913 (by omega), EXT2.diskEntry, EXT2.diskEntry, hsector]

/-- The entry behind the last of a block is not written back. -/
theorem setEntry_outside (hbs : s.fs.block_size = 4096) (block v : Nat) (tmp : ByteMem) :
    setEntry s block tmp (1024 : Nat) v = some s := by
  have hoff : tmpOff s.fs (1024 : Nat) = some (4 * 1024) := by
    rw [tmpOff, if_pos (by omega), Int.toNat_natCast]
  have hkept : updateEntry s.fs s.disk block tmp 1024 v = s.disk :=
    updateEntry_outside (by omega) (by omega) (by omega)
  rw [setEntry, hoff, Option.map_some]
  exact congrArg (fun disk => some (⟨s.fs, disk⟩ : Mounted)) hkept

/-- Without its pointer in the inode, a block behind the first twelve is not set. -/
theorem set_none (hbs : s.fs.block_size = 4096) (hinode : 0 < s.fs.inode_size) (hk : 12 < k)
    (hk' : k < 12 + 1024 + 1024 * 1024 + 1024 * 1024 * 1024)
    (hroot : blockPtr inode (12 + (setterPath k).1) = 0) {r : Nat} {s' : Mounted}
    (halloc : ext2_alloc_block s (h.bitmap 0) = some (r, s')) (hr : r ≠ 0) (v : Nat) :
    set_disk_block_number h s inode index k v = none := by
  have hnone : ∀ j, blockPtr inode j = 0 → alloc_inode_metadata_block s (h.bitmap 0) inode
      (blockOff j) (persistInode h.record index) = none :=
    fun j hj => root_missing hinode hj halloc hr
  by_cases hsecond : k = 12 + 1024
  · subst hsecond
    rw [set_single hbs (by omega) (by omega), hnone 12 hroot, Option.bind_none]
  by_cases hthird : k = 12 + 1024 + 1024 * 1024
  · subst hthird
    rw [set_double hbs (by omega) (by omega), hnone 13 hroot, Option.bind_none]
  rw [setterPath, if_neg hsecond, if_neg hthird] at hroot
  rcases mapPlace_cases hk' with h0 | ⟨a, rfl⟩ | ⟨c, d, rfl⟩ | ⟨e, f, g, rfl⟩
  · omega
  · rw [mapPath_single] at hroot
    rw [set_single hbs (by omega) (by omega), hnone 12 hroot, Option.bind_none]
  · rw [mapPath_double] at hroot
    rw [set_double hbs (by omega) (by omega), hnone 13 hroot, Option.bind_none]
  · rw [mapPath_triple] at hroot
    rw [set_triple hbs (by omega) (by omega), hnone 14 hroot, Option.bind_none]

/-- The first block of the second level is set behind the entries of the first. -/
theorem not_setsBlock_second (hbs : s.fs.block_size = 4096) (hroot : blockPtr inode 12 ≠ 0) :
    ¬ SetsBlock h s inode index (12 + 1024) := by
  have hrun : ∀ v, set_disk_block_number { h with tmp := fun _ => 0 } s inode index (12 + 1024) v =
      some (s, inode) := by
    intro v
    rw [set_single hbs (by omega) (by omega), root_present hroot, Option.bind_some]
    simp only [setEntry_outside hbs]
    rfl
  refine @not_setsBlock_of_same h s inode index _ (fun _ => 0) 0 1 (by omega) (by omega) (by omega) ?_
  intro s₁ inode₁ s₂ inode₂ h₁ h₂
  cases (hrun 0).symm.trans h₁
  cases (hrun 1).symm.trans h₂
  rfl

/-- There is a block away from three places. -/
theorem exists_apart (fs : EXT2) (p q r : Nat) :
    ∃ x, 0 < x ∧ x < 5 ∧ fs.sectorOf x ≠ p ∧ fs.sectorOf x ≠ q ∧ fs.sectorOf x ≠ r := by
  have hfour : ∀ x, 0 < x → x < 5 → ∀ y, 0 < y → y < 5 → x ≠ y →
      fs.sectorOf x ≠ fs.sectorOf y := by
    intro x _ _ y _ _ hne
    unfold EXT2.sectorOf u32
    omega
  by_contra hnone
  -- Four blocks at three places would be two at one.
  have hall : ∀ x, 0 < x → x < 5 →
      fs.sectorOf x = p ∨ fs.sectorOf x = q ∨ fs.sectorOf x = r := by
    intro x hpos hlt
    by_contra hout
    rw [not_or, not_or] at hout
    exact hnone ⟨x, hpos, hlt, hout⟩
  have h12 := hfour 1 (by omega) (by omega) 2 (by omega) (by omega) (by omega)
  have h13 := hfour 1 (by omega) (by omega) 3 (by omega) (by omega) (by omega)
  have h14 := hfour 1 (by omega) (by omega) 4 (by omega) (by omega) (by omega)
  have h23 := hfour 2 (by omega) (by omega) 3 (by omega) (by omega) (by omega)
  have h24 := hfour 2 (by omega) (by omega) 4 (by omega) (by omega) (by omega)
  have h34 := hfour 3 (by omega) (by omega) 4 (by omega) (by omega) (by omega)
  have h1 := hall 1 (by omega) (by omega)
  have h2 := hall 2 (by omega) (by omega)
  have h3 := hall 3 (by omega) (by omega)
  have h4 := hall 4 (by omega) (by omega)
  omega

/-- The first block of the third level is set in a block whose number the buffer happens to hold. -/
theorem not_setsBlock_third (hbs : s.fs.block_size = 4096) (hroot : blockPtr inode 13 ≠ 0) :
    ¬ SetsBlock h s inode index (12 + 1024 + 1024 * 1024) := by
  obtain ⟨b₀, hb₀⟩ : ∃ b, b = blockPtr inode 14 := ⟨_, rfl⟩
  obtain ⟨b₁, hb₁⟩ : ∃ b, b = s.fs.diskEntry s.disk b₀ 0 := ⟨_, rfl⟩
  obtain ⟨b₂, hb₂⟩ : ∃ b, b = s.fs.diskEntry s.disk b₁ 0 := ⟨_, rfl⟩
  obtain ⟨x, hpos, hlt, hx₀, hx₁, hx₂⟩ :=
    exists_apart s.fs (s.fs.sectorOf b₀) (s.fs.sectorOf b₁) (s.fs.sectorOf b₂)
  let tmp := store (fun _ => 0) (4 * 1024) 4 x
  -- The buffer names `x` behind its last entry, and reading the index block leaves that there.
  have hstale : load (read_disk_block s.fs s.disk (blockPtr inode 13) tmp) (4 * 1024) 4 = x := by
    have hkept : load (read_disk_block s.fs s.disk (blockPtr inode 13) tmp) (4 * 1024) 4 =
        load tmp (4 * 1024) 4 := by
      apply load_congr
      intro y hlo hhi
      exact devRead_outside (Or.inr (by omega))
    rw [hkept, load_store_same]
    exact Nat.mod_eq_of_lt (by omega)
  have hoff : tmpOff s.fs (1024 : Nat) = some (4 * 1024) := by
    rw [tmpOff, if_pos (by omega), Int.toNat_natCast]
  have hchild : childBlock s (h.bitmap 1) (blockPtr inode 13) tmp (1024 : Nat) =
      some (s, x, read_disk_block s.fs s.disk (blockPtr inode 13) tmp) := by
    rw [childBlock, hoff, Option.bind_some]
    simp only [alloc_inode_metadata_block]
    rw [if_neg (by rw [hstale]; omega), Option.map_some, hstale]
  have hrun : ∀ v, ∃ tmp', set_disk_block_number { h with tmp := tmp } s inode index
      (12 + 1024 + 1024 * 1024) v =
        some (⟨s.fs, withEntry s.fs s.disk s.disk x 0 v tmp'⟩, inode) := by
    intro v
    have hdiv : 1024 * 1024 / 1024 = 1024 := rfl
    have hmod : 1024 * 1024 % 1024 = ((0 : Fin 1024) : Nat) := rfl
    refine ⟨read_disk_block s.fs s.disk (blockPtr inode 13) tmp, ?_⟩
    rw [set_double hbs (by omega) (Nat.le_refl _), root_present hroot, Option.bind_some]
    simp only [hdiv, hmod, hchild, Option.bind_some, setEntry_eq hbs, Option.map_some]
    rfl
  -- None of the blocks that the getter passes is `x`.
  have hget : ∀ v < 4294967296, ∀ tmp', get_disk_block_number s.fs
      (withEntry s.fs s.disk s.disk x 0 v tmp') inode (fun _ => 0) (12 + 1024 + 1024 * 1024) =
        some (s.fs.diskEntry s.disk b₂ 0) := by
    intro v hv tmp'
    have hp : s.fs.block_size / 4 = 1024 := by rw [hbs]
    have hentry : ∀ b, s.fs.sectorOf x ≠ s.fs.sectorOf b →
        s.fs.diskEntry (withEntry s.fs s.disk s.disk x 0 v tmp') b 0 =
          s.fs.diskEntry s.disk b 0 := by
      intro b hb
      rw [diskEntry_withEntry hbs hv (by omega), if_neg (Ne.symm hb)]
    have htriple := @get_triple s.fs (withEntry s.fs s.disk s.disk x 0 v tmp') inode (fun _ => 0) 1024
      hp (Nat.le_refl _) 0 (by omega)
    rw [← hb₀, hentry b₀ hx₀, ← hb₁, hentry b₁ hx₁, ← hb₂, hentry b₂ hx₂] at htriple
    exact htriple
  refine @not_setsBlock_of_same h s inode index _ tmp 0 1 (by omega) (by omega) (by omega) ?_
  intro s₁ inode₁ s₂ inode₂ h₁ h₂
  rcases hrun 0 with ⟨tmp₁, hrun₁⟩
  rcases hrun 1 with ⟨tmp₂, hrun₂⟩
  cases hrun₁.symm.trans h₁
  cases hrun₂.symm.trans h₂
  rw [hget 0 (by omega), hget 1 (by omega)]

/-- A block that is set is one of the first twelve, or the pointer to its index blocks is there. -/
theorem sameRoot_of_setsBlock (hbs : s.fs.block_size = 4096) (hinode : 0 < s.fs.inode_size)
    (hk : k < 12 + 1024 + 1024 * 1024 + 1024 * 1024 * 1024) (hfresh : FreshCalls h s inode k)
    (hsets : SetsBlock h s inode index k) : k < 12 ∨ SameRoot inode k := by
  by_cases hdirect : k < 12
  · exact Or.inl hdirect
  have hfirst : k ≠ 12 := by
    rintro rfl
    exact not_setsBlock_twelve hbs hsets
  have hfresh := hfresh (by omega)
  -- Without the pointer the call does not return.
  have hroot : blockPtr inode (12 + (setterPath k).1) ≠ 0 := by
    intro hmissing
    rw [if_pos hmissing] at hfresh
    rcases hfresh with ⟨r, s', halloc, hnew⟩
    obtain ⟨s₁, inode₁, hrun, -⟩ := hsets (fun _ => 0) (fun _ => 0) 0 (by omega)
    rw [@set_none { h with tmp := fun _ => 0 } s inode index k hbs hinode (by omega) hk hmissing r s'
      halloc hnew.ne_zero] at hrun
    cases hrun
  have hsecond : k ≠ 12 + 1024 := by
    rintro rfl
    exact not_setsBlock_second hbs hroot hsets
  have hthird : k ≠ 12 + 1024 + 1024 * 1024 := by
    rintro rfl
    exact not_setsBlock_third hbs hroot hsets
  rw [setterPath, if_neg hsecond, if_neg hthird] at hroot
  exact Or.inr ⟨⟨hfirst, hsecond, hthird⟩, hroot⟩

end Setter

/-- Blocks 0 to 8 are taken. Block 0 is the bitmap, and all other blocks hold zeros. -/
def spareGroup : Mounted :=
  { oneGroup with disk := fun x => if x = 0 then 0xFF else if x = 1 then 1 else 0 }

/-- The pointers of the first two levels are blocks 5 and 6. -/
def twoRoots : ByteMem := fun x => if x = blockOff 12 then 5 else if x = blockOff 13 then 6 else 0

theorem spareGroup_entry {disk : ByteMem} (hdisk : ∀ x, 4096 ≤ x → disk x = spareGroup.disk x)
    {b : Nat} (hb : 8 ≤ spareGroup.fs.sectorOf b) (j : Nat) :
    spareGroup.fs.diskEntry disk b j = 0 := by
  have hzero : spareGroup.fs.diskEntry disk b j = load (fun _ => 0) 0 4 := by
    rw [EXT2.diskEntry]
    apply load_shift
    intro i _
    rw [hdisk _ (by omega)]
    exact (if_neg (by omega)).trans (if_neg (by omega))
  exact hzero

/-- Block 9 is the next. -/
theorem spareGroup_alloc (buf : ByteMem) :
    ∃ s', ext2_alloc_block spareGroup buf = some (9, s') ∧
      ∀ x, 4096 ≤ x → s'.disk x = spareGroup.disk x := by
  let read := read_disk_block spareGroup.fs spareGroup.disk 0 buf
  have hword : load read (4 * 0) 4 = 0x1FF :=
    (load_read_disk_block spareGroup.fs spareGroup.disk buf 0 (by omega)).trans (by decide)
  have hbit : freeBit 0x1FF = some 9 := by decide
  have hfree : freeWord read 1024 = some (0, 9) := by
    rw [freeWord, List.range_succ_eq_map, List.findSome?_cons]
    simp only [hword]
    rw [if_neg (by omega), hbit]
    rfl
  have hcount : ¬ blockBitmap.counter spareGroup.fs 0 = 0 := by decide
  refine ⟨⟨blockBitmap.setCounter spareGroup.fs 0 (blockBitmap.counter spareGroup.fs 0 - 1),
    write_disk_block spareGroup.fs spareGroup.disk 0
      (store read (4 * 0) 4 (load read (4 * 0) 4 ||| (1 <<< 9))) 0⟩, ?_, ?_⟩
  · have haddr : blockBitmap.addr spareGroup.fs 0 = 0 := by decide
    have hp : spareGroup.fs.block_size / 4 = 1024 := rfl
    have hgroups : spareGroup.fs.n_groups = 1 := rfl
    rw [ext2_alloc_block, allocItem, hgroups, allocGroups, if_neg hcount]
    simp only [haddr, hp]
    rw [hfree]
    rfl
  · intro x hx
    exact devWrite_outside (Or.inr hx)

/-- Each of them is the only index block of its tree. -/
theorem twoRoots_walk {r : Fin 3} {is : List (Fin 1024)}
    (h : (mapTree spareGroup.fs spareGroup.disk twoRoots).walk r is ≠ 0) :
    is = [] ∧ (r = 0 ∨ r = 1) := by
  induction is with
  | nil =>
      refine ⟨rfl, ?_⟩
      revert h r
      decide
  | cons i is ih =>
      have hinner : (mapTree spareGroup.fs spareGroup.disk twoRoots).walk r is ≠ 0 :=
        fun hmissing => h (IndexTree.walk_cons_missing hmissing)
      rw [IndexTree.walk_cons_present hinner] at h
      rcases ih hinner with ⟨rfl, hr⟩
      refine absurd (spareGroup_entry (fun _ _ => rfl) ?_ i) h
      rcases hr with rfl | rfl <;> decide

theorem twoRoots_unshared :
    (mapTree spareGroup.fs spareGroup.disk twoRoots).Unshared spareGroup.fs.sectorOf := by
  intro r is r' is' _ _ h hplace h'
  obtain ⟨rfl, hr⟩ := twoRoots_walk h
  obtain ⟨rfl, hr'⟩ := twoRoots_walk h'
  refine ⟨?_, rfl⟩
  revert hplace
  rcases hr with rfl | rfl <;> rcases hr' with rfl | rfl <;> decide

/-- Block 12 + p + 1 needs an index block, which is block 9. -/
theorem spareGroup_calls {P : Mounted → Nat → Mounted → Prop}
    (hP : ∀ s', (∀ x, 4096 ≤ x → s'.disk x = spareGroup.disk x) → P spareGroup 9 s') :
    AllocAlong P zeroScratch.bitmap 1 spareGroup (blockPtr twoRoots 13) [0] := by
  have hmissing : spareGroup.fs.diskEntry spareGroup.disk (blockPtr twoRoots 13) (0 : Fin 1024) = 0 :=
    spareGroup_entry (fun _ _ => rfl) (by decide) _
  rcases spareGroup_alloc (zeroScratch.bitmap 1) with ⟨s', halloc, hdisk⟩
  rw [AllocAlong]
  simp only [hmissing]
  exact ⟨9, s', halloc, hP s' hdisk, trivial⟩

theorem twoRoots_fresh : FreshBlock twoRoots spareGroup 9 := by
  refine ⟨by omega, ?_⟩
  rintro b ⟨hb, r, is, -, rfl⟩
  obtain ⟨rfl, hr⟩ := twoRoots_walk hb
  rcases hr with rfl | rfl <;> decide

theorem twoRoots_clean {s' : Mounted} (hdisk : ∀ x, 4096 ≤ x → s'.disk x = spareGroup.disk x) :
    CleanBlock twoRoots spareGroup 9 s' := by
  refine ⟨?_, fun j => spareGroup_entry hdisk (by decide) j⟩
  rintro b ⟨hb, r, is, -, rfl⟩ j
  obtain ⟨rfl, hr⟩ := twoRoots_walk hb
  have hplace : 8 ≤ spareGroup.fs.sectorOf
      ((mapTree spareGroup.fs spareGroup.disk twoRoots).walk r []) := by
    rcases hr with rfl | rfl <;> decide
  rw [spareGroup_entry hdisk hplace, spareGroup_entry (fun _ _ => rfl) hplace]

end Fs
end EmbeddedOS
