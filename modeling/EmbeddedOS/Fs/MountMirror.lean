import EmbeddedOS.Fs.Populate

/-!
# The mounted tree as a mirror of the disk

What a well-formed volume looks like, what the tree in memory should be, and the volumes for which
mounting builds it whatever the heap held.
-/

namespace EmbeddedOS
namespace Fs

open Base Base.ByteMem Stdlib

section Mirror

variable (v : Volume) (records : Nat → List Record)

/-! ## Well-formed volumes -/

/-- The sizes of ext2: blocks of one, two or four kilobytes, inodes of 128 bytes or more. -/
structure VolumeOk : Prop where
  block_size : v.block_size = 1024 ∨ v.block_size = 2048 ∨ v.block_size = 4096
  inode_size : INODE_SIZE ≤ v.inode_size
  inodes_per_group : 0 < v.inodes_per_group

/-- The inode's place in the table of its group. -/
def inodeAt (inode_table_block index : Nat) : ByteMem := fun x =>
  v.bytes (v.block_size * inode_table_block +
    (index - 1) % v.inodes_per_group * v.inode_size + x)

/-- The bytes of a directory, block after block. -/
def dirData (inode : ByteMem) : ByteMem := fun x =>
  v.bytes (v.block_size * blockPtr inode (x / v.block_size) + x % v.block_size)

/-- `records` are those of the directory with inode number `index`: it has `k` direct blocks and at
most one more, of attributes, and its records tile them under proper names. -/
structure DirOk (index k : Nat) (inode : ByteMem) : Prop where
  index_pos : 1 ≤ index
  index_lt : index < 4294967296
  table : ∃ t, v.inode_table_addr[(index - 1) / v.inodes_per_group]? = some t ∧
    inode = inodeAt v t index
  blocks : 1 ≤ k ∧ k ≤ 12
  size : sizeLower inode = k * v.block_size
  sectors : nSectors inode * 512 = k * v.block_size ∨
    nSectors inode * 512 = (k + 1) * v.block_size
  unused : ∀ i, k ≤ i → i < 12 → blockPtr inode i = 0
  tiled : Tiled (dirData v inode) (k * v.block_size) 0 (records index)
  names : ∀ r ∈ records index, r.name ≠ [] ∧ 0 ∉ r.name

/-- A subdirectory other than `.` and `..`. -/
def Record.IsSub (r : Record) : Prop :=
  r.type = FS_DIR ∧ r.name ≠ [46] ∧ r.name ≠ [46, 46]

/-- A directory whose tree is finite and well-formed. -/
inductive DirTree : Nat → Prop
  | mk {index k : Nat} {inode : ByteMem} (hok : DirOk v records index k inode)
      (hsub : ∀ r ∈ records index, r.IsSub → DirTree r.inode_number) : DirTree index

/-! ## The mirror -/

/-- A file has the record's name, its hash, its inode number and the size in that inode. -/
structure FileMirrors (r : Record) (f : FileNode) : Prop where
  name : cstring f.name = r.name
  hash : f.hash = hash32 r.name
  inode : f.inode = UInt32.ofNat r.inode_number
  size : ∃ t, v.inode_table_addr[(r.inode_number - 1) / v.inodes_per_group]? = some t ∧
    f.size = UInt32.ofNat (sizeLower (inodeAt v t r.inode_number))

/-- A directory has the record's name, its hash and its inode number. -/
structure DirMirrors (r : Record) (d : FsTree) : Prop where
  name : d.name = r.name
  hash : d.hash = hash32 r.name
  inode : d.inode = UInt32.ofNat r.inode_number

/-- One entry for each record, in order, and subdirectories in the same way. -/
inductive Mirror : Nat → List FsEntry → Prop
  | mk {index : Nat} {es : List FsEntry} (hlen : es.length = (records index).length)
      (hfile : ∀ (i : Nat) (r : Record), (records index)[i]? = some r → r.type = FS_FILE →
        ∃ f, es[i]? = some (FsEntry.file f) ∧ FileMirrors v r f)
      (hdir : ∀ (i : Nat) (r : Record), (records index)[i]? = some r → r.type = FS_DIR →
        ∃ d, es[i]? = some (FsEntry.dir d) ∧ DirMirrors r d)
      (hsub : ∀ (i : Nat) (r : Record) (d : FsTree), (records index)[i]? = some r → r.IsSub →
        es[i]? = some (FsEntry.dir d) → Mirror r.inode_number d.entries) :
      Mirror index es

/-- Mounting builds the mirror, whatever the heap held. -/
def MountsMirror : Prop :=
  ∀ h : Heap, ∃ fuel root, populate_fs v h fuel = some root ∧ root.inode = 2 ∧
    Mirror v records 2 root.entries

/-! ## When mounting builds it -/

/-- The condition on a directory and those below it: its inode is one of the first four in its
block; it has less than twelve blocks; none of its records is of type 0 or a file; and no
subdirectory has a name that starts with a dot. -/
inductive Mountable : Nat → Prop
  | mk {index k : Nat} {inode : ByteMem} (hok : DirOk v records index k inode)
      (hslot : (index - 1) % v.inodes_per_group % 32 < 4) (hblocks : k < 12)
      (htypes : ∀ r ∈ records index, r.type ≠ 0 ∧ r.type ≠ FS_FILE)
      (hdots : ∀ r ∈ records index, r.IsSub → r.name.head? ≠ some 46)
      (hsub : ∀ r ∈ records index, r.IsSub → Mountable r.inode_number) : Mountable index

/-- The condition on a volume: blocks of four kilobytes, inodes of 128 bytes, a zero where the type
of a record at the start of the disk would be, and a root that meets the condition. -/
structure MountSafe : Prop where
  block_size : v.block_size = 4096
  inode_size : v.inode_size = INODE_SIZE
  boot : v.bytes 7 = 0
  root : Mountable v records 2

/-! ## Reading a directory -/

variable {v records} {index k : Nat} {inode : ByteMem}

/-- The place of an inode: the slot in its block, and the block in the table. -/
theorem inode_place (hbs : v.block_size = 4096) (hisz : v.inode_size = INODE_SIZE)
    (t index : Nat) :
    (index - 1) % v.inodes_per_group * v.inode_size % v.block_size =
        (index - 1) % v.inodes_per_group % 32 * 128 ∧
      ∀ x, v.sectors ((t + (index - 1) % v.inodes_per_group * v.inode_size / v.block_size) * 8)
          ((index - 1) % v.inodes_per_group % 32 * 128 + x) = inodeAt v t index x := by
  rw [hbs, hisz]
  generalize hidx : (index - 1) % v.inodes_per_group = idx
  constructor
  · unfold INODE_SIZE
    omega
  · intro x
    unfold Volume.sectors inodeAt
    rw [hbs, hisz, hidx]
    congr 1
    unfold INODE_SIZE
    omega

theorem u32_pred (h : 1 ≤ index) (hlt : index < 4294967296) :
    u32 ((index : Int) - 1) = index - 1 :=
  u32_of_range (by omega) (by omega)

/-- Of an inode of 128 bytes in blocks of four kilobytes the code reads what is there, if it is one
of the first four of its block, and more than it has read from the disk otherwise. -/
theorem read_inode_at (hbs : v.block_size = 4096) (hisz : v.inode_size = INODE_SIZE)
    (hpos : 1 ≤ index) (hlt : index < 4294967296) {t : Nat}
    (ht : v.inode_table_addr[(index - 1) / v.inodes_per_group]? = some t) :
    read_inode_metadata v index =
      if (index - 1) % v.inodes_per_group % 32 < 4 then some (inodeAt v t index) else none := by
  obtain ⟨hoffset, hbytes⟩ := inode_place hbs hisz t index
  simp only [read_inode_metadata, u32_pred hpos hlt, ht, hoffset]
  have heven : (index - 1) % v.inodes_per_group % 32 * 128 / 2 * 2 =
      (index - 1) % v.inodes_per_group % 32 * 128 := by omega
  have hcheck : (index - 1) % v.inodes_per_group % 32 * 128 + v.inode_size ≤
      (v.inode_size / 512 + 1) * 512 ∧ v.inode_size ≤ INODE_SIZE ↔
        (index - 1) % v.inodes_per_group % 32 < 4 := by
    rw [hisz]
    unfold INODE_SIZE
    omega
  rw [heven]
  by_cases hslot : (index - 1) % v.inodes_per_group % 32 < 4
  · rw [if_pos (hcheck.mpr hslot), if_pos hslot]
    exact congrArg some (funext hbytes)
  · rw [if_neg (fun hc => hslot (hcheck.mp hc)), if_neg hslot]

theorem read_inode_eq (hbs : v.block_size = 4096) (hisz : v.inode_size = INODE_SIZE)
    (hok : DirOk v records index k inode) :
    read_inode_metadata v index =
      if (index - 1) % v.inodes_per_group % 32 < 4 then some inode else none := by
  rcases hok.table with ⟨t, ht, hinode⟩
  rw [hinode]
  exact read_inode_at hbs hisz hok.index_pos hok.index_lt ht

/-- A larger inode does not fit the structure it is copied to. -/
theorem read_inode_large (hisz : INODE_SIZE < v.inode_size) (index : Nat) :
    read_inode_metadata v index = none := by
  unfold read_inode_metadata
  dsimp only
  split
  · rfl
  · exact if_neg (fun hc => absurd hc.2 (Nat.not_le.mpr hisz))

/-- Of blocks of four kilobytes the code reads those it asks for. -/
theorem readBlocks_eq (hbs : v.block_size = 4096) (inode stale : ByteMem) (n x : Nat) :
    readBlocks v inode stale n x = if x / 4096 < n then dirData v inode x else stale x := by
  induction n with
  | zero => rfl
  | succ n ih =>
      rw [readBlocks, hbs]
      dsimp only
      rw [ih]
      by_cases hin : 4096 * n ≤ x ∧ x < 4096 * n + 4096
      · have hblock : x / 4096 = n := by omega
        rw [if_pos hin, if_pos (by omega)]
        unfold Volume.sectors dirData
        rw [hbs, hblock]
        congr 1
        omega
      · rw [if_neg hin]
        by_cases hlt : x / 4096 < n
        · rw [if_pos hlt, if_pos (by omega)]
        · rw [if_neg hlt, if_neg (by omega)]

/-- The number of blocks that the code asks for: one or two more than there are. -/
theorem blocks_asked (hbs : v.block_size = 4096) (hok : DirOk v records index k inode) :
    k < nSectors inode / 8 + 1 ∧ nSectors inode / 8 + 1 ≤ 14 := by
  have hsectors := hok.sectors
  have hk := hok.blocks
  rw [hbs] at hsectors
  omega

section Raw

variable (hbs : v.block_size = 4096) (hok : DirOk v records index k inode) (stale : ByteMem)

include hbs hok

/-- The blocks of the directory are read. -/
theorem raw_agrees : AgreeOn (dirData v inode)
    (readBlocks v inode stale (min (nSectors inode / 8 + 1) 12)) 0 (k * 4096) := by
  have hasked := blocks_asked hbs hok
  have hk := hok.blocks
  intro x _ hx
  rw [readBlocks_eq hbs, if_pos (by omega)]

/-- Behind them comes the start of the disk, or what the heap held. -/
theorem raw_end : recType (readBlocks v inode stale (min (nSectors inode / 8 + 1) 12)) (k * 4096) =
    if k < 12 then v.bytes 7 else stale (k * 4096 + 7) := by
  have hasked := blocks_asked hbs hok
  have hk := hok.blocks
  rw [recType, readBlocks_eq hbs]
  by_cases hlt : k < 12
  · rw [if_pos (by omega), if_pos hlt]
    unfold dirData
    have hdiv : (k * 4096 + 7) / 4096 = k := by omega
    have hmod : (k * 4096 + 7) % 4096 = 7 := by omega
    rw [hbs, hdiv, hmod, hok.unused k (Nat.le_refl k) hlt]
  · rw [if_neg (by omega), if_neg hlt]

/-- With its inode read, a directory is populated from its blocks. -/
theorem populate_eq (h : Heap) (hread : read_inode_metadata v index = some inode) (fuel : Nat)
    (path : List Nat) :
    populate_recur v h (fuel + 1) path index =
      direntLoop v h (populate_recur v h fuel) path
        (readBlocks v inode (h.raw path) (min (nSectors inode / 8 + 1) 12))
        (4096 * (nSectors inode / 8 + 1)) fuel 0 0 := by
  have hasked := blocks_asked hbs hok
  have hsize : 4096 * (nSectors inode / 8 + 1) % 4294967296 = 4096 * (nSectors inode / 8 + 1) :=
    Nat.mod_eq_of_lt (by omega)
  rw [populate_recur, hread]
  simp only [Option.bind_eq_bind, Option.bind_some, hbs, hsize]
  exact if_neg (by omega)

end Raw

/-! ## Records and entries -/

section Entries

variable {h : Heap} {sub : List Nat → Nat → Option (List FsEntry)} {path : List Nat}
  {raw : ByteMem} {size hi o j fuel : Nat} {rs : List Record} {r : Record} {es : List FsEntry}

/-- What the loop makes of the records that are left. -/
def Entered (v : Volume) (h : Heap) (sub : List Nat → Nat → Option (List FsEntry))
    (path : List Nat) (j : Nat) (rs : List Record) (es : List FsEntry) : Prop :=
  es.length = rs.length ∧ ∀ (i : Nat) (r : Record), rs[i]? = some r →
    ∃ e, es[i]? = some e ∧ entryOf v h sub (path ++ [j + i]) r = some e

theorem Entered.cons {e : FsEntry} (he : entryOf v h sub (path ++ [j]) r = some e)
    (hes : Entered v h sub path (j + 1) rs es) : Entered v h sub path j (r :: rs) (e :: es) := by
  refine ⟨congrArg (· + 1) hes.1, ?_⟩
  intro i r' hr'
  cases i with
  | zero =>
      cases hr'
      exact ⟨e, rfl, he⟩
  | succ i =>
      rcases hes.2 i r' hr' with ⟨e', he', hentry⟩
      refine ⟨e', he', ?_⟩
      rw [← hentry, Nat.add_assoc, Nat.add_comm 1 i]

/-- Records that all have a type and an entry are entered, and the loop stops behind them. -/
theorem direntLoop_enters (htiled : Tiled raw hi o rs) (hend : recType raw hi = 0)
    (hsize : hi + 8 ≤ size) (htypes : ∀ r ∈ rs, r.type ≠ 0)
    (hentry : ∀ (i : Nat) (r : Record), rs[i]? = some r →
      ∃ e, entryOf v h sub (path ++ [j + i]) r = some e) (hfuel : rs.length < fuel) :
    ∃ es, direntLoop v h sub path raw size fuel o j = some es ∧
      Entered v h sub path j rs es := by
  induction htiled generalizing j fuel with
  | nil =>
      cases fuel with
      | zero => cases hfuel
      | succ fuel =>
          refine ⟨[], ?_, rfl, nofun⟩
          rw [direntLoop, if_neg (by omega), if_pos hend]
  | @cons o rs _ hname hfits _ ih =>
      cases fuel with
      | zero => cases hfuel
      | succ fuel =>
          have htype : recType raw o ≠ 0 := htypes _ List.mem_cons_self
          rcases hentry 0 _ rfl with ⟨e, he⟩
          have hrest : ∀ (i : Nat) (r : Record), rs[i]? = some r →
              ∃ e, entryOf v h sub (path ++ [j + 1 + i]) r = some e := by
            intro i r hr
            rcases hentry (i + 1) r hr with ⟨e', he'⟩
            refine ⟨e', ?_⟩
            rw [← he', Nat.add_assoc, Nat.add_comm 1 i]
          rcases ih (fun r hr => htypes r (List.mem_cons_of_mem _ hr)) hrest
            (Nat.lt_of_succ_lt_succ hfuel) with ⟨es, hes, hentered⟩
          refine ⟨e :: es, ?_, .cons he hentered⟩
          rw [direntLoop, if_neg (by omega), if_neg htype, if_neg (by omega)]
          rw [Nat.add_zero] at he
          rw [he, Option.bind_eq_bind, Option.bind_some, hes]
          rfl

/-- Where the loop makes as many entries as there are records, each record has a type and its
entry, and behind them is none. -/
theorem direntLoop_entered (htiled : Tiled raw hi o rs)
    (hrun : direntLoop v h sub path raw size fuel o j = some es) (hlen : es.length = rs.length) :
    (∀ r ∈ rs, r.type ≠ 0) ∧ recType raw hi = 0 ∧ Entered v h sub path j rs es := by
  induction htiled generalizing j fuel es with
  | nil =>
      have hes : es = [] := List.length_eq_zero_iff.mp hlen
      subst hes
      cases fuel with
      | zero => cases hrun
      | succ fuel =>
          rw [direntLoop] at hrun
          split at hrun
          · cases hrun
          split at hrun
          · next hend => exact ⟨nofun, hend, rfl, nofun⟩
          split at hrun
          · cases hrun
          · rw [Option.bind_eq_bind, Option.bind_eq_some_iff] at hrun
            rcases hrun with ⟨e, _, hrun⟩
            rw [Option.bind_eq_bind, Option.bind_eq_some_iff] at hrun
            rcases hrun with ⟨es, _, hcons⟩
            cases hcons
  | @cons o rs _ hname hfits _ ih =>
      cases fuel with
      | zero => cases hrun
      | succ fuel =>
          rw [direntLoop] at hrun
          split at hrun
          · cases hrun
          split at hrun
          · cases hrun
            cases hlen
          next htype =>
          split at hrun
          · cases hrun
          rw [Option.bind_eq_bind, Option.bind_eq_some_iff] at hrun
          rcases hrun with ⟨e, he, hrun⟩
          rw [Option.bind_eq_bind, Option.bind_eq_some_iff] at hrun
          rcases hrun with ⟨es', hes', hcons⟩
          cases hcons
          rcases ih hes' (Nat.succ.inj hlen) with ⟨htypes, hend, hentered⟩
          refine ⟨?_, hend, .cons he hentered⟩
          intro r hr
          rcases List.mem_cons.mp hr with rfl | hr
          · exact htype
          · exact htypes r hr

/-- The name of a subdirectory is taken over; those that start with a dot are not entered. -/
theorem entryOf_dir (hname : 0 ∉ r.name) (htype : r.type = FS_DIR) :
    entryOf v h sub path r =
      (if r.name.head? = some 46 then some [] else sub path r.inode_number).map fun entries =>
        .dir (.mk r.name (hash32 r.name) (UInt32.ofNat r.inode_number) entries) := by
  have hcopy : cstring (strncpy r.name r.name.length) = r.name := by
    rw [strncpy_of_nonzero hname, cstring_of_nonzero hname]
  have hrecurses : recurses r.name = true ↔ r.name.head? ≠ some 46 := by
    rw [recurses, decide_eq_true_iff, strncmp_one (by decide), strncmp_one (by decide)]
    exact and_self_iff
  have hother : r.type ≠ FS_FILE := by
    rw [htype]
    decide
  rw [entryOf, if_neg hother, if_pos htype]
  dsimp only
  rw [hcopy]
  by_cases hdot : r.name.head? = some 46
  · rw [if_pos hdot, if_neg (fun hc => hrecurses.mp hc hdot)]
  · rw [if_neg hdot, if_pos (hrecurses.mpr hdot)]

/-- The name of a file runs on into what the block held before. -/
theorem entryOf_file {e : FsEntry} (htype : r.type = FS_FILE)
    (he : entryOf v h sub path r = some e) :
    ∃ inode, e = .file (fileNode h path r inode) := by
  rw [entryOf, if_pos htype, Option.map_eq_some_iff] at he
  rcases he with ⟨inode, _, rfl⟩
  exact ⟨inode, rfl⟩

theorem Tiled.name_length (htiled : Tiled raw hi o rs) : ∀ r ∈ rs, r.name.length < 256 := by
  induction htiled with
  | nil => nofun
  | @cons o rs _ _ _ _ ih =>
      intro r hr
      rcases List.mem_cons.mp hr with rfl | hr
      · exact (length_bytesAt _ _ _).trans_lt (raw (o + 6)).toNat_lt
      · exact ih r hr

end Entries

/-! ## A volume that meets the condition -/

section Sufficient

/-- Fuel that is enough for each of finitely many is enough for all. -/
theorem exists_fuel {α : Type} {enough : α → Nat → Prop} (xs : List α)
    (h : ∀ x ∈ xs, ∃ n, ∀ fuel, n ≤ fuel → enough x fuel) :
    ∃ n, ∀ fuel, n ≤ fuel → ∀ x ∈ xs, enough x fuel := by
  induction xs with
  | nil => exact ⟨0, fun _ _ => nofun⟩
  | cons x xs ih =>
      rcases h x List.mem_cons_self with ⟨n, hn⟩
      rcases ih (fun y hy => h y (List.mem_cons_of_mem _ hy)) with ⟨m, hm⟩
      refine ⟨max n m, ?_⟩
      intro fuel hfuel y hy
      rcases List.mem_cons.mp hy with rfl | hy
      · exact hn fuel ((Nat.le_max_left n m).trans hfuel)
      · exact hm fuel ((Nat.le_max_right n m).trans hfuel) y hy

variable {h : Heap} {sub : List Nat → Nat → Option (List FsEntry)}

/-- A record that is not a file has an entry if the directories it stands for can be populated. -/
theorem entryOf_some {r : Record} {path : List Nat} (hname : 0 ∉ r.name) (htype : r.type ≠ FS_FILE)
    (hentries : r.IsSub → ∃ es, sub path r.inode_number = some es) :
    ∃ e, entryOf v h sub path r = some e := by
  by_cases hdir : r.type = FS_DIR
  · rw [entryOf_dir hname hdir]
    by_cases hdot : r.name.head? = some 46
    · rw [if_pos hdot]
      exact ⟨_, rfl⟩
    · have hsub : r.IsSub := by
        refine ⟨hdir, ?_, ?_⟩ <;> exact fun heq => hdot (heq ▸ rfl)
      rcases hentries hsub with ⟨es, hes⟩
      rw [if_neg hdot, hes]
      exact ⟨_, rfl⟩
  · rw [entryOf, if_neg htype, if_neg hdir]
    exact ⟨_, rfl⟩

/-- Entries of records none of which is a file are a mirror if those below are. -/
theorem Entered.mirror {path : List Nat} {es : List FsEntry}
    (hentered : Entered v h sub path 0 (records index) es)
    (hnames : ∀ r ∈ records index, 0 ∉ r.name) (htypes : ∀ r ∈ records index, r.type ≠ FS_FILE)
    (hdots : ∀ r ∈ records index, r.IsSub → r.name.head? ≠ some 46)
    (hbelow : ∀ r ∈ records index, r.IsSub → ∀ (path' : List Nat) (es' : List FsEntry),
      sub path' r.inode_number = some es' → Mirror v records r.inode_number es') :
    Mirror v records index es := by
  refine .mk hentered.1 ?_ ?_ ?_
  · intro i r hr htype
    exact absurd htype (htypes r (List.mem_of_getElem? hr))
  · intro i r hr htype
    rcases hentered.2 i r hr with ⟨e, he, hentry⟩
    rw [entryOf_dir (hnames r (List.mem_of_getElem? hr)) htype, Option.map_eq_some_iff] at hentry
    rcases hentry with ⟨es', _, rfl⟩
    exact ⟨_, he, rfl, rfl, rfl⟩
  · intro i r d hr hsub hd
    have hmem := List.mem_of_getElem? hr
    rcases hentered.2 i r hr with ⟨e, he, hentry⟩
    rw [entryOf_dir (hnames r hmem) hsub.1, if_neg (hdots r hmem hsub),
      Option.map_eq_some_iff] at hentry
    rcases hentry with ⟨es', hes', rfl⟩
    rw [hd] at he
    cases he
    exact hbelow r hmem hsub _ es' hes'

/-- Enough fuel populates a directory that meets the condition, and what it builds is a mirror. -/
theorem populate_mirrors (hbs : v.block_size = 4096) (hisz : v.inode_size = INODE_SIZE)
    (hboot : v.bytes 7 = 0) (hm : Mountable v records index) :
    ∃ n, ∀ fuel, n ≤ fuel → ∀ path, ∃ es,
      populate_recur v h fuel path index = some es ∧ Mirror v records index es := by
  induction hm with
  | @mk index k inode hok hslot hblocks htypes hdots _ ih =>
      have hbelow : ∃ n, ∀ fuel, n ≤ fuel → ∀ r ∈ records index, r.IsSub → ∀ path, ∃ es,
          populate_recur v h fuel path r.inode_number = some es ∧
            Mirror v records r.inode_number es := by
        apply exists_fuel
        intro r hr
        by_cases hsub : r.IsSub
        · rcases ih r hr hsub with ⟨n, hn⟩
          exact ⟨n, fun fuel hfuel _ => hn fuel hfuel⟩
        · exact ⟨0, fun fuel _ hc => absurd hc hsub⟩
      rcases hbelow with ⟨n, hn⟩
      refine ⟨max n ((records index).length + 1) + 1, ?_⟩
      intro fuel hfuel path
      cases fuel with
      | zero => exact absurd hfuel (Nat.not_succ_le_zero _)
      | succ fuel =>
          have hfuel := Nat.le_of_succ_le_succ hfuel
          have hlength : (records index).length < fuel := (Nat.le_max_right _ _).trans hfuel
          have hn := hn fuel ((Nat.le_max_left _ _).trans hfuel)
          have hread : read_inode_metadata v index = some inode := by
            rw [read_inode_eq hbs hisz hok, if_pos hslot]
          have hnames : ∀ r ∈ records index, 0 ∉ r.name := fun r hr => (hok.names r hr).2
          have htiled : Tiled (readBlocks v inode (h.raw path) (min (nSectors inode / 8 + 1) 12))
              (k * 4096) 0 (records index) :=
            (hbs ▸ hok.tiled).congr (raw_agrees hbs hok (h.raw path))
          have hend := raw_end hbs hok (h.raw path)
          rw [if_pos hblocks, hboot] at hend
          have hasked := blocks_asked hbs hok
          have hentry : ∀ (i : Nat) (r : Record), (records index)[i]? = some r →
              ∃ e, entryOf v h (populate_recur v h fuel) (path ++ [0 + i]) r = some e := by
            intro i r hr
            have hmem := List.mem_of_getElem? hr
            apply entryOf_some (hnames r hmem) (htypes r hmem).2
            intro hsub
            rcases hn r hmem hsub (path ++ [0 + i]) with ⟨es, hes, _⟩
            exact ⟨es, hes⟩
          have hsize : k * 4096 + 8 ≤ 4096 * (nSectors inode / 8 + 1) := by omega
          rcases direntLoop_enters htiled hend hsize (fun r hr => (htypes r hr).1) hentry
            hlength with ⟨es, hes, hentered⟩
          refine ⟨es, (populate_eq hbs hok h hread fuel path).trans hes, ?_⟩
          apply hentered.mirror hnames (fun r hr => (htypes r hr).2) hdots
          intro r hr hsub path' es' hes'
          rcases hn r hr hsub path' with ⟨es'', hes'', hmirror⟩
          rw [hes'] at hes''
          cases hes''
          exact hmirror

end Sufficient

/-! ## A heap full of ones -/

section Necessary

/-- A heap whose blocks hold no zero. -/
def onesHeap : Heap where
  raw _ _ := 1
  name _ _ := 1
  behind _ := []
  rootName := []

theorem onesHeap_raw (path : List Nat) (x : Nat) : onesHeap.raw path x ≠ 0 := by
  change (1 : UInt8) ≠ 0
  decide

/-- A name that is copied to a block of ones does not end where it should. -/
theorem fileNode_ones {path : List Nat} {r : Record} {inode : ByteMem} (hname : 0 ∉ r.name)
    (hlength : r.name.length < 256) : cstring (fileNode onesHeap path r inode).name ≠ r.name := by
  have hones : 0 ∉ bytesAt (onesHeap.name path) r.name.length (256 - r.name.length) := by
    simp [bytesAt, onesHeap]
  have hzero : 0 ∉ (fileNode onesHeap path r inode).name := by
    rw [fileNode, strncpy_of_nonzero hname, List.mem_append]
    exact not_or.mpr ⟨hname, hones⟩
  rw [cstring_of_nonzero hzero, fileNode, strncpy_of_nonzero hname]
  intro heq
  have hlen := congrArg List.length heq
  rw [List.length_append, length_bytesAt] at hlen
  omega

theorem DirOk.records_ne_nil (hbs : v.block_size = 4096) (hok : DirOk v records index k inode) :
    records index ≠ [] := by
  have hk := hok.blocks
  rcases hok.tiled.head (by rw [hbs]; omega) with ⟨_, _, rest, hrecords, _⟩
  rw [hrecords]
  exact List.cons_ne_nil _ _

variable {h : Heap} {path : List Nat} {es : List FsEntry} {fuel : Nat}

/-- What is known of a directory whose entries are a mirror, with the fuel for those below. -/
theorem populate_inv (hv : VolumeOk v) (hbs : v.block_size = 4096)
    (hok : DirOk v records index k inode) (hrun : populate_recur v h fuel path index = some es)
    (hmirror : Mirror v records index es) :
    v.inode_size = INODE_SIZE ∧ (index - 1) % v.inodes_per_group % 32 < 4 ∧
      (if k < 12 then v.bytes 7 else h.raw path (k * 4096 + 7)) = 0 ∧
      (∀ r ∈ records index, r.type ≠ 0 ∧ r.name.length < 256) ∧
      ∃ fuel', Entered v h (populate_recur v h fuel') path 0 (records index) es := by
  cases fuel with
  | zero => cases hrun
  | succ fuel =>
      have hisz : v.inode_size = INODE_SIZE := by
        refine Nat.le_antisymm (Nat.le_of_not_lt fun hlarge => ?_) hv.inode_size
        rw [populate_recur, read_inode_large hlarge] at hrun
        cases hrun
      have hslot : (index - 1) % v.inodes_per_group % 32 < 4 := by
        by_contra hlate
        rw [populate_recur, read_inode_eq hbs hisz hok, if_neg hlate] at hrun
        cases hrun
      have hread : read_inode_metadata v index = some inode := by
        rw [read_inode_eq hbs hisz hok, if_pos hslot]
      have htiled : Tiled (readBlocks v inode (h.raw path) (min (nSectors inode / 8 + 1) 12))
          (k * 4096) 0 (records index) :=
        (hbs ▸ hok.tiled).congr (raw_agrees hbs hok (h.raw path))
      have hlen : es.length = (records index).length := by
        cases hmirror with
        | mk hlen _ _ _ => exact hlen
      rw [populate_eq hbs hok h hread] at hrun
      rcases direntLoop_entered htiled hrun hlen with ⟨htypes, hend, hentered⟩
      rw [raw_end hbs hok] at hend
      exact ⟨hisz, hslot, hend, fun r hr => ⟨htypes r hr, htiled.name_length r hr⟩, fuel, hentered⟩

/-- A directory of which a heap of ones gets a mirror meets the condition. -/
theorem mountable_of_mirror (hv : VolumeOk v) (hbs : v.block_size = 4096)
    (htree : DirTree v records index) (hrun : populate_recur v onesHeap fuel path index = some es)
    (hmirror : Mirror v records index es) : Mountable v records index := by
  induction htree generalizing fuel path es with
  | @mk index k inode hok hsub ih =>
      rcases populate_inv hv hbs hok hrun hmirror with ⟨_, hslot, hend, htypes, fuel', hentered⟩
      cases hmirror with
      | mk _ hfile hdir hbelow =>
          have hblocks : k < 12 := by
            by_contra hfull
            rw [if_neg hfull] at hend
            exact absurd hend (onesHeap_raw _ _)
          have hentries : ∀ r ∈ records index, r.IsSub → ∃ (path' : List Nat) (d : FsTree),
              Mirror v records r.inode_number d.entries ∧
                (if r.name.head? = some 46 then some []
                  else populate_recur v onesHeap fuel' path' r.inode_number) = some d.entries := by
            intro r hr hsub
            rcases List.getElem?_of_mem hr with ⟨i, hi⟩
            rcases hentered.2 i r hi with ⟨e, he, hentry⟩
            rcases hdir i r hi hsub.1 with ⟨d, hd, _⟩
            rw [entryOf_dir (hok.names r hr).2 hsub.1, Option.map_eq_some_iff] at hentry
            rcases hentry with ⟨es', hes', rfl⟩
            exact ⟨_, _, hbelow i r _ hi hsub he, hes'⟩
          -- a directory that is not entered has no entries, and every directory has a record
          have hdots : ∀ r ∈ records index, r.IsSub → r.name.head? ≠ some 46 := by
            intro r hr hrsub hdot
            rcases hentries r hr hrsub with ⟨path', d, hmirror', hes'⟩
            rw [if_pos hdot] at hes'
            have hempty : d.entries = [] := (Option.some.inj hes').symm
            rw [hempty] at hmirror'
            cases hsub r hr hrsub with
            | mk hok' _ =>
                cases hmirror' with
                | mk hlen _ _ _ =>
                    exact hok'.records_ne_nil hbs (List.length_eq_zero_iff.mp hlen.symm)
          refine .mk hok hslot hblocks ?_ hdots ?_
          · intro r hr
            refine ⟨(htypes r hr).1, ?_⟩
            intro htype
            rcases List.getElem?_of_mem hr with ⟨i, hi⟩
            rcases hentered.2 i r hi with ⟨e, he, hentry⟩
            rcases entryOf_file htype hentry with ⟨inode', rfl⟩
            rcases hfile i r hi htype with ⟨f, hf, hmirrors⟩
            rw [he] at hf
            cases hf
            exact fileNode_ones (hok.names r hr).2 (htypes r hr).2 hmirrors.name
          · intro r hr hrsub
            rcases hentries r hr hrsub with ⟨path', d, hmirror', hes'⟩
            rw [if_neg (hdots r hr hrsub)] at hes'
            exact ih r hr hrsub hes' hmirror'

end Necessary

/-! ## Mounting -/

theorem mirror_of_mountSafe (hsafe : MountSafe v records) : MountsMirror v records := by
  intro h
  rcases populate_mirrors hsafe.block_size hsafe.inode_size hsafe.boot hsafe.root with ⟨n, hn⟩
  rcases hn n (Nat.le_refl n) [] with ⟨es, hes, hmirror⟩
  have hread : ∃ inode, read_inode_metadata v 2 = some inode := by
    cases hsafe.root with
    | mk hok hslot =>
        exact ⟨_, by rw [read_inode_eq hsafe.block_size hsafe.inode_size hok, if_pos hslot]⟩
  rcases hread with ⟨inode, hinode⟩
  refine ⟨n, .mk (47 :: h.rootName) (hash32 (47 :: h.rootName)) 2 es, ?_, rfl, hmirror⟩
  rw [populate_fs, hinode, hes]
  rfl

theorem mountSafe_of_mirror (hv : VolumeOk v) (hroot : DirTree v records 2)
    (hbs : v.block_size = 4096) (hmounts : MountsMirror v records) : MountSafe v records := by
  rcases hmounts onesHeap with ⟨fuel, root, hrun, _, hmirror⟩
  rw [populate_fs, Option.bind_eq_bind, Option.bind_eq_some_iff] at hrun
  rcases hrun with ⟨_, _, hrun⟩
  rw [Option.bind_eq_bind, Option.bind_eq_some_iff] at hrun
  rcases hrun with ⟨es, hes, hrooted⟩
  cases hrooted
  have hmountable := mountable_of_mirror hv hbs hroot hes hmirror
  cases hroot with
  | mk hok _ =>
      rcases populate_inv hv hbs hok hes hmirror with ⟨hisz, _, hend, _⟩
      refine ⟨hbs, hisz, ?_, hmountable⟩
      split at hend
      · exact hend
      · exact absurd hend (onesHeap_raw _ _)

/-- A volume that meets the condition is mirrored, and where blocks have the size that the code
takes them to have, no other is. -/
theorem mounts_mirror_iff (hv : VolumeOk v) (hroot : DirTree v records 2) :
    (MountSafe v records → MountsMirror v records) ∧
      (v.block_size = 4096 → MountsMirror v records → MountSafe v records) :=
  ⟨mirror_of_mountSafe, mountSafe_of_mirror hv hroot⟩

end Mirror

/-! ## A small volume -/

/-- The head of a record and the first two characters of its name. -/
def putRecord (m : ByteMem) (o inode size name_len type name : Nat) : ByteMem :=
  store (store (store (store (store m o 4 inode) (o + 4) 2 size) (o + 6) 1 name_len)
    (o + 7) 1 type) (o + 8) 2 name

/-- The inode of a directory of one block. -/
def putInode (m : ByteMem) (o block : Nat) : ByteMem :=
  store (store (store m (o + 4) 4 4096) (o + 28) 4 8) (o + 40) 4 block

/-- A root in block 9 with `.`, `..` and the name `a` for inode 3, which is a directory in
block 10; its record says of which type it is. -/
def smallVolume (type : UInt8) : Volume where
  bytes :=
    let sub := putRecord (putRecord (fun _ => 0) 40960 3 12 1 2 46) 40972 2 4084 2 2 0x2e2e
    let dot := putRecord (putRecord sub 36864 2 12 1 2 46) 36876 2 12 2 2 0x2e2e
    let root := putRecord dot 36888 3 4072 1 type.toNat 97
    putInode (putInode root 16512 9) 16640 10
  block_size := 4096
  inode_size := 128
  inodes_per_group := 32
  inode_table_addr := [4]

def smallRecords (type : UInt8) (index : Nat) : List Record :=
  if index = 2 then [⟨2, 12, 2, [46]⟩, ⟨2, 12, 2, [46, 46]⟩, ⟨3, 4072, type, [97]⟩]
  else [⟨3, 12, 2, [46]⟩, ⟨2, 4084, 2, [46, 46]⟩]

theorem volumeOk_small (type : UInt8) : VolumeOk (smallVolume type) :=
  ⟨.inr (.inr rfl), Nat.le_refl 128, Nat.zero_lt_succ 31⟩

theorem dirOk_root {type : UInt8} (htype : type = FS_FILE ∨ type = FS_DIR) :
    DirOk (smallVolume type) (smallRecords type) 2 1
      (inodeAt (smallVolume type) 4 2) := by
  have hunused : ∀ i < 12, 1 ≤ i → blockPtr (inodeAt (smallVolume type) 4 2) i = 0 := by
    rcases htype with rfl | rfl <;> decide
  have htable : [4][(2 - 1) / 32]? = some 4 := by decide
  refine ⟨by decide, by decide, ⟨4, htable, rfl⟩, by decide, ?_, .inl ?_,
    fun i hi hlt => hunused i hlt hi, ?_, ?_⟩
  all_goals rcases htype with rfl | rfl
  all_goals first
    | decide
    | exact .cons (by decide) (by decide) (by decide) (.cons (by decide) (by decide) (by decide)
        (.cons (by decide) (by decide) (by decide) .nil))

theorem dirOk_sub : DirOk (smallVolume FS_DIR) (smallRecords FS_DIR) 3 1
    (inodeAt (smallVolume FS_DIR) 4 3) := by
  have hunused : ∀ i < 12, 1 ≤ i → blockPtr (inodeAt (smallVolume FS_DIR) 4 3) i = 0 := by decide
  refine ⟨by decide, by decide, ⟨4, rfl, rfl⟩, by decide, by decide, .inl (by decide),
    fun i hi hlt => hunused i hlt hi, ?_, by decide⟩
  exact .cons (by decide) (by decide) (by decide) (.cons (by decide) (by decide) (by decide) .nil)

/-- Of the records of the directory only `a` can be a subdirectory. -/
theorem isSub_small {type : UInt8} {index : Nat} {r : Record} (hr : r ∈ smallRecords type index)
    (hsub : r.IsSub) : index = 2 ∧ r = ⟨3, 4072, type, [97]⟩ := by
  unfold smallRecords at hr
  split at hr
  · next hroot =>
    refine ⟨hroot, ?_⟩
    rcases List.mem_cons.mp hr with rfl | hr
    · exact absurd rfl hsub.2.1
    rcases List.mem_cons.mp hr with rfl | hr
    · exact absurd rfl hsub.2.2
    · exact List.mem_singleton.mp hr
  · rcases List.mem_cons.mp hr with rfl | hr
    · exact absurd rfl hsub.2.1
    · rw [List.mem_singleton.mp hr] at hsub
      exact absurd rfl hsub.2.2

theorem dirTree_sub : DirTree (smallVolume FS_DIR) (smallRecords FS_DIR) 3 :=
  .mk dirOk_sub fun _ hr hsub => absurd (isSub_small hr hsub).1 (by decide)

theorem dirTree_file : DirTree (smallVolume FS_FILE) (smallRecords FS_FILE) 2 := by
  refine .mk (dirOk_root (.inl rfl)) ?_
  intro r hr hsub
  have htype := hsub.1
  rw [(isSub_small hr hsub).2] at htype
  exact absurd htype (by decide)

theorem dirTree_dir : DirTree (smallVolume FS_DIR) (smallRecords FS_DIR) 2 := by
  refine .mk (dirOk_root (.inr rfl)) ?_
  intro r hr hsub
  rw [(isSub_small hr hsub).2]
  exact dirTree_sub

theorem mountSafe_small : MountSafe (smallVolume FS_DIR) (smallRecords FS_DIR) := by
  have hsub : Mountable (smallVolume FS_DIR) (smallRecords FS_DIR) 3 :=
    .mk dirOk_sub (by decide) (by decide) (by decide)
      (fun _ hr hsub => absurd (isSub_small hr hsub).1 (by decide))
      fun _ hr hsub => absurd (isSub_small hr hsub).1 (by decide)
  refine ⟨rfl, rfl, by decide, ?_⟩
  refine .mk (dirOk_root (.inr rfl)) (by decide) (by decide) (by decide) ?_ ?_
  · intro r hr hrsub
    rw [(isSub_small hr hrsub).2]
    decide
  · intro r hr hrsub
    rw [(isSub_small hr hrsub).2]
    exact hsub

/-- A root with one subdirectory is mirrored. -/
theorem mounts_mirror_small : MountsMirror (smallVolume FS_DIR) (smallRecords FS_DIR) :=
  (mounts_mirror_iff (volumeOk_small FS_DIR) dirTree_dir).1 mountSafe_small

/-- A root with one file is not: the name of the file runs on behind its end. -/
theorem file_not_mirrored :
    VolumeOk (smallVolume FS_FILE) ∧ DirTree (smallVolume FS_FILE) (smallRecords FS_FILE) 2 ∧
      ¬ MountsMirror (smallVolume FS_FILE) (smallRecords FS_FILE) := by
  refine ⟨volumeOk_small FS_FILE, dirTree_file, ?_⟩
  intro hmounts
  cases (mountSafe_of_mirror (volumeOk_small FS_FILE) dirTree_file rfl hmounts).root with
  | mk _ _ _ htypes _ _ =>
      exact absurd rfl (htypes ⟨3, 4072, 1, [97]⟩ (by decide)).2

end Fs
end EmbeddedOS
