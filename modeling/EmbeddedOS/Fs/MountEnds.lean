import EmbeddedOS.Base.Descent
import EmbeddedOS.Fs.MountMirror

/-!
# When mounting ends

`populate_recur` goes from record to record by the lengths on the disk until it meets a type of 0,
and enters the directories that it finds on the way. It ends if every directory it enters has such
a record in the buffer and there is no endless descent.
-/

namespace EmbeddedOS
namespace Fs

open Base Base.ByteMem

/-! ## The records of a directory -/

/-- Where the record after `n` others is. -/
def recOffset (raw : ByteMem) : Nat → Nat
  | 0 => 0
  | n + 1 => recOffset raw n + recSize raw (recOffset raw n)

/-- The type of record `n`. -/
def typeOf (raw : ByteMem) (n : Nat) : UInt8 := recType raw (recOffset raw n)

/-- The first record with a type of 0 is the one after `n` others; they and its head lie in the
`size` bytes of the buffer. -/
structure EndsAt (raw : ByteMem) (size n : Nat) : Prop where
  last : typeOf raw n = 0
  inside : recOffset raw n + 8 ≤ size
  before : ∀ i, i < n → typeOf raw i ≠ 0 ∧
    recOffset raw i + 8 + nameLen raw (recOffset raw i) ≤ size

/-- A directory that is entered, under the name that its record has up to the first zero. -/
def Record.Entered (r : Record) : Prop :=
  r.type = FS_DIR ∧ recurses (cstring (Stdlib.strncpy r.name r.name.length)) = true

/-! ## The directories of a volume -/

/-- A call of `populate_recur`: the numbers of the records that lead to the directory, and its
inode. -/
abbrev Node := List Nat × Nat

section Volume

variable (v : Volume) (h : Heap)

/-- The blocks that are asked for. -/
def nBlocks (inode : ByteMem) : Nat := nSectors inode / 8 + 1

/-- `raw_block` and its size. -/
def rawBlock (path : List Nat) (inode : ByteMem) : ByteMem :=
  readBlocks v inode (h.raw path) (min (nBlocks inode) 12)

def rawSize (inode : ByteMem) : Nat := v.block_size * nBlocks inode % 4294967296

/-- A directory with an inode that can be read, as can those of its files, and with a buffer for
its blocks in which its records end. -/
def DirEnds (node : Node) : Prop :=
  ∃ inode, read_inode_metadata v node.2 = some inode ∧
    v.block_size * (min (nBlocks inode) 12 - 1) + 4096 ≤ rawSize v inode ∧
    ∃ n, EndsAt (rawBlock v h node.1 inode) (rawSize v inode) n ∧
      ∀ i, i < n → typeOf (rawBlock v h node.1 inode) i = FS_FILE →
        (read_inode_metadata v
          (inodeNumber (rawBlock v h node.1 inode) (recOffset (rawBlock v h node.1 inode) i))).isSome

/-- `child` is entered from `node`: for a record that comes before any with a type of 0. -/
def Below (child node : Node) : Prop :=
  ∃ inode, read_inode_metadata v node.2 = some inode ∧
    ∃ i, (∀ j, j ≤ i → typeOf (rawBlock v h node.1 inode) j ≠ 0) ∧
      (recordAt (rawBlock v h node.1 inode)
        (recOffset (rawBlock v h node.1 inode) i)).Entered ∧
      child = (node.1 ++ [i],
        inodeNumber (rawBlock v h node.1 inode) (recOffset (rawBlock v h node.1 inode) i))

/-- It returns, and no access is out of bounds. -/
def Populates (node : Node) : Prop := ∃ fuel es, populate_recur v h fuel node.1 node.2 = some es

/-- Every directory that is reached ends, and there is no endless descent. -/
def MountEnds (node : Node) : Prop :=
  Acc (Below v h) node ∧ ∀ node', Relation.ReflTransGen (Below v h) node' node → DirEnds v h node'

end Volume

/-! ## One directory -/

section Loop

variable {v : Volume} {h : Heap} {sub : List Nat → Nat → Option (List FsEntry)} {path : List Nat}
  {raw : ByteMem} {size : Nat} {r : Record}

/-- The entry of a record exists if its inode can be read or its directory populated. -/
theorem entryOf_isSome :
    (entryOf v h sub path r).isSome ↔
      (r.type = FS_FILE → (read_inode_metadata v r.inode_number).isSome) ∧
        (r.Entered → (sub path r.inode_number).isSome) := by
  have hne : FS_FILE ≠ FS_DIR := by decide
  unfold entryOf Record.Entered
  by_cases hfile : r.type = FS_FILE
  · simp [hfile, hne]
  · by_cases hdir : r.type = FS_DIR
    · by_cases hrec : recurses (cstring (Stdlib.strncpy r.name r.name.length)) = true
      · simp [hdir, hrec, hne.symm]
      · simp [hdir, hrec, hne.symm]
    · simp [hfile, hdir]

/-- The loop from record `j` on. -/
theorem direntLoop_isSome (v : Volume) (h : Heap)
    (sub : List Nat → Nat → Option (List FsEntry)) (path : List Nat) (raw : ByteMem)
    (size fuel j : Nat) :
    (direntLoop v h sub path raw size fuel (recOffset raw j) j).isSome ↔
      ∃ n, j ≤ n ∧ n < j + fuel ∧ typeOf raw n = 0 ∧ recOffset raw n + 8 ≤ size ∧
        ∀ i, j ≤ i → i < n → typeOf raw i ≠ 0 ∧
          recOffset raw i + 8 + nameLen raw (recOffset raw i) ≤ size ∧
          (entryOf v h sub (path ++ [i]) (recordAt raw (recOffset raw i))).isSome := by
  induction fuel generalizing j with
  | zero =>
      constructor
      · intro hrun
        cases hrun
      · rintro ⟨n, hlo, hhi, -⟩
        omega
  | succ fuel ih =>
      rw [direntLoop]
      constructor
      · intro hrun
        split at hrun
        · cases hrun
        rename_i hhead
        split at hrun
        · rename_i hlast
          refine ⟨j, Nat.le_refl j, by omega, hlast, by omega, ?_⟩
          intro i hlo hhi
          omega
        rename_i htype
        split at hrun
        · cases hrun
        rename_i hname
        obtain ⟨es, hrun⟩ := Option.isSome_iff_exists.mp hrun
        obtain ⟨e, hentry, hrest⟩ := Option.bind_eq_some_iff.mp hrun
        obtain ⟨es', hnext, -⟩ := Option.bind_eq_some_iff.mp hrest
        obtain ⟨n, hlo, hhi, hlast, hinside, hbefore⟩ :=
          (ih (j + 1)).mp (Option.isSome_iff_exists.mpr ⟨es', hnext⟩)
        refine ⟨n, by omega, by omega, hlast, hinside, ?_⟩
        intro i hi hin
        rcases Nat.eq_or_lt_of_le hi with rfl | hlt
        · exact ⟨htype, by omega, Option.isSome_iff_exists.mpr ⟨e, hentry⟩⟩
        · exact hbefore i hlt hin
      · rintro ⟨n, hlo, hhi, hlast, hinside, hbefore⟩
        rcases Nat.eq_or_lt_of_le hlo with rfl | hlt
        · have hstop : recType raw (recOffset raw j) = 0 := hlast
          rw [if_neg (by omega), if_pos hstop]
          rfl
        · obtain ⟨htype, hname, hentry⟩ := hbefore j (Nat.le_refl j) hlt
          obtain ⟨e, hentry⟩ := Option.isSome_iff_exists.mp hentry
          have hnext := (ih (j + 1)).mpr ⟨n, hlt, by omega, hlast, hinside, fun i hi hin =>
            hbefore i (by omega) hin⟩
          obtain ⟨es, hnext⟩ := Option.isSome_iff_exists.mp hnext
          have hgoes : recType raw (recOffset raw j) ≠ 0 := htype
          rw [recOffset] at hnext
          rw [if_neg (by omega), if_neg hgoes, if_neg (by omega), hentry, Option.bind_eq_bind,
            Option.bind_some, hnext]
          rfl

end Loop

/-! ## The whole tree -/

section Tree

variable {v : Volume} {h : Heap} {node : Node} {inode : ByteMem} {n : Nat}

/-- One call, with the calls below it left open. -/
theorem populate_recur_isSome (hread : read_inode_metadata v node.2 = some inode) (fuel : Nat) :
    (populate_recur v h (fuel + 1) node.1 node.2).isSome ↔
      v.block_size * (min (nBlocks inode) 12 - 1) + 4096 ≤ rawSize v inode ∧
      ∃ n, n < fuel ∧ EndsAt (rawBlock v h node.1 inode) (rawSize v inode) n ∧
        ∀ i, i < n → (entryOf v h (populate_recur v h fuel) (node.1 ++ [i])
          (recordAt (rawBlock v h node.1 inode)
            (recOffset (rawBlock v h node.1 inode) i))).isSome := by
  have hloop := direntLoop_isSome v h (populate_recur v h fuel) node.1 (rawBlock v h node.1 inode)
    (rawSize v inode) fuel 0
  rw [populate_recur, hread, Option.bind_eq_bind, Option.bind_some]
  change (if rawSize v inode < v.block_size * (min (nBlocks inode) 12 - 1) + 4096 then none else
    direntLoop v h (populate_recur v h fuel) node.1 (rawBlock v h node.1 inode) (rawSize v inode)
      fuel (recOffset (rawBlock v h node.1 inode) 0) 0).isSome ↔ _
  split
  · rename_i hsmall
    constructor
    · intro hrun
      cases hrun
    · rintro ⟨hsize, -⟩
      omega
  · rename_i hsize
    rw [hloop, and_iff_right (Nat.le_of_not_lt hsize)]
    apply exists_congr
    intro n
    constructor
    · rintro ⟨-, hn, hlast, hinside, hbefore⟩
      refine ⟨by omega, ⟨hlast, hinside, ?_⟩, ?_⟩
      · intro i hi
        exact ⟨(hbefore i (Nat.zero_le i) hi).1, (hbefore i (Nat.zero_le i) hi).2.1⟩
      · intro i hi
        exact (hbefore i (Nat.zero_le i) hi).2.2
    · rintro ⟨hn, hends, hentries⟩
      refine ⟨Nat.zero_le n, by omega, hends.last, hends.inside, ?_⟩
      intro i _ hi
      exact ⟨(hends.before i hi).1, (hends.before i hi).2, hentries i hi⟩

/-- Records before the end are those before any with a type of 0. -/
theorem EndsAt.before_iff {raw : ByteMem} {size : Nat} (h : EndsAt raw size n) (i : Nat) :
    i < n ↔ ∀ j, j ≤ i → typeOf raw j ≠ 0 := by
  constructor
  · intro hi j hj
    exact (h.before j (by omega)).1
  · intro hall
    by_contra hout
    exact hall n (Nat.le_of_not_lt hout) h.last

/-- A call that returns does so with the calls below it. -/
theorem throughout_of_populates (fuel : Nat) :
    ∀ node, (populate_recur v h fuel node.1 node.2).isSome →
      Throughout (Below v h) (DirEnds v h) node := by
  induction fuel with
  | zero =>
      intro node hrun
      cases hrun
  | succ fuel ih =>
      intro node hrun
      cases hread : read_inode_metadata v node.2 with
      | none =>
          rw [populate_recur, hread] at hrun
          cases hrun
      | some inode =>
          obtain ⟨hsize, n, -, hends, hentries⟩ := (populate_recur_isSome hread fuel).mp hrun
          refine .mk ⟨inode, hread, hsize, n, hends, ?_⟩ ?_
          · intro i hi
            exact (entryOf_isSome.mp (hentries i hi)).1
          · rintro child ⟨inode', hread', i, htypes, hentered, rfl⟩
            cases hread.symm.trans hread'
            exact ih _ ((entryOf_isSome.mp (hentries i ((hends.before_iff i).mpr htypes))).2 hentered)

/-- Where every descent ends, some fuel is enough, and so is more. -/
theorem populates_of_throughout (hall : Throughout (Below v h) (DirEnds v h) node) :
    ∃ m, ∀ fuel, m ≤ fuel → (populate_recur v h fuel node.1 node.2).isSome := by
  induction hall with
  | @mk node here _ ih =>
      obtain ⟨inode, hread, hsize, n, hends, hfiles⟩ := here
      have hbelow : ∀ i ∈ List.range n, ∃ m, ∀ fuel, m ≤ fuel →
          (entryOf v h (populate_recur v h fuel) (node.1 ++ [i])
            (recordAt (rawBlock v h node.1 inode)
              (recOffset (rawBlock v h node.1 inode) i))).isSome := by
        intro i hi
        have hin := List.mem_range.mp hi
        by_cases hentered : (recordAt (rawBlock v h node.1 inode)
            (recOffset (rawBlock v h node.1 inode) i)).Entered
        · obtain ⟨m, hm⟩ := ih _ ⟨inode, hread, i, (hends.before_iff i).mp hin, hentered, rfl⟩
          exact ⟨m, fun fuel hfuel => entryOf_isSome.mpr ⟨hfiles i hin, fun _ => hm fuel hfuel⟩⟩
        · exact ⟨0, fun fuel _ => entryOf_isSome.mpr ⟨hfiles i hin, fun he => absurd he hentered⟩⟩
      obtain ⟨m, hm⟩ := exists_fuel (List.range n) hbelow
      refine ⟨max m (n + 1) + 1, ?_⟩
      intro fuel hfuel
      obtain ⟨fuel, rfl⟩ : ∃ k, fuel = k + 1 := ⟨fuel - 1, by omega⟩
      refine (populate_recur_isSome hread fuel).mpr ⟨hsize, n, by omega, hends, ?_⟩
      intro i hi
      exact hm fuel (by omega) i (List.mem_range.mpr hi)

/-- **Mounting ends** exactly under this condition. -/
theorem populates_iff (node : Node) : Populates v h node ↔ MountEnds v h node := by
  rw [MountEnds, ← Throughout.iff_acc]
  constructor
  · rintro ⟨fuel, es, hrun⟩
    exact throughout_of_populates fuel node (Option.isSome_iff_exists.mpr ⟨es, hrun⟩)
  · intro hall
    obtain ⟨m, hm⟩ := populates_of_throughout hall
    obtain ⟨es, hrun⟩ := Option.isSome_iff_exists.mp (hm m (Nat.le_refl m))
    exact ⟨m, es, hrun⟩

end Tree

/-! ## A record without a length -/

/-- The root in block 9, with the one record `.`, of length 0. -/
def stuckVolume : Volume where
  bytes := putInode (putRecord (fun _ => 0) 36864 2 0 1 2 46) 16512 9
  block_size := 4096
  inode_size := 128
  inodes_per_group := 32
  inode_table_addr := [4]

/-- The walk stays at the record. -/
theorem recOffset_stuck {raw : ByteMem} (h : recSize raw 0 = 0) (n : Nat) : recOffset raw n = 0 := by
  induction n with
  | zero => rfl
  | succ n ih => rw [recOffset, ih, h]

/-- Mounting does not end. -/
theorem stuckVolume_not_mounted : ¬ Populates stuckVolume onesHeap ([], 2) := by
  rintro ⟨fuel, es, hrun⟩
  have hall := throughout_of_populates fuel ([], 2) (Option.isSome_iff_exists.mpr ⟨es, hrun⟩)
  obtain ⟨inode, hread, -, n, hends, -⟩ := hall.reached Relation.ReflTransGen.refl
  have hinode : read_inode_metadata stuckVolume 2 = some (inodeAt stuckVolume 4 2) := by
    rw [read_inode_at rfl rfl (by decide) (by decide) (t := 4) (by decide)]
    exact if_pos (by decide)
  cases hread.symm.trans hinode
  have hsize : recSize (rawBlock stuckVolume onesHeap [] (inodeAt stuckVolume 4 2)) 0 = 0 := by
    decide
  have htype : recType (rawBlock stuckVolume onesHeap [] (inodeAt stuckVolume 4 2)) 0 ≠ 0 := by
    decide
  have hlast := hends.last
  rw [typeOf, recOffset_stuck hsize] at hlast
  exact htype hlast

end Fs
end EmbeddedOS
