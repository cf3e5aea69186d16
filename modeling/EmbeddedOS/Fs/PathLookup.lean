import EmbeddedOS.Fs.Tree

/-!
# Path lookup

`traverse_fs` of `fs/ext2/file.c`: the path is split, its directories are followed by the hashes of
their names, and the last component is searched for in the directory reached. A node is known by
its position in the tree, the indices that lead to it from the root.
-/

namespace EmbeddedOS
namespace Fs

open Stdlib

abbrev E_NOERR : Int := 0
abbrev E_BADPATH : Int := 0x0307

/-- `'/'` -/
abbrev slash : UInt8 := 47

/-- `struct entry_info`; the entry and its type are missing where the structure stays as the stack
had it. -/
structure EntryInfo where
  found : Option (List Nat × UInt8)
  ret : Int
deriving DecidableEq, Repr

/-! ## `traverse_fs` -/

/-- `fs_head`: a directory and its position, or a file taken for one. -/
inductive Head where
  | dir (position : List Nat) (dir : FsTree)
  | file (file : FileNode)

/-- The inner loop over directories: index and entry of the first one whose hash, read as that of a
directory, is `hash`. Undefined where it meets a `NULL` entry first. -/
def findDir (hash : UInt32) : List FsEntry → Nat → Option (Option (Nat × FsEntry))
  | [], _ => some none
  | e :: es, j =>
      match e.dirHash with
      | none => none
      | some h => if h = hash then some (some (j, e)) else findDir hash es (j + 1)

/-- Where the loop over the directories of the path ends. -/
inductive Reached where
  | badPath
  | at (fs_head : Head) (found : Bool)

/-- The loop over the directories of the path. A directory that is not found leaves `fs_head`
where it is; only the last one's `found` survives. -/
def walk (fs_head : Head) (found : Bool) : List (List UInt8) → Option Reached
  | [] => some (.at fs_head found)
  | t :: ts =>
      match fs_head with
      | .dir position d =>
          if d.entries.length < 2 then
            some .badPath
          else
            match findDir (hash32 t) d.entries 0 with
            | none => none
            | some none => walk fs_head false ts
            | some (some (j, .dir d')) => walk (.dir (position ++ [j]) d') true ts
            | some (some (_, .file f)) => walk (.file f) true ts
            | some (some (_, .unknown)) => none
      | .file f =>
          -- The entries of a file are wherever its name happens to point.
          if f.asCount < 2 ∨ f.asEntries = 0 then some .badPath else none

/-- The last loop. -/
def findLast (position : List Nat) (hash : UInt32) : List FsEntry → Nat → EntryInfo
  | [], _ => ⟨none, E_NOERR⟩
  | .file f :: es, j =>
      if f.hash = hash then ⟨some (position ++ [j], FS_FILE), E_NOERR⟩
      else findLast position hash es (j + 1)
  | .dir d :: es, j =>
      if d.hash = hash then ⟨some (position ++ [j], FS_DIR), E_NOERR⟩
      else findLast position hash es (j + 1)
  | .unknown :: _, _ => ⟨none, E_BADPATH⟩

/-- After the directories: `n_token` parts in all, the last of them `t`. -/
def lookupLast (reached : Reached) (n_token : Nat) (t : List UInt8) : Option EntryInfo :=
  match reached with
  | .badPath => some ⟨none, E_BADPATH⟩
  | .at fs_head found =>
      if found = false ∧ n_token ≠ 1 then
        some ⟨none, E_BADPATH⟩
      else
        match fs_head with
        | .dir position d => some (findLast position (hash32 t) d.entries 0)
        | .file f => if f.asCount = 0 then some ⟨none, E_NOERR⟩ else none

/-- The traversal of the parts of a path. -/
def traverse (root : FsTree) (path_list : List (List UInt8)) : Option EntryInfo := do
  let reached ← walk (.dir [] root) false path_list.dropLast
  lookupLast reached path_list.length (path_list.getLastD [])

/-- `use_path`: a path that does not start at the root is put behind `fs->pwd`. -/
def usePath (pwd path : List UInt8) : List UInt8 :=
  if path.head? = some slash then path else pwd ++ path

/-- `traverse_fs`, given the stale byte at the end of the block of `str_split`. -/
def traverse_fs (root : FsTree) (pwd path : List UInt8) (stale : UInt8) : Option EntryInfo := do
  let path_list ← str_split slash (usePath pwd path) stale
  traverse root path_list

/-! ## What it should find -/

/-- The entry at a position, reached through directories named exactly as the path says, is named
exactly as its last component. -/
inductive Named : FsTree → List (List UInt8) → List Nat → FsEntry → Prop
  | last {d : FsTree} {c : List UInt8} {j : Nat} {e : FsEntry} (hentry : d.entries[j]? = some e)
      (hname : e.name = some c) : Named d [c] [j] e
  | step {d d' : FsTree} {c : List UInt8} {cs : List (List UInt8)} {j : Nat} {q : List Nat}
      {e : FsEntry} (hentry : d.entries[j]? = some (.dir d')) (hname : d'.name = c)
      (hrest : Named d' cs q e) : Named d (c :: cs) (j :: q) e

/-- A lookup returns, and if without an error then with an entry that the names lead to. -/
def Sound (root : FsTree) (names : List (List UInt8)) (result : Option EntryInfo) : Prop :=
  ∃ r, result = some r ∧
    (r.ret = E_NOERR → ∃ q e, r.found = some (q, e.type) ∧ Named root names q e)

/-! ## When it does -/

/-- Where the loop over directories stops: a `NULL` entry or the hash. -/
def stopsDir (hash : UInt32) (e : FsEntry) : Bool :=
  e.dirHash = none ∨ e.dirHash = some hash

/-- Where the last loop stops: an entry of another type or the hash. -/
def stopsLast (hash : UInt32) : FsEntry → Bool
  | .file f => f.hash = hash
  | .dir d => d.hash = hash
  | .unknown => true

/-- The condition on the parts of a path, from a directory; `missed` if a part before them was not
found, or found under another name. The last part is found under its own name and nothing was
missed, or an entry of another type comes first. Before that, the directory has less than two
entries; or a part is found, as a directory with which the condition goes on, or as a file that
reads as an empty directory and has to be entered; or it is not found, and it is the last directory
of the path or the condition goes on as missed. -/
def Safe (missed : Bool) (d : FsTree) : List (List UInt8) → Prop
  | [] => True
  | [c] =>
      match d.entries.find? (stopsLast (hash32 c)) with
      | some .unknown => True
      | some e => missed = false ∧ e.name = some c
      | none => False
  | c :: c' :: cs =>
      d.entries.length < 2 ∨
        match d.entries.find? (stopsDir (hash32 c)) with
        | some (.dir d') => Safe (missed || d'.name ≠ c) d' (c' :: cs)
        | some (.file f) => cs ≠ [] ∧ (f.asCount < 2 ∨ f.asEntries = 0)
        | some .unknown => False
        | none => cs = [] ∨ Safe true d (c' :: cs)

/-- The condition on a path. Behind a trailing delimiter the block of `str_split` happens to end
in a terminator, and the empty part that this makes is treated as one that cannot be found. -/
def LookupSafe (root : FsTree) (pwd path : List UInt8) (stale : UInt8) : Prop :=
  if (usePath pwd path).getLast? ≠ some slash then
    Safe false root (components slash (usePath pwd path))
  else
    stale = 0 ∧ Safe true root (components slash (usePath pwd path) ++ [[]])

/-! ## The loops -/

section Loops

variable {es : List FsEntry} {e : FsEntry} {hash : UInt32}

theorem findDir_none (h : es.find? (stopsDir hash) = none) (j : Nat) :
    findDir hash es j = some none := by
  induction es generalizing j with
  | nil => rfl
  | cons e es ih =>
      rw [List.find?_cons] at h
      cases hstop : stopsDir hash e with
      | true => simp [hstop] at h
      | false =>
          have hrest : es.find? (stopsDir hash) = none := by simpa [hstop] using h
          cases e with
          | unknown => simp [stopsDir, FsEntry.dirHash] at hstop
          | dir d =>
              have hne : d.hash ≠ hash := by simpa [stopsDir, FsEntry.dirHash] using hstop
              simp [findDir, FsEntry.dirHash, hne, ih hrest]
          | file f =>
              have hne : f.asHash ≠ hash := by simpa [stopsDir, FsEntry.dirHash] using hstop
              simp [findDir, FsEntry.dirHash, hne, ih hrest]

theorem findDir_some (h : es.find? (stopsDir hash) = some e) (j : Nat) :
    ∃ k, es[k]? = some e ∧
      findDir hash es j = if e.dirHash = none then none else some (some (j + k, e)) := by
  induction es generalizing j with
  | nil => cases h
  | cons e' es ih =>
      rw [List.find?_cons] at h
      cases hstop : stopsDir hash e' with
      | true =>
          have he : e' = e := by simpa [hstop] using h
          subst he
          refine ⟨0, rfl, ?_⟩
          rw [findDir, Nat.add_zero]
          cases hdir : e'.dirHash with
          | none => rfl
          | some x =>
              have hx : x = hash := by simpa [stopsDir, hdir] using hstop
              simp [hx]
      | false =>
          have hrest : es.find? (stopsDir hash) = some e := by simpa [hstop] using h
          rcases ih hrest (j + 1) with ⟨k, hk, hfind⟩
          refine ⟨k + 1, by simpa using hk, ?_⟩
          rw [findDir]
          cases hdir : e'.dirHash with
          | none => simp [stopsDir, hdir] at hstop
          | some x =>
              have hx : x ≠ hash := by simpa [stopsDir, hdir] using hstop
              simp only [if_neg hx, hfind, Nat.add_assoc, Nat.add_comm 1 k]

theorem findLast_none (h : es.find? (stopsLast hash) = none) (position : List Nat) (j : Nat) :
    findLast position hash es j = ⟨none, E_NOERR⟩ := by
  induction es generalizing j with
  | nil => rfl
  | cons e es ih =>
      rw [List.find?_cons] at h
      cases e with
      | unknown => simp [stopsLast] at h
      | dir d =>
          by_cases hd : d.hash = hash
          · simp [stopsLast, hd] at h
          · rw [findLast, if_neg hd]
            exact ih (by simpa [stopsLast, hd] using h) (j + 1)
      | file f =>
          by_cases hf : f.hash = hash
          · simp [stopsLast, hf] at h
          · rw [findLast, if_neg hf]
            exact ih (by simpa [stopsLast, hf] using h) (j + 1)

theorem findLast_some (h : es.find? (stopsLast hash) = some e) (position : List Nat) (j : Nat) :
    ∃ k, es[k]? = some e ∧ findLast position hash es j =
      match e with
      | .unknown => ⟨none, E_BADPATH⟩
      | e => ⟨some (position ++ [j + k], e.type), E_NOERR⟩ := by
  induction es generalizing j with
  | nil => cases h
  | cons e' es ih =>
      rw [List.find?_cons] at h
      cases hstop : stopsLast hash e' with
      | true =>
          have he : e' = e := by simpa [hstop] using h
          subst he
          refine ⟨0, rfl, ?_⟩
          cases e' with
          | unknown => rfl
          | dir d => simp [findLast, FsEntry.type, show d.hash = hash by simpa [stopsLast] using hstop]
          | file f => simp [findLast, FsEntry.type, show f.hash = hash by simpa [stopsLast] using hstop]
      | false =>
          have hrest : es.find? (stopsLast hash) = some e := by simpa [hstop] using h
          rcases ih hrest (j + 1) with ⟨k, hk, hfind⟩
          refine ⟨k + 1, by simpa using hk, ?_⟩
          have hnext : findLast position hash (e' :: es) j = findLast position hash es (j + 1) := by
            cases e' with
            | unknown => simp [stopsLast] at hstop
            | dir d => exact if_neg (by simpa [stopsLast] using hstop)
            | file f => exact if_neg (by simpa [stopsLast] using hstop)
          rw [hnext, hfind, Nat.add_assoc, Nat.add_comm 1 k]

end Loops

/-! ## The rest of a lookup -/

/-- The lookup of the parts that are left, from a directory on. -/
def resume (position : List Nat) (d : FsTree) (found : Bool) (n : Nat)
    (ts : List (List UInt8)) : Option EntryInfo :=
  (walk (.dir position d) found ts.dropLast).bind fun reached =>
    lookupLast reached n (ts.getLastD [])

theorem traverse_eq (root : FsTree) (ts : List (List UInt8)) :
    traverse root ts = resume [] root false ts.length ts := rfl

section Resume

variable {position : List Nat} {d : FsTree} {found : Bool} {n : Nat} {c c' : List UInt8}
  {cs ts : List (List UInt8)}

theorem resume_last (h : found = true ∨ n = 1) :
    resume position d found n [c] = some (findLast position (hash32 c) d.entries 0) := by
  have hcheck : ¬ (found = false ∧ n ≠ 1) := by
    rintro ⟨hfound, hn⟩
    rcases h with h | h
    · cases hfound.symm.trans h
    · exact hn h
  exact if_neg hcheck

theorem resume_short (h : d.entries.length < 2) :
    resume position d found n (c :: c' :: cs) = some ⟨none, E_BADPATH⟩ := by
  simp [resume, walk, h, lookupLast]

/-- A part that is not found leaves the directory as it is. -/
theorem resume_missed (h : ¬ d.entries.length < 2)
    (hfind : d.entries.find? (stopsDir (hash32 c)) = none) :
    resume position d found n (c :: c' :: cs) = resume position d false n (c' :: cs) := by
  rw [resume, List.dropLast_cons_cons, walk, if_neg h, findDir_none hfind, resume]
  rfl

theorem resume_missed_last (hn : n ≠ 1) :
    resume position d false n [c] = some ⟨none, E_BADPATH⟩ :=
  if_pos ⟨rfl, hn⟩

theorem resume_dir (position : List Nat) (found : Bool) (n : Nat) (c' : List UInt8)
    (cs : List (List UInt8)) {d' : FsTree} (h : ¬ d.entries.length < 2)
    (hfind : d.entries.find? (stopsDir (hash32 c)) = some (.dir d')) :
    ∃ k, d.entries[k]? = some (.dir d') ∧ resume position d found n (c :: c' :: cs) =
      resume (position ++ [k]) d' true n (c' :: cs) := by
  rcases findDir_some hfind 0 with ⟨k, hk, hdir⟩
  refine ⟨k, hk, ?_⟩
  have hdir' : findDir (hash32 c) d.entries 0 = some (some (k, .dir d')) := by
    rw [hdir, Nat.zero_add]
    rfl
  rw [resume, List.dropLast_cons_cons, walk, if_neg h, hdir', resume]
  rfl

theorem resume_file {f : FileNode} (h : ¬ d.entries.length < 2)
    (hfind : d.entries.find? (stopsDir (hash32 c)) = some (.file f)) :
    resume position d found n (c :: c' :: cs) =
      if cs = [] then if f.asCount = 0 then some ⟨none, E_NOERR⟩ else none
      else if f.asCount < 2 ∨ f.asEntries = 0 then some ⟨none, E_BADPATH⟩ else none := by
  rcases findDir_some hfind 0 with ⟨k, _, hdir⟩
  have hdir' : findDir (hash32 c) d.entries 0 = some (some (k, .file f)) := by
    rw [hdir, Nat.zero_add]
    rfl
  rw [resume, List.dropLast_cons_cons, walk, if_neg h, hdir']
  cases cs with
  | nil => rfl
  | cons c'' cs =>
      rw [if_neg (List.cons_ne_nil c'' cs)]
      simp only [List.dropLast_cons_cons, walk]
      split <;> rfl

theorem resume_unknown (h : ¬ d.entries.length < 2)
    (hfind : d.entries.find? (stopsDir (hash32 c)) = some .unknown) :
    resume position d found n (c :: c' :: cs) = none := by
  rcases findDir_some hfind 0 with ⟨k, _, hdir⟩
  have hdir' : findDir (hash32 c) d.entries 0 = none := hdir
  rw [resume, List.dropLast_cons_cons, walk, if_neg h, hdir']
  rfl

theorem findLast_below {r : EntryInfo} (h : findLast position (hash32 c) d.entries 0 = r)
    {p : List Nat} {type : UInt8} (hfound : r.found = some (p, type)) :
    ∃ k, p = position ++ [k] := by
  cases hfind : d.entries.find? (stopsLast (hash32 c)) with
  | none =>
      rw [findLast_none hfind] at h
      cases h
      cases hfound
  | some e =>
      rcases findLast_some hfind position 0 with ⟨k, _, hlast⟩
      rw [hlast] at h
      cases e with
      | unknown =>
          cases h
          cases hfound
      | dir d' =>
          cases h
          cases hfound
          exact ⟨0 + k, rfl⟩
      | file f =>
          cases h
          cases hfound
          exact ⟨0 + k, rfl⟩

/-- What is found lies below the directory. -/
theorem resume_below : ∀ {ts : List (List UInt8)} {position : List Nat} {d : FsTree} {found : Bool},
    ts ≠ [] → ∀ {r : EntryInfo}, resume position d found n ts = some r →
      ∀ {p : List Nat} {type : UInt8}, r.found = some (p, type) →
        ∃ k q, p = position ++ k :: q := by
  intro ts
  induction ts with
  | nil => exact fun hts => absurd rfl hts
  | cons c ts ih =>
      intro position d found _ r h p type hfound
      cases ts with
      | nil =>
          by_cases hpass : found = true ∨ n = 1
          · rw [resume_last hpass] at h
            rcases findLast_below (Option.some.inj h) hfound with ⟨k, hk⟩
            exact ⟨k, [], hk⟩
          · obtain ⟨hf, hn⟩ := not_or.mp hpass
            have hfalse : found = false := by simpa using hf
            rw [hfalse, resume_missed_last hn] at h
            cases h
            cases hfound
      | cons c' cs =>
          by_cases hshort : d.entries.length < 2
          · rw [resume_short hshort] at h
            cases h
            cases hfound
          cases hfind : d.entries.find? (stopsDir (hash32 c)) with
          | none =>
              rw [resume_missed hshort hfind] at h
              exact ih (List.cons_ne_nil c' cs) h hfound
          | some e =>
              cases e with
              | unknown =>
                  rw [resume_unknown hshort hfind] at h
                  cases h
              | file f =>
                  rw [resume_file hshort hfind] at h
                  split at h <;> split at h <;> cases h <;> cases hfound
              | dir d' =>
                  rcases resume_dir position found n c' cs hshort hfind with ⟨k, _, hrun⟩
                  rw [hrun] at h
                  rcases ih (List.cons_ne_nil c' cs) h hfound with ⟨k', q, hp⟩
                  exact ⟨k, k' :: q, by simpa using hp⟩

end Resume

/-! ## Soundness -/

section Soundness

variable {position : List Nat} {d : FsTree} {n : Nat} {c c' : List UInt8}
  {cs : List (List UInt8)}

/-- What the rest of a lookup has to deliver for the whole to be sound. -/
def SoundFrom (position : List Nat) (d : FsTree) (missed : Bool) (names : List (List UInt8))
    (result : Option EntryInfo) : Prop :=
  ∃ r, result = some r ∧ (r.ret = E_NOERR → missed = false ∧
    ∃ q e, r.found = some (position ++ q, e.type) ∧ Named d names q e)

theorem soundFrom_badPath {missed : Bool} {names : List (List UInt8)} :
    SoundFrom position d missed names (some ⟨none, E_BADPATH⟩) :=
  ⟨_, rfl, fun h => absurd h (by decide)⟩

theorem not_soundFrom_none {missed : Bool} {names : List (List UInt8)} :
    ¬ SoundFrom position d missed names none := by
  rintro ⟨r, hr, _⟩
  cases hr

theorem not_soundFrom_absent {missed : Bool} {names : List (List UInt8)} :
    ¬ SoundFrom position d missed names (some ⟨none, E_NOERR⟩) := by
  rintro ⟨r, hr, h⟩
  cases hr
  rcases (h rfl).2 with ⟨q, e, hfound, _⟩
  cases hfound

/-- In a populated tree a part that the loop over directories does not find is the name of none. -/
theorem not_named_of_missed (hpop : Populated d)
    (hfind : d.entries.find? (stopsDir (hash32 c)) = none) {q : List Nat} {e : FsEntry}
    (hcs : cs ≠ []) : ¬ Named d (c :: cs) q e := by
  intro hnamed
  cases hnamed with
  | last _ _ => exact hcs rfl
  | @step _ d' _ _ j q' _ hentry hname _ =>
      cases hpop with
      | mk _ hdirs _ =>
          have hmem : FsEntry.dir d' ∈ d.entries := List.mem_of_getElem? hentry
          have hstop := List.find?_eq_none.mp hfind _ hmem
          exact hstop (by simp [stopsDir, FsEntry.dirHash, hdirs d' hmem, hname])

theorem soundFrom_last {missed : Bool} :
    SoundFrom position d missed [c] (some (findLast position (hash32 c) d.entries 0)) ↔
      Safe missed d [c] := by
  cases hfind : d.entries.find? (stopsLast (hash32 c)) with
  | none =>
      rw [findLast_none hfind, Safe, hfind]
      exact iff_of_false not_soundFrom_absent id
  | some e =>
      rcases findLast_some hfind position 0 with ⟨k, hk, hlast⟩
      rw [hlast, Safe, hfind, Nat.zero_add]
      have hfound : e ≠ .unknown →
          (SoundFrom position d missed [c] (some ⟨some (position ++ [k], e.type), E_NOERR⟩) ↔
            missed = false ∧ e.name = some c) := by
        intro _
        constructor
        · rintro ⟨r, hr, h⟩
          cases hr
          rcases h rfl with ⟨hmissed, q, e', hq, hnamed⟩
          have hpos : [k] = q := List.append_cancel_left (congrArg Prod.fst (Option.some.inj hq))
          subst hpos
          cases hnamed with
          | last hentry hname =>
              cases hk.symm.trans hentry
              exact ⟨hmissed, hname⟩
          | step _ _ hrest => cases hrest
        · rintro ⟨hmissed, hname⟩
          exact ⟨_, rfl, fun _ => ⟨hmissed, [k], e, rfl, .last hk hname⟩⟩
      cases e with
      | unknown => exact iff_of_true soundFrom_badPath trivial
      | dir d' => exact hfound nofun
      | file f => exact hfound nofun

/-- One directory further down. -/
theorem soundFrom_step {missed : Bool} {d' : FsTree} {k : Nat}
    (hk : d.entries[k]? = some (.dir d')) :
    SoundFrom position d missed (c :: c' :: cs)
        (resume (position ++ [k]) d' true n (c' :: cs)) ↔
      SoundFrom (position ++ [k]) d' (missed || d'.name ≠ c) (c' :: cs)
        (resume (position ++ [k]) d' true n (c' :: cs)) := by
  constructor
  · rintro ⟨r, hr, h⟩
    refine ⟨r, hr, fun hret => ?_⟩
    rcases h hret with ⟨hmissed, q, e, hfound, hnamed⟩
    rcases resume_below (List.cons_ne_nil c' cs) hr hfound with ⟨k', q', hq⟩
    have hpos : q = k :: k' :: q' := by simpa using hq
    subst hpos
    cases hnamed with
    | step hentry hname hrest =>
        cases hk.symm.trans hentry
        exact ⟨by simp [hmissed, hname], k' :: q', e, by simpa using hfound, hrest⟩
  · rintro ⟨r, hr, h⟩
    refine ⟨r, hr, fun hret => ?_⟩
    rcases h hret with ⟨hmissed, q, e, hfound, hnamed⟩
    have hboth : missed = false ∧ d'.name = c := by simpa using hmissed
    exact ⟨hboth.1, k :: q, e, by simpa using hfound, .step hk hboth.2 hnamed⟩

/-- A missed part ends all hope of an entry that the names lead to. -/
theorem soundFrom_missed {missed : Bool} {result : Option EntryInfo} (hpop : Populated d)
    (hfind : d.entries.find? (stopsDir (hash32 c)) = none) :
    SoundFrom position d missed (c :: c' :: cs) result ↔
      SoundFrom position d true (c' :: cs) result := by
  constructor
  · rintro ⟨r, hr, h⟩
    refine ⟨r, hr, fun hret => ?_⟩
    rcases h hret with ⟨_, q, e, _, hnamed⟩
    exact absurd hnamed (not_named_of_missed hpop hfind (List.cons_ne_nil c' cs))
  · rintro ⟨r, hr, h⟩
    exact ⟨r, hr, fun hret => nomatch (h hret).1⟩

theorem Populated.below_of_mem (h : Populated d) {d' : FsTree} (hmem : .dir d' ∈ d.entries) :
    Populated d' := by
  cases h with
  | mk _ _ below => exact below d' hmem

/-- From any directory on, the lookup is sound exactly under the condition. -/
theorem soundFrom_iff : ∀ {ts : List (List UInt8)} {position : List Nat} {d : FsTree}
    {found missed : Bool}, ts ≠ [] → Populated d → (ts.length = 1 → found = true ∨ n = 1) →
      (1 < ts.length → n ≠ 1) →
        (SoundFrom position d missed ts (resume position d found n ts) ↔ Safe missed d ts) := by
  intro ts
  induction ts with
  | nil => exact fun hts => absurd rfl hts
  | cons c ts ih =>
      intro position d found missed _ hpop hone hmore
      cases ts with
      | nil => rw [resume_last (hone rfl), soundFrom_last]
      | cons c' cs =>
          have hn : n ≠ 1 := hmore (by simp)
          rw [Safe]
          by_cases hshort : d.entries.length < 2
          · rw [resume_short hshort]
            exact iff_of_true soundFrom_badPath (.inl hshort)
          rw [or_iff_right hshort]
          cases hfind : d.entries.find? (stopsDir (hash32 c)) with
          | none =>
              rw [resume_missed hshort hfind, soundFrom_missed hpop hfind]
              by_cases hcs : cs = []
              · subst hcs
                rw [resume_missed_last hn]
                exact iff_of_true soundFrom_badPath (.inl rfl)
              · have hlen : (c' :: cs).length ≠ 1 := by simpa using hcs
                rw [ih (List.cons_ne_nil c' cs) hpop (fun h => absurd h hlen) (fun _ => hn)]
                simp [hcs]
          | some e =>
              cases e with
              | unknown =>
                  rw [resume_unknown hshort hfind]
                  exact iff_of_false not_soundFrom_none id
              | file f =>
                  rw [resume_file hshort hfind]
                  by_cases hcs : cs = []
                  · rw [if_pos hcs]
                    refine iff_of_false ?_ (fun h => h.1 hcs)
                    split
                    · exact not_soundFrom_absent
                    · exact not_soundFrom_none
                  · rw [if_neg hcs]
                    split
                    · next hbad => exact iff_of_true soundFrom_badPath ⟨hcs, hbad⟩
                    · next hwild => exact iff_of_false not_soundFrom_none (fun h => hwild h.2)
              | dir d' =>
                  rcases resume_dir position found n c' cs hshort hfind with ⟨k, hk, hrun⟩
                  have hbelow : Populated d' := hpop.below_of_mem (List.mem_of_getElem? hk)
                  rw [hrun, soundFrom_step hk,
                    ih (List.cons_ne_nil c' cs) hbelow (fun _ => .inl rfl) (fun _ => hn)]

/-- With an empty part behind the names, whatever is found is one level too deep. -/
theorem trailing_not_named : ∀ {names : List (List UInt8)} {position : List Nat} {d : FsTree}
    {found : Bool}, Populated d → (names ≠ [] → n ≠ 1) →
      ∀ {r : EntryInfo}, resume position d found n (names ++ [[]]) = some r →
        ∀ {q : List Nat} {type : UInt8}, r.found = some (position ++ q, type) →
          ∀ {e : FsEntry}, ¬ Named d names q e := by
  intro names
  induction names with
  | nil =>
      intro position d found _ _ r _ q type _ e hnamed
      cases hnamed
  | cons c cs ih =>
      intro position d found hpop hn r h q type hfound e hnamed
      have hn' : n ≠ 1 := hn (List.cons_ne_nil c cs)
      have hparts : ∃ c' ts, cs ++ [[]] = c' :: ts ∧ (ts = [] ↔ cs = []) := by
        cases cs with
        | nil => exact ⟨[], [], rfl, by simp⟩
        | cons c' cs => exact ⟨c', cs ++ [[]], rfl, by simp⟩
      rcases hparts with ⟨c', ts, hts, hempty⟩
      rw [List.cons_append, hts] at h
      by_cases hshort : d.entries.length < 2
      · rw [resume_short hshort] at h
        cases h
        cases hfound
      cases hfind : d.entries.find? (stopsDir (hash32 c)) with
      | none =>
          rw [resume_missed hshort hfind] at h
          by_cases hcs : cs = []
          · have hlast := hempty.mpr hcs
            subst hlast
            rw [resume_missed_last hn'] at h
            cases h
            cases hfound
          · exact not_named_of_missed hpop hfind hcs hnamed
      | some e' =>
          cases e' with
          | unknown =>
              rw [resume_unknown hshort hfind] at h
              cases h
          | file f =>
              rw [resume_file hshort hfind] at h
              split at h <;> split at h <;> cases h <;> cases hfound
          | dir d' =>
              rcases resume_dir position found n c' ts hshort hfind with ⟨k, hk, hrun⟩
              rw [hrun] at h
              rcases resume_below (List.cons_ne_nil c' ts) h hfound with ⟨k', q', hq⟩
              have hpos : q = k :: k' :: q' := by simpa using hq
              subst hpos
              cases hnamed with
              | step hentry _ hrest =>
                  cases hk.symm.trans hentry
                  have hbelow : Populated d' := hpop.below_of_mem (List.mem_of_getElem? hk)
                  rw [← hts] at h
                  have hfound' : r.found = some (position ++ [k] ++ (k' :: q'), type) := by
                    simpa using hfound
                  exact ih hbelow (fun _ => hn') h hfound' hrest

/-- The lookup of a path that does not end in a delimiter. -/
theorem traverse_sound_names {root : FsTree} (hpop : Populated root)
    {names : List (List UInt8)} (hne : names ≠ []) :
    Sound root names (traverse root names) ↔ Safe false root names := by
  have hsafe : SoundFrom [] root false names (resume [] root false names.length names) ↔
      Safe false root names :=
    soundFrom_iff hne hpop (fun h => .inr h) (fun h => Nat.ne_of_gt h)
  rw [traverse_eq, ← hsafe]
  simp only [Sound, SoundFrom, List.nil_append, true_and]

/-- The lookup of a path that ends in one, with a terminator behind it by chance. -/
theorem traverse_sound_trailing {root : FsTree} (hpop : Populated root)
    {names : List (List UInt8)} (hne : names ≠ []) :
    Sound root names (traverse root (names ++ [[]])) ↔ Safe true root (names ++ [[]]) := by
  have hlen : (names ++ [[]]).length ≠ 1 := by
    simpa using hne
  have hsafe : SoundFrom [] root true (names ++ [[]])
      (resume [] root false (names ++ [[]]).length (names ++ [[]])) ↔
        Safe true root (names ++ [[]]) :=
    soundFrom_iff (by simp) hpop (fun h => .inr h) (fun h => Nat.ne_of_gt h)
  rw [traverse_eq, ← hsafe]
  constructor
  · rintro ⟨r, hr, h⟩
    refine ⟨r, hr, fun hret => ?_⟩
    rcases h hret with ⟨q, e, hfound, hnamed⟩
    exact absurd hnamed (trailing_not_named hpop (fun _ => hlen) hr
      (by rw [List.nil_append]; exact hfound))
  · rintro ⟨r, hr, h⟩
    exact ⟨r, hr, fun hret => nomatch (h hret).1⟩

theorem usePath_zero {pwd path : List UInt8} (hpwd : 0 ∉ pwd) (hpath : 0 ∉ path) :
    0 ∉ usePath pwd path := by
  unfold usePath
  split
  · exact hpath
  · simp [hpwd, hpath]

theorem usePath_component (pwd : List UInt8) {path : List UInt8} (h : ∃ c ∈ path, c ≠ slash) :
    ∃ c ∈ usePath pwd path, c ≠ slash := by
  rcases h with ⟨c, hc, hne⟩
  refine ⟨c, ?_, hne⟩
  unfold usePath
  split
  · exact hc
  · exact List.mem_append_right pwd hc

end Soundness

/-! ## A small tree -/

/-- A directory of the given name, with entries for itself and for its parent in front. -/
def directory (name : List UInt8) (inode : UInt32) (entries : List FsEntry) : FsTree :=
  .mk name (hash32 name) inode (.dir (.mk [46] (hash32 [46]) inode []) ::
    .dir (.mk [46, 46] (hash32 [46, 46]) 2 []) :: entries)

/-- A file of the given name. -/
def plainFile (name : List UInt8) (inode : UInt32) : FileNode :=
  { name := name ++ List.replicate (256 - name.length) 0
    hash := hash32 name
    inode := inode
    size := 4
    create_time := 0
    access_time := 0
    modify_time := 0
    flags := 0
    nlink := 1 }

/-- A root with one file, `a`. -/
def smallRoot : FsTree := directory [47] 2 [.file (plainFile [97] 12)]

theorem populated_leaf (name : List UInt8) (hash inode : UInt32) :
    Populated (.mk name hash inode []) :=
  .mk nofun nofun nofun

theorem populated_smallRoot : Populated smallRoot := by
  have hdirs : ∀ d', .dir d' ∈ smallRoot.entries →
      d' = .mk [46] (hash32 [46]) 2 [] ∨ d' = .mk [46, 46] (hash32 [46, 46]) 2 [] := by
    intro d' hd'
    simpa [smallRoot, directory, FsTree.entries] using hd'
  refine .mk ?_ ?_ ?_
  · intro f hf
    have hfile : f = plainFile [97] 12 := by
      simpa [smallRoot, directory, FsTree.entries] using hf
    rw [hfile]
    decide
  · intro d' hd'
    rcases hdirs d' hd' with rfl | rfl <;> rfl
  · intro d' hd'
    rcases hdirs d' hd' with rfl | rfl <;> exact populated_leaf _ _ _

end Fs
end EmbeddedOS
