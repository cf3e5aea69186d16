import EmbeddedOS.Fs.PathLookup

/-!
# Where path lookup finds what is there

An entry that the names of a path lead to is found where nothing in the directories on the way gets
in between: an entry of another type, or a file that reads as the directory to be entered.
-/

namespace EmbeddedOS
namespace Fs

open Stdlib

/-! ## The trees and the paths -/

/-- Every directory but `.` and `..` has entries for these two, and no two entries of it have names
with the same hash. -/
inductive Siblings : FsTree → Prop
  | mk {d : FsTree}
      (hdots : ∀ c, c = [46] ∨ c = [46, 46] → ∃ d', FsEntry.dir d' ∈ d.entries ∧ d'.name = c)
      (hdistinct : ∀ (i j : Nat) (e e' : FsEntry) (c c' : List UInt8), d.entries[i]? = some e →
        d.entries[j]? = some e' → e.name = some c → e'.name = some c' →
        hash32 c = hash32 c' → i = j)
      (hbelow : ∀ d', FsEntry.dir d' ∈ d.entries → d'.name ≠ [46] → d'.name ≠ [46, 46] →
        Siblings d') : Siblings d

/-- On the way along the positions: before the directory that is entered there is no entry of
another type and no file whose name, read as a directory, has the hash of the name; and before the
last entry there is none of another type. -/
inductive WayClear : FsTree → List (List UInt8) → List Nat → Prop
  | last {d : FsTree} {c : List UInt8} {j : Nat}
      (hbefore : ∀ i, i < j → d.entries[i]? ≠ some .unknown) : WayClear d [c] [j]
  | step {d d' : FsTree} {c : List UInt8} {cs : List (List UInt8)} {j : Nat} {q : List Nat}
      (hentry : d.entries[j]? = some (.dir d'))
      (hbefore : ∀ (i : Nat) (e : FsEntry), i < j → d.entries[i]? = some e →
        e ≠ .unknown ∧ ∀ f, e = .file f → f.asHash ≠ hash32 c)
      (hrest : WayClear d' cs q) : WayClear d (c :: cs) (j :: q)

section Complete

variable {d : FsTree} {c : List UInt8} {cs : List (List UInt8)} {position q : List Nat}
  {j n : Nat} {e : FsEntry} {found : Bool}

/-- The first element that a search stops at, and those before it. -/
theorem find?_first {α : Type} {l : List α} {p : α → Bool} {j : Nat} {a : α}
    (ha : l[j]? = some a) (hp : p a = true) :
    ∃ k b, k ≤ j ∧ l.find? p = some b ∧ l[k]? = some b ∧ p b = true ∧
      ∀ i b', i < k → l[i]? = some b' → p b' = false := by
  have hsome : (l.find? p).isSome := by
    rw [List.find?_isSome]
    exact ⟨a, List.mem_of_getElem? ha, hp⟩
  obtain ⟨b, hb⟩ := Option.isSome_iff_exists.mp hsome
  obtain ⟨hpb, k, hk, hget, hbefore⟩ := List.find?_eq_some_iff_getElem.mp hb
  have hfirst : ∀ i b', i < k → l[i]? = some b' → p b' = false := by
    intro i b' hi hb'
    obtain ⟨hlen, rfl⟩ := List.getElem?_eq_some_iff.mp hb'
    simpa using hbefore i hi
  refine ⟨k, b, ?_, hb, List.getElem?_eq_some_iff.mpr ⟨hk, hget⟩, hpb, hfirst⟩
  by_contra hlater
  rw [hfirst j a (Nat.lt_of_not_le hlater) ha] at hp
  cases hp

/-! ## One directory -/

theorem Siblings.two_entries (h : Siblings d) : ¬ d.entries.length < 2 := by
  cases h with
  | mk hdots _ _ =>
      intro hshort
      obtain ⟨d₁, hmem₁, hname₁⟩ := hdots [46] (Or.inl rfl)
      obtain ⟨d₂, hmem₂, hname₂⟩ := hdots [46, 46] (Or.inr rfl)
      obtain ⟨i, hi, hget₁⟩ := List.mem_iff_getElem.mp hmem₁
      obtain ⟨k, hk, hget₂⟩ := List.mem_iff_getElem.mp hmem₂
      have hsame : i = k := by omega
      subst hsame
      cases hget₁.symm.trans hget₂
      cases hname₁.symm.trans hname₂

/-- An entry with a name has the hash of its name. -/
theorem stopsLast_named (hpop : Populated d) (hmem : e ∈ d.entries) (hname : e.name = some c)
    (hash : UInt32) : stopsLast hash e = true ↔ hash32 c = hash := by
  cases hpop with
  | mk hfiles hdirs _ =>
      cases e with
      | file f =>
          cases hname
          simp [stopsLast, hfiles f hmem]
      | dir d' =>
          cases hname
          simp [stopsLast, hdirs d' hmem]
      | unknown => cases hname

/-- The last search finds the entry if none of another type comes before it. -/
theorem findLast_iff (hpop : Populated d) (hsib : Siblings d) (hentry : d.entries[j]? = some e)
    (hname : e.name = some c) :
    findLast position (hash32 c) d.entries 0 = ⟨some (position ++ [j], e.type), E_NOERR⟩ ↔
      WayClear d [c] [j] := by
  have hstop : stopsLast (hash32 c) e = true :=
    (stopsLast_named hpop (List.mem_of_getElem? hentry) hname _).mpr rfl
  obtain ⟨k, b, hkj, hfind, hk, hpb, hbefore⟩ := find?_first hentry hstop
  obtain ⟨m, hm, hlast⟩ := findLast_some hfind position 0
  rw [hlast, Nat.zero_add]
  cases hb : b.name with
  | none =>
      -- the search is over at an entry of another type
      have hunknown : b = .unknown := by
        cases b with
        | file f => cases hb
        | dir d' => cases hb
        | unknown => rfl
      subst hunknown
      constructor
      · intro hsame
        cases hsame
      · intro hclear
        cases hclear with
        | last hnone =>
            rcases Nat.eq_or_lt_of_le hkj with rfl | hlt
            · cases hentry.symm.trans hk
              cases hname
            · exact absurd hk (hnone k hlt)
        | step _ _ hrest => cases hrest
  | some c' =>
      have hash : hash32 c' = hash32 c :=
        (stopsLast_named hpop (List.mem_of_getElem? hk) hb _).mp hpb
      cases hsib with
      | mk _ hdistinct _ =>
          have hmj : m = j := hdistinct m j b e c' c hm hentry hb hname hash
          have hkj' : k = j := hdistinct k j b e c' c hk hentry hb hname hash
          subst hmj hkj'
          cases hm.symm.trans hentry
          refine iff_of_true ?_ (.last ?_)
          · cases e with
            | file f => rfl
            | dir d' => rfl
            | unknown => cases hname
          · intro i hi hunknown
            have hgoes := hbefore i .unknown hi hunknown
            cases hgoes

/-! ## The way to it -/

/-- The rest of a lookup finds the entry exactly if its way is clear. -/
theorem resume_finds_iff {names : List (List UInt8)} (hnamed : Named d names q e) :
    ∀ (position : List Nat) (found : Bool), Populated d → Siblings d →
      (∀ c ∈ names, c ≠ [46] ∧ c ≠ [46, 46]) → (names.length = 1 → found = true ∨ n = 1) →
      (resume position d found n names = some ⟨some (position ++ q, e.type), E_NOERR⟩ ↔
        WayClear d names q) := by
  induction hnamed with
  | last hentry hname =>
      intro position found hpop hsib _ hpass
      rw [resume_last (hpass rfl), Option.some.injEq]
      exact findLast_iff hpop hsib hentry hname
  | @step d d' c cs j q e hentry hname hrest ih =>
      intro position found hpop hsib hdots _
      have hmem := List.mem_of_getElem? hentry
      obtain ⟨c', ts, rfl⟩ : ∃ c' ts, cs = c' :: ts := by
        cases hrest with
        | last _ _ => exact ⟨_, _, rfl⟩
        | step _ _ _ => exact ⟨_, _, rfl⟩
      have hshort := hsib.two_entries
      have hhash : d'.hash = hash32 c := by
        cases hpop with
        | mk _ hdirs _ => rw [hdirs d' hmem, hname]
      have hstop : stopsDir (hash32 c) (.dir d') = true := by
        simp [stopsDir, FsEntry.dirHash, hhash]
      obtain ⟨k, b, hkj, hfind, hk, hpb, hbefore⟩ := find?_first hentry hstop
      have hnot : b ≠ .dir d' → k < j := by
        intro hne
        rcases Nat.eq_or_lt_of_le hkj with rfl | hlt
        · exact absurd (Option.some.inj (hk.symm.trans hentry)) hne
        · exact hlt
      cases b with
      | unknown =>
          rw [resume_unknown hshort hfind]
          refine iff_of_false (by rintro ⟨⟩) ?_
          intro hclear
          cases hclear with
          | step _ hnone _ => exact (hnone k _ (hnot (by rintro ⟨⟩)) hk).1 rfl
      | file f =>
          rw [resume_file hshort hfind]
          refine iff_of_false ?_ ?_
          · split <;> split <;> rintro ⟨⟩
          · intro hclear
            cases hclear with
            | step _ hnone _ =>
                have hash : f.asHash = hash32 c := by
                  simpa [stopsDir, FsEntry.dirHash] using hpb
                exact (hnone k _ (hnot (by rintro ⟨⟩)) hk).2 f rfl hash
      | dir d'' =>
          obtain ⟨m, hm, hrun⟩ := resume_dir position found n c' ts hshort hfind
          have hash : hash32 d''.name = hash32 d'.name := by
            have hfirst : d''.hash = hash32 c := by
              simpa [stopsDir, FsEntry.dirHash] using hpb
            cases hpop with
            | mk _ hdirs _ => rw [← hdirs d'' (List.mem_of_getElem? hk), hfirst, hname]
          cases hsib with
          | mk _ hdistinct hbelow =>
              have hmj : m = j := hdistinct m j _ _ _ _ hm hentry rfl rfl hash
              have hkj' : k = j := hdistinct k j _ _ _ _ hk hentry rfl rfl hash
              subst hmj hkj'
              cases hm.symm.trans hentry
              have hself := hdots c List.mem_cons_self
              have hpop' : Populated d' := hpop.below_of_mem hmem
              have hsib' : Siblings d' := hbelow d' hmem (hname ▸ hself.1) (hname ▸ hself.2)
              have hnext := ih (position ++ [k]) true hpop' hsib'
                (fun c hc => hdots c (List.mem_cons_of_mem _ hc)) (fun _ => Or.inl rfl)
              rw [hrun, List.append_cons position k q, hnext]
              constructor
              · intro hclear
                refine .step hentry ?_ hclear
                intro i e' hi he'
                have hgoes := hbefore i e' hi he'
                refine ⟨?_, ?_⟩
                · rintro rfl
                  cases hgoes
                · rintro f rfl hash
                  simp [stopsDir, FsEntry.dirHash, hash] at hgoes
              · intro hclear
                cases hclear with
                | step hentry' _ hrest' =>
                    cases hentry.symm.trans hentry'
                    exact hrest'

end Complete

/-! ## A small tree -/

/-- A root with the file `a` behind the given entries, of other types. -/
def rootBehind (others : List FsEntry) : FsTree :=
  directory [47] 2 (others ++ [.file (plainFile [97] 12)])

/-- Entries of other types do not matter to what is given of a directory. -/
theorem populated_rootBehind {others : List FsEntry} (hothers : ∀ e ∈ others, e = .unknown) :
    Populated (rootBehind others) := by
  have hdirs : ∀ d', .dir d' ∈ (rootBehind others).entries →
      d' = .mk [46] (hash32 [46]) 2 [] ∨ d' = .mk [46, 46] (hash32 [46, 46]) 2 [] := by
    intro d' hd'
    have hnone : FsEntry.dir d' ∉ others := fun hmem => absurd (hothers _ hmem) (by rintro ⟨⟩)
    simpa [rootBehind, directory, FsTree.entries, hnone] using hd'
  refine .mk ?_ ?_ ?_
  · intro f hf
    have hnone : FsEntry.file f ∉ others := fun hmem => absurd (hothers _ hmem) (by rintro ⟨⟩)
    have hfile : f = plainFile [97] 12 := by
      simpa [rootBehind, directory, FsTree.entries, hnone] using hf
    rw [hfile]
    decide
  · intro d' hd'
    rcases hdirs d' hd' with rfl | rfl <;> rfl
  · intro d' hd'
    rcases hdirs d' hd' with rfl | rfl <;> exact populated_leaf _ _ _

theorem siblings_rootBehind {others : List FsEntry} (hothers : others = [] ∨ others = [.unknown]) :
    Siblings (rootBehind others) := by
  have hashes : ∀ i < 4, ∀ j < 4,
      ((rootBehind others).entries.map (fun e => e.name.map hash32))[i]? =
        ((rootBehind others).entries.map (fun e => e.name.map hash32))[j]? →
      i = j ∨ ((rootBehind others).entries.map (fun e => e.name.map hash32)).getD i none = none := by
    rcases hothers with rfl | rfl <;> decide
  have hlength : (rootBehind others).entries.length ≤ 4 := by
    rcases hothers with rfl | rfl <;> decide
  refine .mk ?_ ?_ ?_
  · rintro c (rfl | rfl)
    · exact ⟨_, List.mem_cons_self, rfl⟩
    · exact ⟨_, List.mem_cons_of_mem _ List.mem_cons_self, rfl⟩
  · intro i j e e' c c' hi hj hc hc' hhash
    have hlt : i < (rootBehind others).entries.length := (List.getElem?_eq_some_iff.mp hi).1
    have hlt' : j < (rootBehind others).entries.length := (List.getElem?_eq_some_iff.mp hj).1
    have hsame : ((rootBehind others).entries.map (fun e => e.name.map hash32))[i]? =
        ((rootBehind others).entries.map (fun e => e.name.map hash32))[j]? := by
      rw [List.getElem?_map, List.getElem?_map, hi, hj, Option.map_some, Option.map_some, hc, hc',
        Option.map_some, Option.map_some, hhash]
    refine (hashes i (by omega) j (by omega) hsame).resolve_right ?_
    rw [List.getD_eq_getElem?_getD, List.getElem?_map, hi, Option.map_some, hc]
    exact nofun
  · intro d' hd' hdot hdotdot
    have hnone : FsEntry.dir d' ∉ others := by
      rcases hothers with rfl | rfl <;> simp
    have hdots : d' = .mk [46] (hash32 [46]) 2 [] ∨ d' = .mk [46, 46] (hash32 [46, 46]) 2 [] := by
      simpa [rootBehind, directory, FsTree.entries, hnone] using hd'
    rcases hdots with rfl | rfl
    · exact absurd rfl hdot
    · exact absurd rfl hdotdot

end Fs
end EmbeddedOS
