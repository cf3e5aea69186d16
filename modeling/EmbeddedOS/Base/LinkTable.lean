import Mathlib.Data.Finset.Card
import Mathlib.Data.List.Nodup

/-!
# Tables of links

A table that holds, for each of finitely many places, the place that comes next, a mark where a
chain ends, or a value that says the place is free. A layout says which chains the table holds;
setting one entry starts a chain or drops the head of one.
-/

namespace EmbeddedOS
namespace Base

universe u

variable {α : Type u}

/-- A chain: each entry gives the next place, and the last one the mark. -/
def Linked (mark : α) (entry : α → α) : List α → Prop
  | [] => False
  | [k] => entry k = mark
  | k :: next :: rest => entry k = next ∧ Linked mark entry (next :: rest)

section Linked

variable {mark : α} {entry entry' : α → α} {c rest : List α} {k next : α}

theorem linked_cons : Linked mark entry (k :: next :: rest) ↔
    entry k = next ∧ Linked mark entry (next :: rest) :=
  Iff.rfl

/-- A chain depends on its own entries only. -/
theorem linked_congr (heq : ∀ k ∈ c, entry' k = entry k) (h : Linked mark entry c) :
    Linked mark entry' c := by
  induction c with
  | nil => exact h
  | cons k rest ih =>
      have hk : entry' k = entry k := heq k List.mem_cons_self
      cases rest with
      | nil => exact hk.trans h
      | cons next rest =>
          rw [linked_cons] at h ⊢
          exact ⟨hk.trans h.1, ih (fun j hj => heq j (List.mem_cons_of_mem _ hj)) h.2⟩

/-- The entry of a member is the mark or another member. -/
theorem linked_entry (h : Linked mark entry c) (hk : k ∈ c) : entry k = mark ∨ entry k ∈ c := by
  induction c with
  | nil => cases hk
  | cons head rest ih =>
      cases rest with
      | nil =>
          rw [List.mem_singleton] at hk
          subst hk
          exact .inl h
      | cons next rest =>
          rw [linked_cons] at h
          rcases List.mem_cons.mp hk with rfl | hk
          · refine .inr ?_
            rw [h.1]
            exact List.mem_cons_of_mem _ List.mem_cons_self
          · exact (ih h.2 hk).imp_right (List.mem_cons_of_mem _)

theorem linked_last (h : Linked mark entry c) (hk : c.getLast? = some k) : entry k = mark := by
  induction c with
  | nil => cases hk
  | cons head rest ih =>
      cases rest with
      | nil =>
          rw [List.getLast?_singleton, Option.some.injEq] at hk
          subst hk
          exact h
      | cons next rest =>
          rw [List.getLast?_cons_cons] at hk
          exact ih (linked_cons.mp h).2 hk

end Linked

/-! ## Layouts -/

/-- The chains are disjoint and without repetitions, and hold every place that is not free. -/
structure Layout (mark free : α) (dom : Finset α) (entry : α → α) (chains : List (List α)) :
    Prop where
  linked : ∀ c ∈ chains, Linked mark entry c
  disjoint : chains.flatten.Nodup
  inside : ∀ k ∈ chains.flatten, k ∈ dom
  rest : ∀ k ∈ dom, k ∉ chains.flatten → entry k = free

/-- The places whose entry says that they are free. -/
def freePlaces [DecidableEq α] (free : α) (dom : Finset α) (entry : α → α) : Finset α :=
  dom.filter fun k => entry k = free

section Layout

variable {mark free : α} {dom : Finset α} {entry : α → α} {chains others : List (List α)}
variable {c rest : List α} {k n next : α}

theorem Layout.mem_dom (h : Layout mark free dom entry chains) (hc : c ∈ chains) (hk : k ∈ c) :
    k ∈ dom :=
  h.inside k (List.mem_flatten.mpr ⟨c, hc, hk⟩)

/-- The entry of any place: free, the mark, or a place in a chain. -/
theorem Layout.entry_cases (h : Layout mark free dom entry chains) (hk : k ∈ dom) :
    entry k = free ∨ entry k = mark ∨ entry k ∈ dom := by
  by_cases hused : k ∈ chains.flatten
  · rcases List.mem_flatten.mp hused with ⟨c, hc, hkc⟩
    rcases linked_entry (h.linked c hc) hkc with hmark | hnext
    · exact .inr (.inl hmark)
    · exact .inr (.inr (h.mem_dom hc hnext))
  · exact .inl (h.rest k hk hused)

theorem Layout.used_ne_free (h : Layout mark free dom entry chains) (hmark : mark ≠ free)
    (hfree : free ∉ dom) (hc : c ∈ chains) (hk : k ∈ c) : entry k ≠ free := by
  rcases linked_entry (h.linked c hc) hk with hlast | hnext
  · rw [hlast]
    exact hmark
  · exact fun heq => hfree (heq ▸ h.mem_dom hc hnext)

theorem Layout.free_unused (h : Layout mark free dom entry chains) (hmark : mark ≠ free)
    (hfree : free ∉ dom) (hk : entry k = free) : k ∉ chains.flatten := by
  intro hused
  rcases List.mem_flatten.mp hused with ⟨c, hc, hkc⟩
  exact h.used_ne_free hmark hfree hc hkc hk

/-- A chain is no longer than the table. -/
theorem Layout.length_le (h : Layout mark free dom entry chains) (hc : c ∈ chains) :
    c.length ≤ dom.card := by
  classical
  have hnodup : c.Nodup := (List.nodup_flatten.mp h.disjoint).1 c hc
  rw [← List.toFinset_card_of_nodup hnodup]
  refine Finset.card_le_card fun k hk => ?_
  exact h.mem_dom hc (List.mem_toFinset.mp hk)

section Update

variable [DecidableEq α]

/-- Marking a free place starts a chain. -/
theorem Layout.start (h : Layout mark free dom entry chains) (hmark : mark ≠ free)
    (hfree : free ∉ dom) (hk : k ∈ dom) (hentry : entry k = free) :
    Layout mark free dom (Function.update entry k mark) ([k] :: chains) := by
  have hunused : k ∉ chains.flatten := h.free_unused hmark hfree hentry
  refine ⟨?_, ?_, ?_, ?_⟩
  · intro c hc
    rcases List.mem_cons.mp hc with rfl | hold
    · exact Function.update_self k mark entry
    · refine linked_congr (fun j hj => Function.update_of_ne ?_ _ _) (h.linked c hold)
      rintro rfl
      exact hunused (List.mem_flatten.mpr ⟨c, hold, hj⟩)
  · exact List.nodup_cons.mpr ⟨hunused, h.disjoint⟩
  · intro j hj
    rcases List.mem_cons.mp hj with rfl | hj
    · exact hk
    · exact h.inside j hj
  · intro j hj hunusedj
    rw [List.flatten_cons, List.singleton_append, List.mem_cons, not_or] at hunusedj
    rw [Function.update_of_ne hunusedj.1]
    exact h.rest j hj hunusedj.2

/-- Freeing the head of a chain leaves its tail. -/
theorem Layout.dropHead (h : Layout mark free dom entry ((n :: next :: rest) :: others)) :
    Layout mark free dom (Function.update entry n free) ((next :: rest) :: others) := by
  have hdisjoint : n ∉ ((next :: rest) :: others).flatten ∧
      ((next :: rest) :: others).flatten.Nodup := List.nodup_cons.mp h.disjoint
  have hkept : ∀ c ∈ (next :: rest) :: others, ∀ j ∈ c,
      Function.update entry n free j = entry j := by
    intro c hc j hj
    refine Function.update_of_ne ?_ _ _
    rintro rfl
    exact hdisjoint.1 (List.mem_flatten.mpr ⟨c, hc, hj⟩)
  refine ⟨?_, hdisjoint.2, ?_, ?_⟩
  · intro c hc
    refine linked_congr (hkept c hc) ?_
    rcases List.mem_cons.mp hc with rfl | hc
    · exact (linked_cons.mp (h.linked _ List.mem_cons_self)).2
    · exact h.linked c (List.mem_cons_of_mem _ hc)
  · exact fun j hj => h.inside j (List.mem_cons_of_mem _ hj)
  · intro j hj hunused
    by_cases hjn : j = n
    · rw [hjn, Function.update_self]
    · rw [Function.update_of_ne hjn]
      refine h.rest j hj fun hused => ?_
      rcases List.mem_cons.mp hused with heq | hused
      · exact hjn heq
      · exact hunused hused

/-! ## Counting the free places -/

theorem mem_freePlaces : k ∈ freePlaces free dom entry ↔ k ∈ dom ∧ entry k = free :=
  Finset.mem_filter

theorem card_freePlaces_mark (hmark : mark ≠ free) (hk : k ∈ dom) (hentry : entry k = free) :
    (freePlaces free dom (Function.update entry k mark)).card + 1 =
      (freePlaces free dom entry).card := by
  have herase : freePlaces free dom (Function.update entry k mark) =
      (freePlaces free dom entry).erase k := by
    ext j
    rw [Finset.mem_erase, mem_freePlaces, mem_freePlaces]
    by_cases hjk : j = k
    · subst hjk
      rw [Function.update_self]
      exact ⟨fun h => absurd h.2 hmark, fun h => absurd rfl h.1⟩
    · rw [Function.update_of_ne hjk]
      exact (and_iff_right hjk).symm
  rw [herase, Finset.card_erase_add_one (mem_freePlaces.mpr ⟨hk, hentry⟩)]

theorem card_freePlaces_free (hk : k ∈ dom) (hentry : entry k ≠ free) :
    (freePlaces free dom (Function.update entry k free)).card =
      (freePlaces free dom entry).card + 1 := by
  have hinsert : freePlaces free dom (Function.update entry k free) =
      insert k (freePlaces free dom entry) := by
    ext j
    rw [Finset.mem_insert, mem_freePlaces, mem_freePlaces]
    by_cases hjk : j = k
    · subst hjk
      rw [Function.update_self]
      exact ⟨fun _ => .inl rfl, fun _ => ⟨hk, rfl⟩⟩
    · rw [Function.update_of_ne hjk]
      exact (or_iff_right hjk).symm
  rw [hinsert, Finset.card_insert_of_notMem fun h => hentry (mem_freePlaces.mp h).2]

end Update

end Layout

end Base
end EmbeddedOS
