import Mathlib.Data.List.DropRight

/-!
# Strings of `string.c` and `hash.h`

Splitting a string at a delimiter, as `string.c` does it: the string without its outer delimiters
is copied to a block of its own, runs of delimiters are squeezed to one, and the block is cut at
those that are left. The copy ends one character too late: behind a trailing delimiter it takes
that delimiter along and not the terminator, so that what comes next is whatever the block held.
-/

namespace EmbeddedOS
namespace Stdlib

/-! ## `str_split` -/

section Split

variable (delim : UInt8)

/-- `host_str` after `strncpy`: the copied characters, and the byte of the fresh block behind
them. Undefined if no terminator is among them. -/
def hostStr (str : List UInt8) (stale : UInt8) : Option (List UInt8) :=
  let start_off := (str.takeWhile (· == delim)).length
  let end_off := (str.rdropWhile (· == delim)).length
  let block := ((str ++ [0]).drop start_off).take (end_off - start_off + 1) ++ [stale]
  if 0 ∈ block then some (block.takeWhile (· != 0)) else none

/-- The first loop: of several delimiters in a row all but one go. -/
def squeeze : List UInt8 → List UInt8
  | [] => []
  | [c] => [c]
  | c :: d :: cs =>
      if c = delim ∧ d = delim then squeeze (d :: cs) else c :: squeeze (d :: cs)

/-- The second loop: `token` is what has been read since the last delimiter. -/
def cut (token : List UInt8) : List UInt8 → List (List UInt8)
  | [] => [token]
  | c :: cs => if c = delim then token :: cut [] cs else cut (token ++ [c]) cs

/-- `str_split`, given the stale byte at the end of the block it gets. A string of delimiters only
is read below its start. -/
def str_split (str : List UInt8) (stale : UInt8) : Option (List (List UInt8)) :=
  if str.all (· == delim) then
    none
  else
    (hostStr delim str stale).map fun host => cut delim [] (squeeze delim host)

/-- The non-empty parts of a string between delimiters. -/
def components (str : List UInt8) : List (List UInt8) :=
  (str.splitOn delim).filter (· ≠ [])

variable {delim} {str core : List UInt8}

/-! ### Splitting a list -/

theorem splitOn_delim (cs : List UInt8) : (delim :: cs).splitOn delim = [] :: cs.splitOn delim := by
  rw [List.splitOn_cons_eq_if_modifyHead, if_pos (beq_self_eq_true delim)]

theorem splitOn_other {c : UInt8} (h : c ≠ delim) (cs : List UInt8) :
    (c :: cs).splitOn delim = (cs.splitOn delim).modifyHead (c :: ·) := by
  rw [List.splitOn_cons_eq_if_modifyHead, if_neg (by simpa using h)]

theorem splitOn_trailing (cs : List UInt8) :
    (cs ++ [delim]).splitOn delim = cs.splitOn delim ++ [[]] := by
  rw [List.splitOn_append_cons_self, List.splitOn_nil]

/-- The first part of a string that does not start with a delimiter is not empty. -/
theorem splitOn_head {c : UInt8} (h : c ≠ delim) (cs : List UInt8) :
    ∃ t ts, cs.splitOn delim = t :: ts ∧ (c :: cs).splitOn delim = (c :: t) :: ts := by
  rcases List.exists_cons_of_ne_nil (List.splitOn_ne_nil delim cs) with ⟨t, ts, hcs⟩
  exact ⟨t, ts, hcs, by rw [splitOn_other h, hcs]; rfl⟩

theorem components_delim (cs : List UInt8) : components delim (delim :: cs) = components delim cs := by
  rw [components, splitOn_delim, List.filter_cons_of_neg (by simp)]
  rfl

theorem components_trailing (cs : List UInt8) :
    components delim (cs ++ [delim]) = components delim cs := by
  rw [components, splitOn_trailing, List.filter_append, List.filter_cons_of_neg (by simp)]
  exact List.append_nil _

/-! ### The loops -/

theorem cut_eq (token cs : List UInt8) :
    cut delim token cs = (cs.splitOn delim).modifyHead (token ++ ·) := by
  induction cs generalizing token with
  | nil => simp [cut]
  | cons c cs ih =>
      by_cases hc : c = delim
      · rw [cut, if_pos hc, hc, splitOn_delim, ih]
        rcases List.exists_cons_of_ne_nil (List.splitOn_ne_nil delim cs) with ⟨t, ts, hcs⟩
        simp [hcs]
      · rcases splitOn_head hc cs with ⟨t, ts, hcs, hccs⟩
        rw [cut, if_neg hc, ih, hcs, hccs]
        simp

theorem cut_nil (cs : List UInt8) : cut delim [] cs = cs.splitOn delim := by
  rw [cut_eq]
  rcases List.exists_cons_of_ne_nil (List.splitOn_ne_nil delim cs) with ⟨t, ts, hcs⟩
  rw [hcs]
  rfl

/-- Cutting a squeezed string gives its components, behind an empty one if it starts with a
delimiter. -/
theorem splitOn_squeeze : ∀ {cs : List UInt8} (hne : cs ≠ []), cs.getLast hne ≠ delim →
    (squeeze delim cs).splitOn delim =
      if cs.head hne = delim then [] :: components delim cs else components delim cs := by
  intro cs
  induction cs with
  | nil => exact fun hne => absurd rfl hne
  | cons c cs ih =>
      intro hne hlast
      cases cs with
      | nil =>
          have hc : c ≠ delim := hlast
          rw [List.head_cons, if_neg hc, squeeze, components, splitOn_other hc]
          rfl
      | cons d cs =>
          have hrest := ih (List.cons_ne_nil d cs) (by simpa using hlast)
          rw [List.head_cons] at hrest
          rw [List.head_cons, squeeze]
          by_cases hc : c = delim
          · rw [hc, if_pos rfl, components_delim]
            by_cases hd : d = delim
            · rw [if_pos ⟨rfl, hd⟩, hrest, if_pos hd]
            · rw [if_neg (fun h => hd h.2), splitOn_delim, hrest, if_neg hd]
          · rw [if_neg (fun h => hc h.1), if_neg hc, splitOn_other hc, hrest]
            rcases splitOn_head hc (d :: cs) with ⟨t, ts, hcs, hccs⟩
            have hall : components delim (c :: d :: cs) = (c :: t) :: ts.filter (· ≠ []) := by
              rw [components, hccs, List.filter_cons_of_pos (by simp)]
            by_cases hd : d = delim
            · have ht : t = [] := by
                rw [hd, splitOn_delim] at hcs
                exact (List.cons.inj hcs).1.symm
              have htail : components delim (d :: cs) = ts.filter (· ≠ []) := by
                rw [components, hcs, ht, List.filter_cons_of_neg (by simp)]
              rw [if_pos hd, htail, hall, ht]
              rfl
            · have ht : t ≠ [] := by
                rcases splitOn_head hd cs with ⟨u, us, _, hdcs⟩
                rw [hdcs] at hcs
                rw [← (List.cons.inj hcs).1]
                exact List.cons_ne_nil d u
              have htail : components delim (d :: cs) = t :: ts.filter (· ≠ []) := by
                rw [components, hcs, List.filter_cons_of_pos (by simpa using ht)]
              rw [if_neg hd, htail, hall]
              rfl

theorem squeeze_trailing : ∀ {cs : List UInt8} (hne : cs ≠ []), cs.getLast hne ≠ delim →
    squeeze delim (cs ++ [delim]) = squeeze delim cs ++ [delim] := by
  intro cs
  induction cs with
  | nil => exact fun hne => absurd rfl hne
  | cons c cs ih =>
      intro hne hlast
      cases cs with
      | nil =>
          have hc : c ≠ delim := hlast
          simp [squeeze, hc]
      | cons d cs =>
          have hrest := ih (List.cons_ne_nil d cs) (by simpa using hlast)
          rw [List.cons_append, List.cons_append, squeeze, squeeze, ← List.cons_append, hrest]
          split <;> rfl

/-! ### The copy -/

/-- The outer delimiters of a string that has something else in it. -/
theorem exists_core (h : ∃ c ∈ str, c ≠ delim) :
    ∃ a b core, str = List.replicate a delim ++ core ++ List.replicate b delim ∧
      ∃ hne : core ≠ [], core.head hne ≠ delim ∧ core.getLast hne ≠ delim := by
  have hlead : ∃ a, str.takeWhile (· == delim) = List.replicate a delim :=
    ⟨_, List.eq_replicate_iff.mpr ⟨rfl, fun c hc => by simpa using List.mem_takeWhile_imp hc⟩⟩
  have htrail : ∃ b, (str.dropWhile (· == delim)).rtakeWhile (· == delim) =
      List.replicate b delim :=
    ⟨_, List.eq_replicate_iff.mpr ⟨rfl, fun c hc => by simpa using List.mem_rtakeWhile_imp hc⟩⟩
  rcases hlead with ⟨a, ha⟩
  rcases htrail with ⟨b, hb⟩
  have hrest : str.dropWhile (· == delim) ≠ [] := by
    rw [Ne, List.dropWhile_eq_nil_iff]
    intro hall
    rcases h with ⟨c, hc, hne⟩
    exact hne (by simpa using hall c hc)
  have hcore : (str.dropWhile (· == delim)).rdropWhile (· == delim) ≠ [] := by
    rw [Ne, List.rdropWhile_eq_nil_iff]
    intro hall
    have hhead := List.head_dropWhile_not (· == delim) hrest
    have := hall _ (List.head_mem hrest)
    rw [hhead] at this
    cases this
  have hjoin : str.dropWhile (· == delim) =
      (str.dropWhile (· == delim)).rdropWhile (· == delim) ++ List.replicate b delim := by
    rw [← hb]
    exact List.rdropWhile_append_rtakeWhile.symm
  refine ⟨a, b, (str.dropWhile (· == delim)).rdropWhile (· == delim), ?_, hcore, ?_, ?_⟩
  · rw [List.append_assoc, ← hjoin, ← ha]
    exact (List.takeWhile_append_dropWhile).symm
  · rw [(List.rdropWhile_prefix _ _).head hcore]
    simpa using List.head_dropWhile_not (· == delim) hrest
  · simpa using List.rdropWhile_last_not (· == delim) _ hcore

section Core

variable {a b : Nat} (hne : core ≠ [])

theorem components_core :
    components delim (List.replicate a delim ++ core ++ List.replicate b delim) =
      components delim core := by
  have hlead : ∀ cs, components delim (List.replicate a delim ++ cs) = components delim cs := by
    intro cs
    induction a with
    | zero => rfl
    | succ a ih => rw [List.replicate_succ, List.cons_append, components_delim, ih]
  rw [List.append_assoc, hlead]
  induction b with
  | zero => rw [List.replicate_zero, List.append_nil]
  | succ b ih => rw [List.replicate_succ', ← List.append_assoc, components_trailing, ih]

/-- The copy starts at the first character that is not a delimiter. -/
theorem start_core (hhead : core.head hne ≠ delim) :
    ((List.replicate a delim ++ core ++ List.replicate b delim).takeWhile (· == delim)).length =
      a := by
  cases core with
  | nil => exact absurd rfl hne
  | cons c core =>
      have hc : c ≠ delim := hhead
      induction a with
      | zero => simp [hc]
      | succ a ih => simpa [List.replicate_succ] using ih

theorem end_core (hlast : core.getLast hne ≠ delim) :
    ((List.replicate a delim ++ core ++ List.replicate b delim).rdropWhile (· == delim)).length =
      a + core.length := by
  have htrail : (List.replicate a delim ++ core ++ List.replicate b delim).rdropWhile (· == delim) =
      List.replicate a delim ++ core := by
    induction b with
    | zero =>
        rw [List.replicate_zero, List.append_nil, List.rdropWhile_eq_self_iff]
        intro hl
        rw [List.getLast_append_of_ne_nil _ hne]
        simpa using hlast
    | succ b ih =>
        rw [List.replicate_succ', ← List.append_assoc, List.rdropWhile_concat_pos _ _ _ (by simp)]
        exact ih
  rw [htrail, List.length_append, List.length_replicate]

theorem hostStr_core (hdelim : delim ≠ 0) (hzero : 0 ∉ core) (hhead : core.head hne ≠ delim)
    (hlast : core.getLast hne ≠ delim) (stale : UInt8) :
    hostStr delim (List.replicate a delim ++ core ++ List.replicate b delim) stale =
      if b = 0 then some core else if stale = 0 then some (core ++ [delim]) else none := by
  have hcopy : ((List.replicate a delim ++ core ++ List.replicate b delim ++ [0]).drop a).take
      (a + core.length - a + 1) = core ++ [if b = 0 then 0 else delim] := by
    rw [List.append_assoc, List.append_assoc, List.drop_left' List.length_replicate,
      Nat.add_sub_cancel_left, List.take_append, List.take_of_length_le (Nat.le_succ _)]
    cases b <;> simp [List.replicate_succ]
  have hkeep : ∀ c ∈ core, (c != 0) = true := by
    intro c hc
    have : c ≠ 0 := fun h => hzero (h ▸ hc)
    simpa using this
  simp only [hostStr, start_core hne hhead, end_core hne hlast, hcopy]
  by_cases hb : b = 0
  · simp [hb, List.takeWhile_append_of_pos hkeep]
  · by_cases hstale : stale = 0
    · simp [hb, hstale, List.takeWhile_append_of_pos hkeep, hdelim]
    · have : 0 ∉ core ++ [delim] ++ [stale] := by
        simp [hzero, Ne.symm hdelim, Ne.symm hstale]
      simp [hb, hstale, hzero, Ne.symm hdelim, Ne.symm hstale]

end Core

/-- The parts of a string, and behind a trailing delimiter an empty one if the block happens to
end in a terminator. -/
theorem str_split_spec (hdelim : delim ≠ 0) (hzero : 0 ∉ str) (h : ∃ c ∈ str, c ≠ delim)
    (stale : UInt8) :
    str_split delim str stale =
      if str.getLast? ≠ some delim then some (components delim str)
      else if stale = 0 then some (components delim str ++ [[]])
      else none := by
  rcases exists_core h with ⟨a, b, core, rfl, hne, hhead, hlast⟩
  have hall : (List.replicate a delim ++ core ++ List.replicate b delim).all (· == delim) = false := by
    rw [List.all_eq_false]
    exact ⟨core.head hne, by simp, by simpa using hhead⟩
  have hcut : cut delim [] (squeeze delim core) = components delim core := by
    rw [cut_nil, splitOn_squeeze hne hlast, if_neg hhead]
  have hcutTrailing : cut delim [] (squeeze delim (core ++ [delim])) =
      components delim core ++ [[]] := by
    rw [squeeze_trailing hne hlast, cut_nil, splitOn_trailing, splitOn_squeeze hne hlast,
      if_neg hhead]
  have hend : (List.replicate a delim ++ core ++ List.replicate b delim).getLast? ≠ some delim ↔
      b = 0 := by
    cases b with
    | zero => simpa [List.getLast?_append, List.getLast?_eq_some_getLast hne] using hlast
    | succ b => simp [List.replicate_succ']
  have hzero' : 0 ∉ core := by
    simp only [List.mem_append, not_or] at hzero
    exact hzero.1.2
  have hif : ∀ {α : Type} (x y : α), (if (List.replicate a delim ++ core ++
      List.replicate b delim).getLast? ≠ some delim then x else y) = if b = 0 then x else y := by
    intro α x y
    simp only [hend]
  rw [str_split, hall, components_core, hostStr_core hne hdelim hzero' hhead hlast, hif]
  by_cases hb : b = 0
  · simp only [hb, if_true, Bool.false_eq_true, if_false, Option.map_some, hcut]
  · by_cases hstale : stale = 0
    · simp only [hb, hstale, if_true, Bool.false_eq_true, if_false, Option.map_some, hcutTrailing]
    · simp only [hb, hstale, Bool.false_eq_true, if_false, Option.map_none]

theorem components_ne_nil (h : ∃ c ∈ str, c ≠ delim) : components delim str ≠ [] := by
  rcases exists_core h with ⟨a, b, core, rfl, hne, hhead, _⟩
  rw [components_core]
  cases core with
  | nil => exact absurd rfl hne
  | cons c core =>
      have hc : c ≠ delim := hhead
      rcases splitOn_head hc core with ⟨t, ts, _, hparts⟩
      rw [components, hparts, List.filter_cons_of_pos (by simp)]
      exact List.cons_ne_nil _ _

end Split

/-! ## `strncmp` and `strncpy` -/

/-- `strncmp` on strings without their terminators. -/
def strncmp (s1 s2 : List UInt8) : Nat → Int
  | 0 => 0
  | n + 1 =>
      let r : Int := (s1.headD 0).toNat - (s2.headD 0).toNat
      if r ≠ 0 then r
      else if s1.headD 0 = 0 then 0
      else strncmp s1.tail s2.tail n

/-- The `n` characters that `strncpy` writes. -/
def strncpy (src : List UInt8) (n : Nat) : List UInt8 :=
  let copied := (src.take n).takeWhile (· != 0)
  copied ++ List.replicate (n - copied.length) 0

/-- Comparing one character only. -/
theorem strncmp_one {s : List UInt8} {c : UInt8} (hc : c ≠ 0) (cs : List UInt8) :
    strncmp s (c :: cs) 1 ≠ 0 ↔ s.head? ≠ some c := by
  cases s with
  | nil =>
      have hpos : c.toNat ≠ 0 := fun h => hc (UInt8.toNat_inj.mp h)
      simp [strncmp]
      omega
  | cons d s =>
      have hdiff : ((d.toNat : Int) - c.toNat = 0) ↔ d = c := by
        rw [← UInt8.toNat_inj]
        omega
      by_cases hd : d = c
      · simp [strncmp, hd, hc]
      · have hne : ¬ ((d.toNat : Int) - c.toNat = 0) := fun h => hd (hdiff.mp h)
        simp [strncmp, hd, hne]

theorem strncpy_of_nonzero {src : List UInt8} (h : 0 ∉ src) : strncpy src src.length = src := by
  have hkeep : src.takeWhile (· != 0) = src := by
    rw [List.takeWhile_eq_self_iff]
    intro c hc
    have hne : c ≠ 0 := fun heq => h (heq ▸ hc)
    simpa using hne
  simp [strncpy, hkeep]

/-! ## `hash32` -/

/-- `hash32` of the characters of a string: a 64-bit sum cut to 31 bits. -/
def hash32 (string : List UInt8) : UInt32 :=
  let val : UInt64 := string.foldl (fun val c => ((val <<< 5) + val) + c.toUInt64) 5381
  (val &&& 0x7fffffff).toUInt32

end Stdlib
end EmbeddedOS
