import EmbeddedOS.Stdlib.StrSplit

/-!
# `strstr` and `strsep`

Two scans of `string.c`, over objects like those of `str_split`. `strstr` finds the first place at
which one string stands in another. `strsep` cuts a string where it stands: a call yields what is in
front of the next delimiter and moves the caller's pointer behind that.
-/

namespace EmbeddedOS
namespace Stdlib
namespace InPlace

/-! ## The code -/

/-- `strncmp`; reading past the end of an object is undefined. -/
def strncmp : List UInt8 → List UInt8 → Nat → Option Int
  | _, _, 0 => some 0
  | c1 :: s1, c2 :: s2, n + 1 =>
      let r : Int := (c1.toNat : Int) - c2.toNat
      if r ≠ 0 then some r
      else if c1 = 0 then some 0
      else strncmp s1 s2 n
  | _, _, _ + 1 => none

/-- The loops of `strstr`, at offset `off` of `in`. The inner one stops at the terminator or at `c`,
and the outer one goes on until what follows is `str`. -/
def strstrFrom (c : UInt8) (str : List UInt8) (len : Nat) : List UInt8 → Nat → Option (Option Nat)
  | [], _ => none
  | sc :: rest, off =>
      if sc = 0 then some none
      else if sc ≠ c then strstrFrom c str len rest (off + 1)
      else
        (strncmp rest str len).bind fun r =>
          if r ≠ 0 then strstrFrom c str len rest (off + 1) else some (some off)

/-- The result is an offset of `in`. -/
def strstr (object : List UInt8) : List UInt8 → Option (Option Nat)
  | [] => none
  | c :: str =>
      if c = 0 then some (some 0)
      else (strlen str).bind fun len => strstrFrom c str len object 0

/-- `do { .. } while (sc != 0)`: whether `c` is in `delim`, where the terminator counts. -/
def spanMeets (c : UInt8) : List UInt8 → Option Bool
  | [] => none
  | sc :: spanp => if sc = c then some true else if sc = 0 then some false else spanMeets c spanp

/-- `for (tok = s;;)`, at offset `s` of the block: the block after it, and `*stringp`. -/
def strsepFrom (delim block : List UInt8) : List UInt8 → Nat → Option (List UInt8 × Option Nat)
  | [], _ => none
  | c :: rest, s =>
      (spanMeets c delim).bind fun met =>
        if met then some (if c = 0 then (block, none) else (block.set s 0, some (s + 1)))
        else strsepFrom delim block rest (s + 1)

/-- The token, the block and `*stringp`. -/
def strsep (delim block : List UInt8) :
    Option Nat → Option (Option Nat × List UInt8 × Option Nat)
  | none => some (none, block, none)
  | some s => (strsepFrom delim block (block.drop s) s).map fun (block, stringp) =>
      (some s, block, stringp)

/-- `n` calls in a row: their tokens, and the block after the last one. -/
def strsepCalls (delim : List UInt8) :
    Nat → List UInt8 → Option Nat → Option (List (Option Nat) × List UInt8)
  | 0, block, _ => some ([], block)
  | n + 1, block, stringp =>
      (strsep delim block stringp).bind fun (tok, block, stringp) =>
        (strsepCalls delim n block stringp).map fun (toks, block) => (tok :: toks, block)

/-! ## Searching -/

section Search

variable {pat text : List UInt8} {c : UInt8} {i : Nat}

/-- The pattern stands at `i`, and nowhere before. -/
def FirstAt (pat text : List UInt8) (i : Nat) : Prop :=
  pat <+: text.drop i ∧ ∀ j < i, ¬ pat <+: text.drop j

/-- What a search from offset `off` on finds in the text that is left. -/
def Finds (pat text : List UInt8) (off : Nat) (r : Option (Option Nat)) : Prop :=
  (∃ i, r = some (some (off + i)) ∧ FirstAt pat text i) ∨ (r = some none ∧ ¬ pat <:+: text)

theorem FirstAt.cons (hnot : ¬ pat <+: c :: text) (h : FirstAt pat text i) :
    FirstAt pat (c :: text) (i + 1) := by
  refine ⟨h.1, fun j hj => ?_⟩
  cases j with
  | zero => exact hnot
  | succ j => exact h.2 j (Nat.lt_of_succ_lt_succ hj)

/-- The pattern does not stand at the front: it is found where it is in the rest. -/
theorem Finds.cons {off : Nat} {r : Option (Option Nat)} (hnot : ¬ pat <+: c :: text)
    (h : Finds pat text (off + 1) r) : Finds pat (c :: text) off r := by
  rcases h with ⟨i, hr, hfirst⟩ | ⟨hr, hnone⟩
  · refine .inl ⟨i + 1, ?_, hfirst.cons hnot⟩
    rw [hr, Nat.add_assoc, Nat.add_comm 1]
  · exact .inr ⟨hr, fun h => (List.infix_cons_iff.mp h).elim hnot hnone⟩

theorem strncmp_prefix (hpat : 0 ∉ pat) (htext : 0 ∉ text) :
    ∃ r, strncmp (text ++ [0]) (pat ++ [0]) pat.length = some r ∧ (r = 0 ↔ pat <+: text) := by
  induction pat generalizing text with
  | nil =>
      refine ⟨0, ?_, iff_of_true rfl List.nil_prefix⟩
      cases text <;> rfl
  | cons c pat ih =>
      rw [List.mem_cons, not_or] at hpat
      have hdiff : ∀ a : UInt8, (a.toNat : Int) - c.toNat = 0 ↔ a = c := by
        intro a
        rw [← UInt8.toNat_inj]
        omega
      cases text with
      | nil =>
          -- The terminator differs from every character of the pattern.
          have hne : ((0 : UInt8).toNat : Int) - c.toNat ≠ 0 := fun h => hpat.1 ((hdiff 0).mp h)
          refine ⟨_, if_pos hne, iff_of_false hne fun h => ?_⟩
          cases List.prefix_nil.mp h
      | cons a text =>
          rw [List.mem_cons, not_or] at htext
          have hstep : strncmp (a :: text ++ [0]) (c :: pat ++ [0]) (c :: pat).length =
              if (a.toNat : Int) - c.toNat ≠ 0 then some ((a.toNat : Int) - c.toNat)
              else if a = 0 then some 0 else strncmp (text ++ [0]) (pat ++ [0]) pat.length := rfl
          rw [hstep, List.cons_prefix_cons]
          by_cases ha : a = c
          · rw [if_neg (not_not_intro ((hdiff a).mpr ha)), if_neg (Ne.symm htext.1)]
            obtain ⟨r, hrun, hr⟩ := ih hpat.2 htext.2
            exact ⟨r, hrun, hr.trans (and_iff_right ha.symm).symm⟩
          · have hne : (a.toNat : Int) - c.toNat ≠ 0 := fun h => ha ((hdiff a).mp h)
            exact ⟨_, if_pos hne, iff_of_false hne fun h => ha h.1.symm⟩

/-- The search goes on as long as the pattern does not stand where it looks. -/
theorem strstrFrom_finds (hpat : 0 ∉ pat) (htext : 0 ∉ text) (off : Nat) :
    Finds (c :: pat) text off (strstrFrom c (pat ++ [0]) pat.length (text ++ [0]) off) := by
  induction text generalizing off with
  | nil =>
      refine .inr ⟨if_pos rfl, fun h => ?_⟩
      cases List.infix_nil.mp h
  | cons sc text ih =>
      rw [List.mem_cons, not_or] at htext
      by_cases hsc : sc = c
      · obtain ⟨r, hcmp, hr⟩ := strncmp_prefix hpat htext.2
        rw [List.cons_append, strstrFrom, if_neg (Ne.symm htext.1), if_neg (not_not_intro hsc), hcmp,
          Option.bind_some]
        by_cases hzero : r = 0
        · rw [if_neg (not_not_intro hzero)]
          have hhere : c :: pat <+: sc :: text := List.cons_prefix_cons.mpr ⟨hsc.symm, hr.mp hzero⟩
          exact .inl ⟨0, rfl, hhere, fun j hj => absurd hj (Nat.not_lt_zero j)⟩
        · rw [if_pos hzero]
          exact (ih htext.2 (off + 1)).cons fun h => hzero (hr.mpr (List.cons_prefix_cons.mp h).2)
      · rw [List.cons_append, strstrFrom, if_neg (Ne.symm htext.1), if_pos hsc]
        exact (ih htext.2 (off + 1)).cons fun h => hsc (List.cons_prefix_cons.mp h).1.symm

/-- **`strstr`** finds the first place of the pattern, or none if there is none. -/
theorem strstr_finds (hpat : 0 ∉ pat) (hlen : pat.length ≤ 2147483648) (htext : 0 ∉ text) :
    (∃ i, strstr (text ++ [0]) (pat ++ [0]) = some (some i) ∧ FirstAt pat text i) ∨
      (strstr (text ++ [0]) (pat ++ [0]) = some none ∧ ¬ pat <:+: text) := by
  cases pat with
  | nil => exact .inl ⟨0, rfl, List.nil_prefix, fun j hj => absurd hj (Nat.not_lt_zero j)⟩
  | cons c pat =>
      rw [List.mem_cons, not_or] at hpat
      rw [List.length_cons] at hlen
      have hstep : strstr (text ++ [0]) (c :: pat ++ [0]) =
          strstrFrom c (pat ++ [0]) pat.length (text ++ [0]) 0 := by
        rw [List.cons_append, strstr, if_neg (Ne.symm hpat.1), strlen_eq hpat.2, if_pos (by omega),
          Option.bind_some]
      rw [hstep]
      rcases strstrFrom_finds hpat.2 htext 0 with ⟨i, hrun, hfirst⟩ | hnone
      · exact .inl ⟨i, hrun.trans (by rw [Nat.zero_add]), hfirst⟩
      · exact .inr hnone

/-- `aab` in `caaab`. -/
theorem strstr_finds_third :
    ∃ i, strstr [99, 97, 97, 97, 98, 0] [97, 97, 98, 0] = some (some i) ∧
      FirstAt [97, 97, 98] [99, 97, 97, 97, 98] i :=
  (@strstr_finds [97, 97, 98] [99, 97, 97, 97, 98] (by decide) (by decide)
    (by decide)).resolve_right fun h => h.2 ⟨[99, 97], [], rfl⟩

end Search

/-! ## Cutting -/

section Cut

variable {delims tok rest text pre block : List UInt8} {c : UInt8}

theorem spanMeets_eq (hdelims : 0 ∉ delims) (c : UInt8) :
    spanMeets c (delims ++ [0]) = some (decide (c ∈ delims ∨ c = 0)) := by
  -- The terminator of `delim` is compared before the loop ends at it.
  induction delims with
  | nil =>
      by_cases hc : c = 0
      · subst hc
        rfl
      · rw [List.nil_append, spanMeets, if_neg (Ne.symm hc), if_pos rfl]
        simp [hc]
  | cons d delims ih =>
      rw [List.mem_cons, not_or] at hdelims
      rw [List.cons_append, spanMeets]
      by_cases hd : d = c
      · rw [if_pos hd]
        simp [hd]
      · rw [if_neg hd, if_neg (Ne.symm hdelims.1), ih hdelims.2]
        simp [Ne.symm hd]

/-- The scan passes over what is no delimiter. -/
theorem strsepFrom_skip (hdelims : 0 ∉ delims) (htok : ∀ c ∈ tok, c ∉ delims ∧ c ≠ 0) (s : Nat) :
    strsepFrom (delims ++ [0]) block (tok ++ rest) s =
      strsepFrom (delims ++ [0]) block rest (s + tok.length) := by
  induction tok generalizing s with
  | nil => rfl
  | cons c tok ih =>
      have hc := htok c List.mem_cons_self
      have hmiss : ¬ (c ∈ delims ∨ c = 0) := fun h => h.elim hc.1 hc.2
      rw [List.cons_append, strsepFrom, spanMeets_eq hdelims, Option.bind_some,
        decide_eq_false hmiss, if_neg Bool.false_ne_true,
        ih (fun d hd => htok d (List.mem_cons_of_mem c hd)), List.length_cons, Nat.add_assoc,
        Nat.add_comm 1]

/-- A call on a string without delimiters gives the whole of it. -/
theorem strsep_last (hdelims : 0 ∉ delims) (htok : ∀ c ∈ tok, c ∉ delims ∧ c ≠ 0) :
    strsep (delims ++ [0]) (pre ++ (tok ++ [0])) (some pre.length) =
      some (some pre.length, pre ++ (tok ++ [0]), none) := by
  rw [strsep, List.drop_left, strsepFrom_skip hdelims htok, strsepFrom, spanMeets_eq hdelims,
    Option.bind_some, decide_eq_true (Or.inr rfl), if_pos rfl, if_pos rfl, Option.map_some]

/-- A call in front of a delimiter puts a terminator there. -/
theorem strsep_cut (hdelims : 0 ∉ delims) (htok : ∀ c ∈ tok, c ∉ delims ∧ c ≠ 0)
    (hc : c ∈ delims) :
    strsep (delims ++ [0]) (pre ++ (tok ++ c :: rest)) (some pre.length) =
      some (some pre.length, pre ++ tok ++ [0] ++ rest, some (pre ++ tok ++ [0]).length) := by
  have hzero : c ≠ 0 := fun h => hdelims (h ▸ hc)
  have hset : (pre ++ (tok ++ c :: rest)).set (pre.length + tok.length) 0 =
      pre ++ tok ++ [0] ++ rest := by
    rw [← List.append_assoc, ← List.length_append, List.set_append_right _ _ (Nat.le_refl _),
      Nat.sub_self, List.set_cons_zero, List.append_assoc (pre ++ tok), List.singleton_append]
  rw [strsep, List.drop_left, strsepFrom_skip hdelims htok, strsepFrom, spanMeets_eq hdelims,
    Option.bind_some, decide_eq_true (Or.inl hc), if_pos rfl, if_neg hzero, Option.map_some, hset,
    List.length_append, List.length_append, List.length_singleton]

theorem strsepCalls_cons {delim block' last : List UInt8} {stringp stringp' first : Option Nat}
    {toks : List (Option Nat)} {n : Nat}
    (hcall : strsep delim block stringp = some (first, block', stringp'))
    (hcalls : strsepCalls delim n block' stringp' = some (toks, last)) :
    strsepCalls delim (n + 1) block stringp = some (first :: toks, last) := by
  rw [strsepCalls, hcall]
  exact congrArg (Option.map _) hcalls

theorem strsepCalls_null (delim block : List UInt8) (n : Nat) :
    strsepCalls delim n block none = some (List.replicate n none, block) := by
  induction n with
  | zero => rfl
  | succ n ih => exact strsepCalls_cons rfl ih

theorem stringAt_append (htok : 0 ∉ tok) :
    stringAt (pre ++ (tok ++ 0 :: rest)) pre.length = some tok := by
  have hmem : 0 ∈ tok ++ 0 :: rest := List.mem_append_right _ List.mem_cons_self
  rw [stringAt, List.drop_left, if_pos hmem, takeWhile_nonzero htok]

/-- The parts of a string between its delimiters. -/
def parts (delims text : List UInt8) : List (List UInt8) := text.splitOnP fun c => decide (c ∈ delims)

/-- Any number of calls, behind what earlier calls have cut off. -/
theorem strsepCalls_parts (hdelims : 0 ∉ delims) (htext : 0 ∉ text) (n : Nat) (pre : List UInt8) :
    ∃ toks suf, strsepCalls (delims ++ [0]) n (pre ++ (text ++ [0])) (some pre.length) =
        some (toks, pre ++ suf) ∧
      toks.map (Option.map (stringAt (pre ++ suf))) =
        (List.range n).map fun i => (parts delims text)[i]?.map some := by
  induction n generalizing text pre with
  | zero => exact ⟨[], text ++ [0], rfl, rfl⟩
  | succ n ih =>
      have hplain : ∀ {cs : List UInt8}, 0 ∉ cs → (∀ c ∈ cs, c ∉ delims) →
          ∀ c ∈ cs, c ∉ delims ∧ c ≠ 0 := fun hcs hnot c hc =>
        ⟨hnot c hc, fun h => hcs (h ▸ hc)⟩
      rw [List.range_succ_eq_map, List.map_cons, List.map_map]
      cases hfind : text.find? fun c => decide (c ∈ delims) with
      | none =>
          have hnot : ∀ c ∈ text, c ∉ delims := by simpa using List.find?_eq_none.mp hfind
          have hparts : parts delims text = [text] :=
            List.splitOnP_eq_singleton fun c hc => decide_eq_false (hnot c hc)
          refine ⟨some pre.length :: List.replicate n none, text ++ [0], ?_, ?_⟩
          · exact strsepCalls_cons (strsep_last hdelims (hplain htext hnot)) (strsepCalls_null _ _ n)
          · have hnull : ∀ i ∈ List.range n,
                ((fun i => ([text][i]?).map some) ∘ Nat.succ) i = (none : Option (Option (List UInt8))) :=
              fun _ _ => rfl
            rw [hparts, List.map_cons, Option.map_some, stringAt_append htext, List.map_replicate,
              List.map_congr_left hnull, List.map_const', List.length_range]
            rfl
      | some d =>
          obtain ⟨hd, tok, rest, rfl, hbefore⟩ := List.find?_eq_some_iff_append.mp hfind
          have hnot : ∀ c ∈ tok, c ∉ delims := by simpa using hbefore
          have hmem : d ∈ delims := of_decide_eq_true hd
          rw [List.mem_append, List.mem_cons, not_or, not_or] at htext
          have hparts : parts delims (tok ++ d :: rest) = tok :: parts delims rest :=
            List.splitOnP_append_cons_of_forall_mem (fun c hc => decide_eq_false (hnot c hc)) d hd rest
          obtain ⟨toks, suf, hrun, htoks⟩ := ih htext.2.2 (pre ++ tok ++ [0])
          -- What later calls cut lies behind the terminator of this token.
          have hblock : pre ++ tok ++ [0] ++ suf = pre ++ (tok ++ 0 :: suf) := by simp
          rw [hblock] at hrun htoks
          refine ⟨some pre.length :: toks, tok ++ 0 :: suf, ?_, ?_⟩
          · rw [List.append_assoc tok, List.cons_append]
            exact strsepCalls_cons (strsep_cut hdelims (hplain htext.1 hnot) hmem) hrun
          · rw [hparts, List.map_cons, Option.map_some, stringAt_append htext.1, htoks]
            rfl

/-- **`strsep`.** The `i`-th of any number of calls in a row gives the `i`-th part of the string, and
`NULL` behind the last one; every part is a string of its own in the block that is left. -/
theorem strsep_parts (hdelims : 0 ∉ delims) (htext : 0 ∉ text) (n : Nat) :
    ∃ toks block, strsepCalls (delims ++ [0]) n (text ++ [0]) (some 0) = some (toks, block) ∧
      toks.map (Option.map (stringAt block)) =
        (List.range n).map fun i => (parts delims text)[i]?.map some := by
  obtain ⟨toks, suf, hrun, htoks⟩ := strsepCalls_parts hdelims htext n []
  exact ⟨toks, suf, hrun, htoks⟩

/-- `a//b`, cut at every slash. -/
theorem strsep_parts_path :
    ∃ toks block, strsepCalls [47, 0] 4 [97, 47, 47, 98, 0] (some 0) = some (toks, block) ∧
      toks.map (Option.map (stringAt block)) =
        (List.range 4).map fun i => (parts [47] [97, 47, 47, 98])[i]?.map some :=
  @strsep_parts [47] [97, 47, 47, 98] (by decide) (by decide) 4

end Cut

end InPlace
end Stdlib
end EmbeddedOS
