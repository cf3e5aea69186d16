import EmbeddedOS.Stdlib.Strings

/-!
# `str_split` in place

`str_split` of `string.c` on the bytes of its string and of the block from `new`, with the indices
of the source. A read outside the string or the block has no defined result, and neither has an
`int` that overflows. It computes the splitting of `Strings`, cut for cut.
-/

namespace EmbeddedOS
namespace Stdlib
namespace InPlace

/-! ## The code -/

/-- `strlen`: the loop, from index `i` on, over an object. -/
def strlenFrom : List UInt8 → Nat → Option Nat
  | [], _ => none
  | c :: cs, i =>
      if c = 0 then some i
      else if i = 2147483647 then none
      else strlenFrom cs (i + 1)

def strlen (object : List UInt8) : Option Nat := strlenFrom object 0

section Loops

variable (delim : UInt8)

/-- `while (str[start_off] == delim) start_off++;` -/
def startOff : List UInt8 → Nat → Option Nat
  | [], _ => none
  | c :: cs, start_off => if c = delim then startOff cs (start_off + 1) else some start_off

/-- `while (str[end_off - 1] == delim) end_off--;` -/
def endOff (object : List UInt8) : Nat → Option Nat
  | 0 => none
  | end_off + 1 =>
      match object[end_off]? with
      | none => none
      | some c => if c = delim then endOff object end_off else some (end_off + 1)

/-- `memmove(&host_str[i], &host_str[i + 1], n)` -/
def moveDown (host_str : List UInt8) (i n : Nat) : List UInt8 :=
  host_str.take i ++ (host_str.drop (i + 1)).take n ++ host_str.drop (i + n)

/-- The inner loop of the first pass; it leaves the block and `j`. -/
def squeezeAt : Nat → List UInt8 → Nat → Nat → Option (List UInt8 × Nat)
  | 0, _, _, _ => none
  | fuel + 1, host_str, i, j =>
      match host_str[i + 1]? with
      | none => none
      | some c =>
          if c = delim then
            let j := j - 1
            let host_str := moveDown host_str i (j - i)
            squeezeAt fuel (host_str.set j 0) i j
          else
            some (host_str, j)

/-- `for (int i = 0; i < j; i++)`: the first pass, from `i` on. -/
def squeezeFrom : Nat → List UInt8 → Nat → Nat → Option (List UInt8)
  | 0, _, _, _ => none
  | fuel + 1, host_str, i, j =>
      if i < j then
        match host_str[i]? with
        | none => none
        | some c =>
            if c = delim then
              (squeezeAt delim (fuel + 1) host_str i j).bind fun (host_str, j) =>
                squeezeFrom fuel host_str (i + 1) j
            else
              squeezeFrom fuel host_str (i + 1) j
      else
        some host_str

/-- `while ((c = *host_str++))`: the second pass, from offset `p` on. `sep_str` holds offsets into
the block, `start` is the one that comes next. -/
def cutFrom : Nat → List UInt8 → Nat → Nat → List Nat → Option (List UInt8 × List Nat)
  | 0, _, _, _, _ => none
  | fuel + 1, block, p, start, sep_str =>
      match block[p]? with
      | none => none
      | some c =>
          if c = 0 then some (block, sep_str ++ [start])
          else if c = delim then cutFrom fuel (block.set p 0) (p + 1) (p + 1) (sep_str ++ [start])
          else cutFrom fuel block (p + 1) start sep_str

/-- The block after the call, and the offsets of the tokens in it; `stale` is what the block of
`new` holds. -/
def str_split (str : List UInt8) (stale : Nat → UInt8) : Option (List UInt8 × List Nat) := do
  let object := str ++ [0]
  let end_off ← strlen object
  let start_off ← startOff delim object 0
  let end_off ← endOff delim object end_off
  let size := end_off - start_off
  let host_str := (List.range (size + 2)).map stale
  if size = 2147483647 then none
  else
    let host_str := strncpy (object.drop start_off) (size + 1) ++ host_str.drop (size + 1)
    let j ← strlen host_str
    let host_str ← squeezeFrom delim (j + 1) host_str 0 j
    cutFrom delim (host_str.length + 1) host_str 0 0 []

end Loops

/-- The string at an offset of a block, if it is terminated. -/
def stringAt (block : List UInt8) (off : Nat) : Option (List UInt8) :=
  if 0 ∈ block.drop off then some ((block.drop off).takeWhile (· != 0)) else none

/-- The call reads within its objects, and what it returns are the components of the string. -/
def Splits (delim : UInt8) (str : List UInt8) (r : Option (List UInt8 × List Nat)) : Prop :=
  ∃ block sep_str, r = some (block, sep_str) ∧ sep_str.length = (components delim str).length ∧
    sep_str.map (stringAt block) = (components delim str).map some

/-! ## The scans -/

variable {delim : UInt8} {str : List UInt8}

theorem takeWhile_nonzero {cs rest : List UInt8} (h : 0 ∉ cs) :
    (cs ++ 0 :: rest).takeWhile (· != 0) = cs := by
  have hkeep : ∀ c ∈ cs, (c != 0) = true := by
    intro c hc
    have hne : c ≠ 0 := fun heq => h (heq ▸ hc)
    simpa using hne
  rw [List.takeWhile_append_of_pos hkeep]
  simp

theorem strlenFrom_eq {cs : List UInt8} (h : 0 ∉ cs) (rest : List UInt8) (i : Nat)
    (hi : i ≤ 2147483647) :
    strlenFrom (cs ++ 0 :: rest) i =
      if i + cs.length < 2147483648 then some (i + cs.length) else none := by
  induction cs generalizing i with
  | nil => rw [List.nil_append, strlenFrom, if_pos rfl, if_pos (by simp; omega)]; rfl
  | cons c cs ih =>
      rw [List.mem_cons, not_or] at h
      rw [List.cons_append, strlenFrom, if_neg (Ne.symm h.1), List.length_cons]
      by_cases hlast : i = 2147483647
      · rw [if_pos hlast, if_neg (by omega)]
      · rw [if_neg hlast, ih h.2 (i + 1) (by omega)]
        have hsum : i + 1 + cs.length = i + (cs.length + 1) := by omega
        rw [hsum]

theorem strlen_eq {cs : List UInt8} (h : 0 ∉ cs) (rest : List UInt8) :
    strlen (cs ++ 0 :: rest) = if cs.length < 2147483648 then some cs.length else none := by
  rw [strlen, strlenFrom_eq h rest 0 (by omega), Nat.zero_add]

/-- Without a terminator the loop runs out of the object. -/
theorem strlenFrom_unterminated {cs : List UInt8} (h : 0 ∉ cs) (i : Nat) :
    strlenFrom cs i = none := by
  induction cs generalizing i with
  | nil => rfl
  | cons c cs ih =>
      rw [List.mem_cons, not_or] at h
      rw [strlenFrom, if_neg (Ne.symm h.1), ih h.2, ite_self]

theorem startOff_eq {cs : List UInt8} (start_off : Nat) (h : ∃ c ∈ cs, c ≠ delim) :
    startOff delim cs start_off = some (start_off + (cs.takeWhile (· == delim)).length) := by
  induction cs generalizing start_off with
  | nil => simp at h
  | cons c cs ih =>
      by_cases hc : c = delim
      · have hrest : ∃ c ∈ cs, c ≠ delim := by simpa [hc] using h
        rw [startOff, if_pos hc, ih _ hrest, List.takeWhile_cons_of_pos (by simpa using hc),
          List.length_cons]
        congr 1
        omega
      · rw [startOff, if_neg hc, List.takeWhile_cons_of_neg (by simpa using hc)]
        rfl

theorem endOff_eq {cs rest : List UInt8} (h : ∃ c ∈ cs, c ≠ delim) :
    endOff delim (cs ++ rest) cs.length = some (cs.rdropWhile (· == delim)).length := by
  induction cs using List.reverseRecOn generalizing rest with
  | nil => simp at h
  | append_singleton cs c ih =>
      have hget : (cs ++ [c] ++ rest)[cs.length]? = some c := by simp
      rw [List.length_append, List.length_singleton, endOff, hget]
      by_cases hc : c = delim
      · have hrest : ∃ c ∈ cs, c ≠ delim := by simpa [hc] using h
        simp only [if_pos hc]
        rw [List.append_assoc, ih hrest, List.rdropWhile_concat_pos _ _ _ (by simpa using hc)]
      · simp only [if_neg hc]
        rw [List.rdropWhile_concat_neg _ _ _ (by simpa using hc), List.length_append,
          List.length_singleton]

/-- A string of delimiters only is read in front of its start. -/
theorem endOff_none {cs rest : List UInt8} (h : ∀ c ∈ cs, c = delim) :
    endOff delim (cs ++ rest) cs.length = none := by
  induction cs using List.reverseRecOn generalizing rest with
  | nil => rfl
  | append_singleton cs c ih =>
      have hget : (cs ++ [c] ++ rest)[cs.length]? = some c := by simp
      rw [List.length_append, List.length_singleton, endOff, hget]
      simp only [if_pos (h c (by simp))]
      rw [List.append_assoc]
      exact ih fun c hc => h c (by simp [hc])

/-! ## The first pass -/

theorem squeeze_other {c : UInt8} (h : c ≠ delim) (cs : List UInt8) :
    squeeze delim (c :: cs) = c :: squeeze delim cs := by
  cases cs with
  | nil => rfl
  | cons d cs => rw [squeeze, if_neg (fun hboth => h hboth.1)]

/-- Of several delimiters in a row one is kept. -/
theorem squeeze_run (cs : List UInt8) :
    squeeze delim (delim :: cs) = delim :: squeeze delim (cs.dropWhile (· == delim)) := by
  induction cs with
  | nil => rfl
  | cons d cs ih =>
      by_cases hd : d = delim
      · rw [squeeze, if_pos ⟨rfl, hd⟩, hd, ih, List.dropWhile_cons_of_pos (by simp)]
      · rw [squeeze, if_neg (fun h => hd h.2), List.dropWhile_cons_of_neg (by simpa using hd)]

/-- One pass of the inner loop: the characters behind `i` move down, and the last of them becomes a
terminator. -/
theorem moveDown_set (pre cs rest : List UInt8) (c d : UInt8) :
    (moveDown (pre ++ c :: d :: cs ++ 0 :: rest) pre.length (1 + cs.length)).set
        (pre.length + (1 + cs.length)) 0 = pre ++ d :: cs ++ 0 :: 0 :: rest := by
  have hfront : (pre ++ c :: d :: cs ++ 0 :: rest).take pre.length = pre := by
    rw [List.append_assoc, List.take_left]
  have hmoved : ((pre ++ c :: d :: cs ++ 0 :: rest).drop (pre.length + 1)).take (1 + cs.length) =
      d :: cs := by
    rw [List.append_assoc, List.drop_append, List.drop_of_length_le (by omega),
      Nat.add_sub_cancel_left]
    simp [Nat.add_comm 1]
  -- The last character that moved is still in its old place too, until it is cleared.
  have hlast : ∃ z, (pre ++ c :: d :: cs ++ 0 :: rest).drop (pre.length + (1 + cs.length)) =
      z :: 0 :: rest := by
    have hone : ((d :: cs).drop cs.length).length = 1 := by simp
    rcases List.length_eq_one_iff.mp hone with ⟨z, hz⟩
    refine ⟨z, ?_⟩
    rw [List.append_assoc, ← List.drop_drop, List.drop_left, Nat.add_comm 1, List.cons_append,
      List.drop_succ_cons, List.drop_append_of_le_length (by simp), hz]
    rfl
  rcases hlast with ⟨z, hz⟩
  have hlen : pre.length + (1 + cs.length) = (pre ++ d :: cs).length := by
    simp
    omega
  rw [moveDown, hfront, hmoved, hz, hlen, List.set_append_right _ _ (Nat.le_refl _), Nat.sub_self]
  rfl

/-- The inner loop removes the delimiters behind `i`. -/
theorem squeezeAt_eq (hdelim : delim ≠ 0) {fuel : Nat} (pre cs rest : List UInt8)
    (hfuel : cs.length < fuel) :
    ∃ rest', squeezeAt delim fuel (pre ++ delim :: cs ++ 0 :: rest) pre.length
        (pre.length + (1 + cs.length)) =
      some (pre ++ delim :: cs.dropWhile (· == delim) ++ 0 :: rest',
        pre.length + (1 + (cs.dropWhile (· == delim)).length)) := by
  induction fuel generalizing cs rest with
  | zero => omega
  | succ fuel ih =>
      cases cs with
      | nil =>
          have hget : (pre ++ [delim] ++ 0 :: rest)[pre.length + 1]? = some 0 := by simp
          refine ⟨rest, ?_⟩
          rw [squeezeAt, hget]
          simp only [if_neg (Ne.symm hdelim)]
          rfl
      | cons d cs =>
          have hget : (pre ++ delim :: d :: cs ++ 0 :: rest)[pre.length + 1]? = some d := by simp
          rw [squeezeAt, hget]
          -- The next character is a delimiter too and goes, or the loop ends.
          by_cases hd : d = delim
          · subst hd
            have hj : pre.length + (1 + (d :: cs).length) - 1 = pre.length + (1 + cs.length) := by
              simp
              omega
            have hn : pre.length + (1 + cs.length) - pre.length = 1 + cs.length := by omega
            rcases ih cs (0 :: rest) (by simp at hfuel; omega) with ⟨rest', hrest⟩
            refine ⟨rest', ?_⟩
            simp only [if_true, hj, hn, moveDown_set, hrest]
            rw [List.dropWhile_cons_of_pos (by simp)]
          · refine ⟨rest, ?_⟩
            simp only [if_neg hd]
            rw [List.dropWhile_cons_of_neg (by simpa using hd)]

/-- The first pass squeezes the string. -/
theorem squeezeFrom_eq {fuel : Nat} (pre cs rest : List UInt8) (hzero : 0 ∉ cs)
    (hfuel : cs.length < fuel) :
    ∃ rest', squeezeFrom delim fuel (pre ++ cs ++ 0 :: rest) pre.length (pre.length + cs.length) =
      some (pre ++ squeeze delim cs ++ 0 :: rest') := by
  induction fuel generalizing pre cs rest with
  | zero => omega
  | succ fuel ih =>
      cases cs with
      | nil =>
          refine ⟨rest, ?_⟩
          rw [squeezeFrom, if_neg (by simp)]
          rfl
      | cons c cs =>
          rw [List.mem_cons, not_or] at hzero
          have hget : (pre ++ c :: cs ++ 0 :: rest)[pre.length]? = some c := by simp
          have hlen : (pre ++ [c]).length = pre.length + 1 := by simp
          rw [squeezeFrom, if_pos (by simp), hget]
          -- After a delimiter the inner loop runs before the pass goes on behind it.
          by_cases hc : c = delim
          · subst hc
            have hsuffix := List.dropWhile_suffix (l := cs) (· == c)
            have hpass : cs.length < fuel + 1 := by
              simp only [List.length_cons] at hfuel
              omega
            rcases squeezeAt_eq (Ne.symm hzero.1) pre cs rest hpass with ⟨rest₁, hinner⟩
            rcases ih (pre ++ [c]) (cs.dropWhile (· == c)) rest₁
              (fun h => hzero.2 (hsuffix.subset h))
              (by have := hsuffix.length_le; simp at hfuel; omega) with ⟨rest₂, houter⟩
            refine ⟨rest₂, ?_⟩
            rw [Nat.add_comm 1 cs.length] at hinner
            rw [hlen, Nat.add_assoc, List.append_assoc, List.append_assoc] at houter
            simp only [if_true, List.length_cons, hinner, Option.bind_some]
            rw [List.append_assoc, List.cons_append]
            rw [squeeze_run, List.append_assoc]
            simpa using houter
          · rcases ih (pre ++ [c]) cs rest hzero.2 (by simp at hfuel; omega) with ⟨rest', hrest⟩
            refine ⟨rest', ?_⟩
            rw [hlen, Nat.add_assoc, Nat.add_comm 1 cs.length] at hrest
            simp only [if_neg hc, List.length_cons]
            rw [squeeze_other hc]
            simpa using hrest

/-! ## The second pass -/

/-- The block with terminators in place of its delimiters. -/
def terminate (delim : UInt8) (cs : List UInt8) : List UInt8 :=
  cs.map fun c => if c = delim then 0 else c

theorem stringAt_done {pre token : List UInt8} (h : 0 ∉ token) (rest : List UInt8) :
    stringAt (pre ++ token ++ 0 :: rest) pre.length = some token := by
  rw [stringAt, List.append_assoc, List.drop_left, if_pos (by simp), takeWhile_nonzero h]

/-- The second pass cuts the block: `token` is what it has read since the last delimiter. -/
theorem cutFrom_eq {fuel : Nat} (pre token cs rest : List UInt8) (sep_str : List Nat)
    (htoken : 0 ∉ token) (hzero : 0 ∉ cs) (hfuel : cs.length < fuel) :
    ∃ starts, cutFrom delim fuel (pre ++ token ++ cs ++ 0 :: rest) (pre.length + token.length)
        pre.length sep_str =
      some (pre ++ token ++ terminate delim cs ++ 0 :: rest, sep_str ++ starts) ∧
      starts.map (stringAt (pre ++ token ++ terminate delim cs ++ 0 :: rest)) =
        (cut delim token cs).map some := by
  induction fuel generalizing pre token cs sep_str with
  | zero => omega
  | succ fuel ih =>
      cases cs with
      | nil =>
          have hget : (pre ++ token ++ [] ++ 0 :: rest)[pre.length + token.length]? = some 0 := by
            simp
          refine ⟨[pre.length], ?_, ?_⟩
          · rw [cutFrom, hget]
            rfl
          · rw [cut, List.map_singleton, List.map_singleton, terminate, List.map_nil,
              List.append_nil, stringAt_done htoken]
      | cons c cs =>
          rw [List.mem_cons, not_or] at hzero
          have hget : (pre ++ token ++ c :: cs ++ 0 :: rest)[pre.length + token.length]? = some c := by
            rw [List.append_assoc, List.getElem?_append_right (by simp)]
            simp
          rw [cutFrom, hget]
          -- At a delimiter the token is complete, and the next one starts behind it.
          by_cases hc : c = delim
          · have hset : (pre ++ token ++ c :: cs ++ 0 :: rest).set (pre.length + token.length) 0 =
                (pre ++ token ++ [0]) ++ [] ++ cs ++ 0 :: rest := by
              rw [← List.length_append, List.append_assoc, List.set_append_right _ _ (Nat.le_refl _),
                Nat.sub_self]
              simp
            have hlen : pre.length + token.length + 1 = (pre ++ token ++ [0]).length := by simp; omega
            have hblock : (pre ++ token ++ [0]) ++ [] ++ terminate delim cs ++ 0 :: rest =
                pre ++ token ++ terminate delim (c :: cs) ++ 0 :: rest := by
              simp [terminate, hc]
            rcases ih (pre ++ token ++ [0]) [] cs (sep_str ++ [pre.length]) (by simp) hzero.2
              (by simp at hfuel; omega) with ⟨starts, hrun, htokens⟩
            rw [hblock] at hrun htokens
            refine ⟨pre.length :: starts, ?_, ?_⟩
            · simp only [if_neg (Ne.symm hzero.1), if_pos hc, hset, hlen]
              rw [List.length_nil, Nat.add_zero] at hrun
              rw [hrun, List.append_assoc sep_str, List.singleton_append]
            · have hdone := @stringAt_done pre token htoken (terminate delim cs ++ 0 :: rest)
              rw [cut, if_pos hc, List.map_cons, List.map_cons, htokens]
              congr 1
              rw [← hdone]
              simp [terminate, hc]
          -- Any other character belongs to the token.
          · rcases ih pre (token ++ [c]) cs sep_str (by simp [htoken, hzero.1]) hzero.2
              (by simp at hfuel; omega) with ⟨starts, hrun, htokens⟩
            have hblock : pre ++ (token ++ [c]) ++ terminate delim cs ++ 0 :: rest =
                pre ++ token ++ terminate delim (c :: cs) ++ 0 :: rest := by
              simp [terminate, hc]
            have hsame : pre ++ (token ++ [c]) ++ cs ++ 0 :: rest =
                pre ++ token ++ c :: cs ++ 0 :: rest := by simp
            rw [hblock] at hrun htokens
            rw [hsame, List.length_append, List.length_singleton, ← Nat.add_assoc] at hrun
            refine ⟨starts, ?_, ?_⟩
            · simp only [if_neg (Ne.symm hzero.1), if_neg hc]
              exact hrun
            · rw [cut, if_neg hc]
              exact htokens

/-! ## The whole call -/

theorem squeeze_subset (cs : List UInt8) : squeeze delim cs ⊆ cs := by
  induction cs with
  | nil => exact List.Subset.refl _
  | cons c cs ih =>
      cases cs with
      | nil => exact List.Subset.refl _
      | cons d cs =>
          rw [squeeze]
          split
          · exact List.subset_cons_of_subset c ih
          · exact List.cons_subset_cons c ih

/-- Both passes, as they follow the copy. -/
def passes (delim : UInt8) (block : List UInt8) : Option (List UInt8 × List Nat) :=
  (strlen block).bind fun j =>
    (squeezeFrom delim (j + 1) block 0 j).bind fun block =>
      cutFrom delim (block.length + 1) block 0 0 []

theorem passes_unterminated {block : List UInt8} (h : 0 ∉ block) : passes delim block = none := by
  rw [passes, strlen, strlenFrom_unterminated h, Option.bind_none]

theorem passes_eq {host : List UInt8} (hzero : 0 ∉ host) (hlen : host.length < 2147483648)
    (rest : List UInt8) :
    ∃ block sep_str, passes delim (host ++ 0 :: rest) = some (block, sep_str) ∧
      sep_str.map (stringAt block) = (cut delim [] (squeeze delim host)).map some := by
  rcases @squeezeFrom_eq delim _ [] host rest hzero (Nat.lt_succ_self _) with ⟨rest', hfirst⟩
  rw [List.nil_append, List.length_nil, Nat.zero_add, List.nil_append] at hfirst
  have hkept : 0 ∉ squeeze delim host := fun h => hzero (squeeze_subset host h)
  have hpass : (squeeze delim host).length < (squeeze delim host ++ 0 :: rest').length + 1 := by
    rw [List.length_append]
    omega
  rcases @cutFrom_eq delim ((squeeze delim host ++ 0 :: rest').length + 1) [] [] (squeeze delim host)
    rest' [] List.not_mem_nil hkept hpass with ⟨starts, hsecond, htokens⟩
  refine ⟨_, starts, ?_, htokens⟩
  rw [passes, strlen_eq hzero, if_pos hlen, Option.bind_some, hfirst, Option.bind_some]
  exact hsecond

/-- A block that has a terminator starts with a string. -/
theorem exists_terminated {block : List UInt8} (h : 0 ∈ block) :
    ∃ rest, block = block.takeWhile (· != 0) ++ 0 :: rest := by
  have hne : block.dropWhile (· != 0) ≠ [] := by
    rw [Ne, List.dropWhile_eq_nil_iff]
    intro hall
    simpa using hall 0 h
  have hhead : (block.dropWhile (· != 0)).head hne = 0 := by
    simpa using List.head_dropWhile_not (· != 0) hne
  have hcons : block.dropWhile (· != 0) = 0 :: (block.dropWhile (· != 0)).tail :=
    (List.cons_head_tail hne).symm.trans (by rw [hhead])
  refine ⟨(block.dropWhile (· != 0)).tail, ?_⟩
  rw [← hcons, List.takeWhile_append_dropWhile]

theorem strncpy_terminated {cs : List UInt8} (h : 0 ∉ cs) {n : Nat} (hn : n ≤ cs.length + 1) :
    strncpy (cs ++ [0]) n = (cs ++ [0]).take n := by
  have hkeep : ∀ k, (cs.take k).takeWhile (· != 0) = cs.take k := by
    intro k
    rw [List.takeWhile_eq_self_iff]
    intro c hc
    have hne : c ≠ 0 := fun heq => h (heq ▸ List.mem_of_mem_take hc)
    simpa using hne
  -- With one character more than the string has, the terminator is copied.
  rcases Nat.lt_or_ge cs.length n with hlong | hshort
  · obtain rfl : n = cs.length + 1 := by omega
    rw [strncpy, List.take_of_length_le (by simp), takeWhile_nonzero h]
    simp
  · simp [strncpy, List.take_append_of_le_length hshort, hkeep, hshort]

/-- The size of what is copied, without the terminator. -/
def coreLength (delim : UInt8) (str : List UInt8) : Nat :=
  (str.rdropWhile (· == delim)).length - (str.takeWhile (· == delim)).length

/-- The block after the copy: one byte of it is as `new` returned it. -/
def copied (delim : UInt8) (str : List UInt8) (stale : Nat → UInt8) : List UInt8 :=
  ((str ++ [0]).drop (str.takeWhile (· == delim)).length).take (coreLength delim str + 1) ++
    [stale (coreLength delim str + 1)]

theorem copied_length_le (stale : Nat → UInt8) :
    (copied delim str stale).length ≤ coreLength delim str + 2 := by
  rw [copied, List.length_append, List.length_take, List.length_singleton]
  omega

theorem strncpy_copied (hzero : 0 ∉ str) (stale : Nat → UInt8) :
    strncpy ((str ++ [0]).drop (str.takeWhile (· == delim)).length) (coreLength delim str + 1) ++
        ((List.range (coreLength delim str + 2)).map stale).drop (coreLength delim str + 1) =
      copied delim str stale := by
  have hlead : (str.takeWhile (· == delim)).length ≤ str.length :=
    (List.takeWhile_prefix _).length_le
  have hcore : (str.rdropWhile (· == delim)).length ≤ str.length :=
    (List.rdropWhile_prefix _ _).length_le
  have hdrop : 0 ∉ str.drop (str.takeWhile (· == delim)).length :=
    fun h => hzero (List.mem_of_mem_drop h)
  have hlast : ((List.range (coreLength delim str + 2)).map stale).drop (coreLength delim str + 1) =
      [stale (coreLength delim str + 1)] := by
    rw [List.range_succ, List.map_append, List.drop_left' (by simp)]
    rfl
  have hfits : coreLength delim str + 1 ≤
      (str.drop (str.takeWhile (· == delim)).length).length + 1 := by
    rw [List.length_drop, coreLength]
    omega
  rw [copied, List.drop_append_of_le_length hlead, strncpy_terminated hdrop hfits, hlast]

/-- A string that is not only delimiters comes to its passes, unless the size of the copy
overflows. -/
theorem str_split_passes (hzero : 0 ∉ str) (hlen : str.length < 2147483648)
    (hsome : ∃ c ∈ str, c ≠ delim) (stale : Nat → UInt8) :
    str_split delim str stale = if coreLength delim str = 2147483647 then none
      else passes delim (copied delim str stale) := by
  have hstrlen : strlen (str ++ [0]) = some str.length := by
    rw [strlen_eq hzero, if_pos hlen]
  have hstart : startOff delim (str ++ [0]) 0 = some (str.takeWhile (· == delim)).length := by
    rcases hsome with ⟨c, hc, hne⟩
    have hnot : ¬ ∀ c ∈ str, (c == delim) = true := fun h => hne (by simpa using h c hc)
    rw [startOff_eq 0 ⟨c, by simp [hc], hne⟩, Nat.zero_add, List.takeWhile_append, if_neg]
    intro hfull
    exact hnot (List.takeWhile_eq_self_iff.mp ((List.takeWhile_prefix _).eq_of_length hfull))
  have hend : endOff delim (str ++ [0]) str.length =
      some (str.rdropWhile (· == delim)).length := endOff_eq hsome
  have hcopy := @strncpy_copied delim str hzero stale
  simp only [coreLength] at hcopy ⊢
  simp only [str_split, hstrlen, hstart, hend, Option.bind_eq_bind, Option.bind_some, hcopy]
  rfl

/-- From 2^31 characters on `strlen` overflows. -/
theorem str_split_long (hzero : 0 ∉ str) (hlen : 2147483648 ≤ str.length) (stale : Nat → UInt8) :
    str_split delim str stale = none := by
  have hstrlen : strlen (str ++ [0]) = none := by
    rw [strlen_eq hzero, if_neg (by omega)]
  simp only [str_split, hstrlen, Option.bind_eq_bind, Option.bind_none]

/-- A string of delimiters only is read in front of its start. -/
theorem str_split_delims (hzero : 0 ∉ str) (hall : ∀ c ∈ str, c = delim) (stale : Nat → UInt8) :
    str_split delim str stale = none := by
  rcases Nat.lt_or_ge str.length 2147483648 with hlen | hlen
  · have hstrlen : strlen (str ++ [0]) = some str.length := by
      rw [strlen_eq hzero, if_pos hlen]
    simp only [str_split, hstrlen, Option.bind_eq_bind, Option.bind_some, endOff_none hall,
      Option.bind_none]
    cases startOff delim (str ++ [0]) 0 <;> rfl
  · exact str_split_long hzero hlen stale

/-- **In place, the tokens are those of `Strings`**, with the byte that the block holds behind what
is copied into it. -/
theorem str_split_refines (hzero : 0 ∉ str) (hlen : str.length < 2147483648)
    (hcore : coreLength delim str < 2147483647) (stale : Nat → UInt8) :
    match Stdlib.str_split delim str (stale (coreLength delim str + 1)) with
    | none => str_split delim str stale = none
    | some tokens => ∃ block sep_str, str_split delim str stale = some (block, sep_str) ∧
        sep_str.map (stringAt block) = tokens.map some := by
  by_cases hsome : ∃ c ∈ str, c ≠ delim
  · have hall : str.all (· == delim) = false := by
      rw [List.all_eq_false]
      rcases hsome with ⟨c, hc, hne⟩
      exact ⟨c, hc, by simpa using hne⟩
    have hhost : Stdlib.str_split delim str (stale (coreLength delim str + 1)) =
        (if 0 ∈ copied delim str stale then some ((copied delim str stale).takeWhile (· != 0))
          else none).map fun host => cut delim [] (squeeze delim host) := by
      rw [Stdlib.str_split, hall]
      rfl
    rw [hhost, str_split_passes hzero hlen hsome, if_neg (Nat.ne_of_lt hcore)]
    -- The copy has a terminator, or only the stale byte could be one.
    by_cases hterm : 0 ∈ copied delim str stale
    · rw [if_pos hterm]
      have hnozero : 0 ∉ (copied delim str stale).takeWhile (· != 0) := by
        intro h
        simpa using List.mem_takeWhile_imp h
      rcases exists_terminated hterm with ⟨rest, hsplit⟩
      have hshort : ((copied delim str stale).takeWhile (· != 0)).length < 2147483648 := by
        have hsize := @copied_length_le delim str stale
        rw [hsplit, List.length_append, List.length_cons] at hsize
        omega
      have hpasses := @passes_eq delim _ hnozero hshort rest
      rwa [← hsplit] at hpasses
    · rw [if_neg hterm]
      exact passes_unterminated hterm
  · have hall : ∀ c ∈ str, c = delim := by
      intro c hc
      by_contra hne
      exact hsome ⟨c, hc, hne⟩
    have hhost : Stdlib.str_split delim str (stale (coreLength delim str + 1)) = none := by
      rw [Stdlib.str_split, if_pos]
      rw [List.all_eq_true]
      intro c hc
      simpa using hall c hc
    rw [hhost]
    exact str_split_delims hzero hall stale

/-! ## The strings that are split -/

/-- A string is one part at the delimiter NUL. -/
theorem splitOn_nul (hzero : 0 ∉ str) : str.splitOn 0 = [str] := by
  induction str with
  | nil => rfl
  | cons c cs ih =>
      rw [List.mem_cons, not_or] at hzero
      rw [splitOn_other (Ne.symm hzero.1), ih hzero.2]
      rfl

theorem squeeze_nul (hzero : 0 ∉ str) : squeeze 0 str = str := by
  induction str with
  | nil => rfl
  | cons c cs ih =>
      rw [List.mem_cons, not_or] at hzero
      rw [squeeze_other (Ne.symm hzero.1), ih hzero.2]

/-- At the delimiter NUL nothing is trimmed, and the string is its only token. -/
theorem tokens_nul (hzero : 0 ∉ str) (hne : str ≠ []) (x : UInt8) :
    Stdlib.str_split 0 str x = some (components 0 str) := by
  have hkeep : ∀ c ∈ str, ¬ (c == 0) = true := by
    intro c hc h
    exact hzero (by simpa using (beq_iff_eq.mp h) ▸ hc)
  have hlead : str.takeWhile (· == 0) = [] := by
    rw [List.takeWhile_eq_nil_iff]
    intro hpos
    exact hkeep _ (List.getElem_mem hpos)
  have htrail : str.rdropWhile (· == 0) = str := by
    rw [List.rdropWhile_eq_self_iff]
    intro hl
    exact hkeep _ (List.getLast_mem hl)
  have hall : str.all (· == 0) = false := by
    rw [List.all_eq_false]
    exact ⟨str.head hne, List.head_mem hne, hkeep _ (List.head_mem hne)⟩
  -- The copy takes the terminator of the string along.
  have hhost : hostStr 0 str x = some str := by
    have htake : ((str ++ [0]).drop 0).take (str.length - 0 + 1) ++ [x] = str ++ 0 :: [x] := by
      rw [List.drop_zero, Nat.sub_zero, List.take_of_length_le (by simp)]
      simp
    simp only [hostStr, hlead, htrail, List.length_nil, htake]
    rw [if_pos (by simp), takeWhile_nonzero hzero]
  rw [Stdlib.str_split, hall, hhost, components, splitOn_nul hzero]
  simp only [Bool.false_eq_true, if_false, Option.map_some]
  rw [squeeze_nul hzero, cut_nil, splitOn_nul hzero, List.filter_cons_of_pos (by simpa using hne)]
  rfl

/-- The tokens of `Strings`, at any delimiter. -/
theorem tokens_eq (hzero : 0 ∉ str) (hsome : ∃ c ∈ str, c ≠ delim) (x : UInt8) :
    Stdlib.str_split delim str x =
      if str.getLast? ≠ some delim then some (components delim str)
      else if x = 0 then some (components delim str ++ [[]])
      else none := by
  by_cases hdelim : delim = 0
  · subst hdelim
    have hne : str ≠ [] := by
      rcases hsome with ⟨c, hc, -⟩
      exact List.ne_nil_of_mem hc
    have hlast : str.getLast? ≠ some 0 := fun h => hzero (List.mem_of_getLast? h)
    rw [tokens_nul hzero hne, if_pos hlast]
  · exact str_split_spec hdelim hzero hsome x

/-- A trailing delimiter: there is one token too many, or the block is read past its end. -/
theorem not_splits_trailing (hzero : 0 ∉ str) (hlast : str.getLast? = some delim)
    (stale : Nat → UInt8) : ¬ Splits delim str (str_split delim str stale) := by
  rintro ⟨block, sep_str, hrun, hcount, -⟩
  by_cases hsome : ∃ c ∈ str, c ≠ delim
  · rcases Nat.lt_or_ge str.length 2147483648 with hlen | hlen
    · by_cases hcore : coreLength delim str = 2147483647
      · rw [str_split_passes hzero hlen hsome, if_pos hcore] at hrun
        cases hrun
      · have hsize : coreLength delim str ≤ str.length :=
          Nat.le_trans (Nat.sub_le _ _) (List.rdropWhile_prefix _ _).length_le
        have hrefines := str_split_refines hzero hlen
          (by omega : coreLength delim str < 2147483647) stale
        rw [tokens_eq hzero hsome, if_neg (by simpa using hlast)] at hrefines
        -- A stale zero ends the block behind the delimiter; anything else does not end it.
        by_cases hbyte : stale (coreLength delim str + 1) = 0
        · rw [if_pos hbyte] at hrefines
          rcases hrefines with ⟨block', sep_str', hrun', htokens⟩
          cases hrun.symm.trans hrun'
          have hlength := congrArg List.length htokens
          simp only [List.length_map, List.length_append, List.length_singleton] at hlength
          omega
        · rw [if_neg hbyte] at hrefines
          cases hrun.symm.trans hrefines
    · rw [str_split_long hzero hlen] at hrun
      cases hrun
  · rw [str_split_delims hzero fun c hc => by by_contra hne; exact hsome ⟨c, hc, hne⟩] at hrun
    cases hrun

end InPlace
end Stdlib
end EmbeddedOS
