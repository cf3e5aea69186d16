import EmbeddedOS.Base.ByteMem
import EmbeddedOS.Stdlib.Prints

/-!
# Conversions of `printk`

`printk` of `printk.c`: the format, the arguments, and the union through which every argument goes.
Nothing clears the union. A conversion is independent of what ran before it exactly when it reads
back no more of the union than it has stored; those of `unsigned short` and `unsigned char` read
all eight bytes. `print_screen` is the same text over `screen_outputi` and `screen_prints`.
-/

namespace EmbeddedOS
namespace Stdlib

open Base Base.ByteMem

/-! ## Arguments and conversions -/

/-- An argument of the call: an `int` or `unsigned int`, a 64-bit integer, or a pointer with the
string it points to. -/
inductive Arg where
  | int (v : Int)
  | long (v : Int)
  | ptr (p : Nat) (string : List UInt8)
  deriving DecidableEq, Repr

/-- A length modifier. -/
inductive Length where
  | none | l | ll | h | hh
  deriving DecidableEq, Repr

/-- An integer member of the union. -/
structure Member where
  bytes : Nat
  signed : Bool
  deriving DecidableEq, Repr

namespace Member

def i : Member := ⟨4, true⟩
def u : Member := ⟨4, false⟩
def li : Member := ⟨8, true⟩
def lu : Member := ⟨8, false⟩
def lli : Member := ⟨8, true⟩
def llu : Member := ⟨8, false⟩
def hi : Member := ⟨2, true⟩
def hu : Member := ⟨2, false⟩
def hhi : Member := ⟨1, true⟩
def hhu : Member := ⟨1, false⟩

/-- The member's value, converted to `long long`. -/
def value (f : Member) (un : ByteMem) : Int :=
  let v := load un 0 f.bytes
  if f.signed then (BitVec.ofNat (8 * f.bytes) v).toInt else (BitVec.ofNat 64 v).toInt

end Member

/-- What a conversion does: an integer is stored in a member of the union and read from one. -/
inductive Conversion where
  | integer (long : Bool) (stored read : Member) (base : Nat) (sign : Bool) (letbase : Nat)
  | char
  | string
  deriving DecidableEq, Repr

/-- The cases of the `switch`es, by length modifier and letter. -/
def conversion : Length → UInt8 → Option Conversion
  | .none, 100 => some (.integer false .i .i 10 true 97)
  | .none, 117 => some (.integer false .u .u 10 false 97)
  | .none, 120 => some (.integer false .u .u 16 false 97)
  | .none, 88 => some (.integer false .u .u 16 false 65)
  | .none, 99 => some .char
  | .none, 115 => some .string
  | .l, 100 => some (.integer true .li .li 10 true 97)
  | .l, 117 => some (.integer true .lu .lu 10 false 97)
  | .l, 120 => some (.integer true .lu .lu 16 false 97)
  | .l, 88 => some (.integer true .lu .lu 16 false 65)
  | .ll, 100 => some (.integer true .lli .lli 10 true 97)
  | .ll, 117 => some (.integer true .llu .llu 10 false 97)
  | .ll, 120 => some (.integer true .llu .llu 16 false 97)
  | .ll, 88 => some (.integer true .llu .llu 16 false 65)
  | .h, 100 => some (.integer false .hi .hi 10 true 97)
  | .h, 117 => some (.integer false .hu .lli 10 false 97)
  | .h, 120 => some (.integer false .hu .lli 16 false 97)
  | .h, 88 => some (.integer false .hu .lli 16 false 65)
  | .hh, 100 => some (.integer false .hhi .hhi 10 true 97)
  | .hh, 117 => some (.integer false .hhu .lli 10 false 97)
  | .hh, 120 => some (.integer false .hhu .lli 16 false 97)
  | .hh, 88 => some (.integer false .hhu .lli 16 false 65)
  | _, _ => none

/-- `va_arg(ap, int)` and its 64-bit kinds; an argument of another type has no defined value. -/
def integerArg : Bool → Arg → Option Nat
  | false, .int v => some (u32 v)
  | true, .long v => some (u64 v)
  | _, _ => none

/-- One conversion: the union after it, and what it prints. -/
def convert (width : Int) (flags : Nat) (un : ByteMem) :
    Conversion → Arg → Option (ByteMem × Printed)
  | .integer long stored read base sign letbase, a => do
      let v ← integerArg long a
      let un := store un 0 stored.bytes v
      let p ← simple_outputi (read.value un) base sign width flags letbase
      some (un, p)
  | .char, a => do
      let v ← integerArg false a
      let un := store un 0 1 v
      let scr := if un 0 = 0 then [] else [un 0]
      let p ← prints scr width flags
      some (un, p)
  | .string, .ptr s string => do
      let un := storePtr un 0 s
      -- `"(null)"`
      let p ← prints (if loadPtr un 0 ≠ 0 then string else [40, 110, 117, 108, 108, 41]) width flags
      some (un, p)
  | .string, _ => none

/-! ## The format -/

/-- A conversion directive. -/
structure Directive where
  flags : Nat
  width : Int
  length : Length
  letter : UInt8
  deriving DecidableEq, Repr

/-- `for ( ; *format >= '0' && *format <= '9'; ++format)` -/
def widthFrom : Int → List UInt8 → Option (Int × List UInt8)
  | width, [] => some (width, [])
  | width, c :: format =>
      if 48 ≤ c.toNat ∧ c.toNat ≤ 57 then
        let width := width * 10 + (c.toNat - 48 : Nat)
        if width ≤ 2147483647 then widthFrom width format else none
      else some (width, c :: format)

/-- The `switch`es up to the letter. They leave the format behind it; one that ends before is read
past its terminator. -/
def letterFrom : List UInt8 → Option (Length × UInt8 × List UInt8)
  | 108 :: 108 :: c :: format => some (.ll, c, format)
  | 104 :: 104 :: c :: format => some (.hh, c, format)
  | [108, 108] => none
  | [104, 104] => none
  | 108 :: c :: format => some (.l, c, format)
  | 104 :: c :: format => some (.h, c, format)
  | [108] => none
  | [104] => none
  | c :: format => some (.none, c, format)
  | [] => none

/-- Flags and width, and the directive up to its letter. -/
def directiveFrom (format : List UInt8) (ap : List Arg) :
    Option (Directive × List UInt8 × List Arg) := do
  let (flags, format) := if format.head? = some 45 then (PAD_RIGHT, format.tail) else (0, format)
  let flags := if format.head? = some 48 then flags ||| PAD_ZERO else flags
  let format := format.dropWhile (· == 48)
  let (width, format, ap) ←
    if format.head? = some 42 then
      match ap with
      | .int v :: ap => some (i32 v, format.tail, ap)
      | _ => none
    else
      (widthFrom 0 format).map fun (width, format) => (width, format, ap)
  let (length, letter, format) ← letterFrom format
  some (⟨flags, width, length, letter⟩, format, ap)

/-- What one character or directive of the format puts out. -/
inductive Piece where
  | plain (c : UInt8)
  | conversion (d : Directive) (a : Arg) (chars : List UInt8)
  deriving DecidableEq, Repr

/-- `pc += n;` -/
def addPc (pc n : Int) : Option Int :=
  if pc + n ≤ 2147483647 then some (pc + n) else none

/-- `for (; *format != 0; ++format)`: what comes out from here on, and `pc`. Every pass goes on in
the format, so its length bounds `fuel`. -/
def printFrom : Nat → List UInt8 → ByteMem → List Arg → Int → Option (List Piece × Int)
  | 0, _, _, _, _ => none
  | _ + 1, [], _, _, pc => some ([], pc)
  | fuel + 1, c :: format, un, ap, pc =>
      if c = 37 ∧ format = [] then some ([], pc)
      else if c = 37 ∧ format.head? ≠ some 37 then do
        let (d, format, ap) ← directiveFrom format ap
        match conversion d.length d.letter with
        | none => printFrom fuel format un ap pc
        | some conv =>
            match ap with
            | [] => none
            | a :: ap => do
                let (un, p) ← convert d.width d.flags un conv a
                let pc ← addPc pc p.pc
                let (pieces, pc) ← printFrom fuel format un ap pc
                some (.conversion d a p.chars :: pieces, pc)
      else do
        let format := if c = 37 then format.tail else format
        let pc ← addPc pc 1
        let (pieces, pc) ← printFrom fuel format un ap pc
        some (.plain c :: pieces, pc)

/-- `int printk(char *format, ...)`, on the characters of `format`; `un` is what the union holds at
the call. -/
def printk (un : ByteMem) (format : List UInt8) (args : List Arg) : Option (List Piece × Int) :=
  printFrom (format.length + 1) format un args 0

/-! ## Independence -/

/-- The directives that `printk` supports. -/
structure Supported (d : Directive) : Prop where
  flags : d.flags < 4
  width : -2147483648 ≤ d.width ∧ d.width ≤ 2147483647
  letter : (conversion d.length d.letter).isSome

/-- In any two calls the directive puts out the same for the same argument. -/
def Independent (d : Directive) : Prop :=
  ∀ un un' format format' args args' pieces pieces' pc pc' a chars chars',
    printk un format args = some (pieces, pc) → printk un' format' args' = some (pieces', pc') →
    .conversion d a chars ∈ pieces → .conversion d a chars' ∈ pieces' → chars = chars'

namespace Conversion

/-- It reads no more of the union than it has stored. -/
def Closed : Conversion → Prop
  | .integer _ stored read _ _ _ => read.bytes ≤ stored.bytes
  | .char => True
  | .string => True

end Conversion

/-- The `unsigned short` and `unsigned char` conversions. -/
abbrev ReadsWide (d : Directive) : Prop :=
  (d.length = .h ∨ d.length = .hh) ∧ (d.letter = 117 ∨ d.letter = 120 ∨ d.letter = 88)

theorem closed_iff {d : Directive} {conv : Conversion}
    (h : conversion d.length d.letter = some conv) : conv.Closed ↔ ¬ ReadsWide d := by
  unfold ReadsWide
  generalize d.length = length at h ⊢
  generalize d.letter = letter at h ⊢
  unfold conversion at h
  split at h <;> cases h <;> simp [Conversion.Closed, Member.i, Member.u, Member.li, Member.lu,
    Member.lli, Member.llu, Member.hi, Member.hu, Member.hhi, Member.hhu]

theorem load_store_within (un un' : ByteMem) {stored read : Nat} (v : Nat) (h : read ≤ stored) :
    load (store un 0 stored v) 0 read = load (store un' 0 stored v) 0 read := by
  refine load_congr fun b hlo hhi => ?_
  unfold store
  rw [if_pos (by omega), if_pos (by omega)]

/-- What the union held before does not show. -/
theorem convert_closed {conv : Conversion} (h : conv.Closed) (width : Int) (flags : Nat)
    (un un' : ByteMem) (a : Arg) :
    (convert width flags un conv a).map Prod.snd = (convert width flags un' conv a).map Prod.snd := by
  cases conv with
  | integer long stored read base sign letbase =>
      simp only [convert]
      cases integerArg long a with
      | none => rfl
      | some v =>
          have hread : read.value (store un 0 stored.bytes v) =
              read.value (store un' 0 stored.bytes v) := by
            simp only [Member.value, load_store_within un un' v h]
          simp only [Option.bind_eq_bind, Option.bind_some, hread]
          cases simple_outputi (read.value (store un' 0 stored.bytes v)) base sign width flags
            letbase <;> rfl
  | char =>
      simp only [convert]
      cases integerArg false a with
      | none => rfl
      | some v =>
          have hread : store un 0 1 v 0 = store un' 0 1 v 0 := by simp [store]
          simp only [Option.bind_eq_bind, Option.bind_some, hread]
          cases prints (if store un' 0 1 v 0 = 0 then [] else [store un' 0 1 v 0]) width flags <;> rfl
  | string =>
      cases a with
      | ptr s string =>
          have hread : loadPtr (storePtr un 0 s) 0 = loadPtr (storePtr un' 0 s) 0 :=
            load_store_within un un' s (Nat.le_refl 8)
          simp only [convert, Option.bind_eq_bind, hread]
          cases prints (if loadPtr (storePtr un' 0 s) 0 ≠ 0 then string
            else [40, 110, 117, 108, 108, 41]) width flags <;> rfl
      | int v => rfl
      | long v => rfl

/-- A format without directives comes out as it is. -/
theorem printFrom_plain {fuel : Nat} {format : List UInt8} {un : ByteMem} {ap : List Arg} {pc : Int}
    (hplain : 37 ∉ format) (hfuel : format.length < fuel) (hpc : pc + format.length ≤ 2147483647) :
    printFrom fuel format un ap pc = some (format.map .plain, pc + format.length) := by
  induction format generalizing fuel pc with
  | nil =>
      obtain ⟨fuel, rfl⟩ := Nat.exists_eq_add_of_lt hfuel
      rw [printFrom, List.map_nil, List.length_nil, Int.natCast_zero, Int.add_zero]
  | cons c format ih =>
      obtain ⟨hc, hformat⟩ := not_or.mp (mt List.mem_cons.mpr hplain)
      obtain ⟨fuel, rfl⟩ := Nat.exists_eq_add_of_lt (Nat.zero_lt_of_lt hfuel)
      rw [Nat.zero_add] at hfuel ⊢
      rw [List.length_cons] at hfuel hpc ⊢
      have hc' : c ≠ 37 := Ne.symm hc
      have hadd : addPc pc 1 = some (pc + 1) := if_pos (by omega)
      have hrest : printFrom fuel format un ap (pc + 1) =
          some (format.map .plain, pc + 1 + format.length) := ih hformat (by omega) (by omega)
      have hsum : pc + 1 + (format.length : Int) = pc + (format.length + 1 : Nat) := by omega
      rw [printFrom, if_neg (fun h => hc' h.1), if_neg (fun h => hc' h.1)]
      simp only [if_neg hc', hadd, hrest, hsum, Option.bind_eq_bind, Option.bind_some, List.map_cons]

/-- Every conversion in the output ran on some contents of the union. -/
theorem printFrom_convert {fuel : Nat} {format : List UInt8} {un : ByteMem} {ap : List Arg}
    {pc pc' : Int} {pieces : List Piece} (h : printFrom fuel format un ap pc = some (pieces, pc'))
    {d : Directive} {a : Arg} {chars : List UInt8} (hmem : .conversion d a chars ∈ pieces) :
    ∃ conv un₁ un₂ p, conversion d.length d.letter = some conv ∧
      convert d.width d.flags un₁ conv a = some (un₂, p) ∧ p.chars = chars := by
  induction fuel generalizing format un ap pc pieces with
  | zero => cases h
  | succ fuel ih =>
      cases format with
      | nil =>
          cases h
          cases hmem
      | cons c format =>
          rw [printFrom] at h
          by_cases hend : c = 37 ∧ format = []
          · rw [if_pos hend] at h
            cases h
            cases hmem
          rw [if_neg hend] at h
          by_cases hdirective : c = 37 ∧ format.head? ≠ some 37
          · rw [if_pos hdirective, Option.bind_eq_bind, Option.bind_eq_some_iff] at h
            rcases h with ⟨⟨d', format', ap'⟩, -, h⟩
            -- An unsupported directive puts out nothing and takes no argument.
            cases hconv : conversion d'.length d'.letter with
            | none =>
                simp only [hconv] at h
                exact ih h hmem
            | some conv =>
                simp only [hconv] at h
                cases ap' with
                | nil => cases h
                | cons a' ap' =>
                    simp only [Option.bind_eq_bind, Option.bind_eq_some_iff] at h
                    rcases h with ⟨⟨un₂, p⟩, hrun, pc₁, -, ⟨rest, pc₂⟩, hrest, hsome⟩
                    cases hsome
                    rcases List.mem_cons.mp hmem with hhere | hlater
                    · cases hhere
                      exact ⟨conv, un, un₂, p, hconv, hrun, rfl⟩
                    · exact ih hrest hlater
          · rw [if_neg hdirective] at h
            simp only [Option.bind_eq_bind, Option.bind_eq_some_iff] at h
            rcases h with ⟨pc₁, -, ⟨rest, pc₂⟩, hrest, hsome⟩
            cases hsome
            rcases List.mem_cons.mp hmem with hhere | hlater
            · cases hhere
            · exact ih hrest hlater

theorem independent_of_closed {d : Directive} {conv : Conversion}
    (hconv : conversion d.length d.letter = some conv) (h : conv.Closed) : Independent d := by
  intro un un' format format' args args' pieces pieces' pc pc' a chars chars' hrun hrun' hmem hmem'
  rcases printFrom_convert hrun hmem with ⟨conv₁, un₁, _, p, hconv₁, hout, rfl⟩
  rcases printFrom_convert hrun' hmem' with ⟨conv₂, un₂, _, p', hconv₂, hout', rfl⟩
  cases hconv.symm.trans hconv₁
  cases hconv.symm.trans hconv₂
  have hsame := convert_closed h d.width d.flags un₁ un₂ a
  rw [hout, hout'] at hsame
  cases hsame
  rfl

/-! ## Two runs that differ -/

def Length.chars : Length → List UInt8
  | .none => []
  | .l => [108]
  | .ll => [108, 108]
  | .h => [104]
  | .hh => [104, 104]

/-- The directive behind its `'%'`, with its width among the arguments. -/
def Directive.spelling (d : Directive) : List UInt8 :=
  (if d.flags &&& PAD_RIGHT ≠ 0 then [45] else []) ++
    ((if d.flags &&& PAD_ZERO ≠ 0 then [48] else []) ++ (42 :: (d.length.chars ++ [d.letter])))

theorem directiveFrom_spelling {d : Directive} (h : Supported d) (ap : List Arg) :
    directiveFrom d.spelling (.int d.width :: ap) = some (d, [], ap) := by
  rcases d with ⟨flags, width, length, letter⟩
  rcases h with ⟨hflags, hwidth, hletter⟩
  simp only at hflags hwidth hletter
  have hwidth' : i32 width = width := i32_of_range hwidth.1 (by omega)
  have hspelled : letterFrom (length.chars ++ [letter]) = some (length, letter, []) := by
    unfold conversion at hletter
    split at hletter <;> first | rfl | cases hletter
  interval_cases flags <;>
    simp [directiveFrom, Directive.spelling, PAD_RIGHT, PAD_ZERO, hwidth', hspelled]

theorem spelling_head (d : Directive) : ∃ c cs, d.spelling = c :: cs ∧ c ≠ 37 := by
  unfold Directive.spelling
  split_ifs <;> exact ⟨_, _, rfl, by decide⟩

/-- `"%s"`, and the directive behind it. -/
def behindString (d : Directive) : List UInt8 := 37 :: 115 :: 37 :: d.spelling

/-- The string is empty, and its pointer is what the union holds at the directive. -/
theorem printk_behindString {d : Directive} (h : Supported d) {conv : Conversion}
    (hconv : conversion d.length d.letter = some conv) (un : ByteMem) {s : Nat}
    (hs : s ≠ 0 ∧ s < 18446744073709551616) {a : Arg} {un' : ByteMem} {p : Printed}
    (hout : convert d.width d.flags (storePtr un 0 s) conv a = some (un', p))
    (hpc : p.pc ≤ 2147483647) :
    printk un (behindString d) [.ptr s [], .int d.width, a] =
      some ([.conversion ⟨0, 0, .none, 115⟩ (.ptr s []) [], .conversion d a p.chars], p.pc) := by
  rcases spelling_head d with ⟨c, cs, hspelling, hc⟩
  have hstring : convert 0 0 un .string (.ptr s []) = some (storePtr un 0 s, ⟨[], 0⟩) := by
    have hload : loadPtr (storePtr un 0 s) 0 = s := loadPtr_storePtr_same un 0 hs.2
    simp only [convert, hload, if_pos hs.1]
    rfl
  have hdirective : directiveFrom (115 :: 37 :: d.spelling) [.ptr s [], .int d.width, a] =
      some (⟨0, 0, .none, 115⟩, 37 :: d.spelling, [.ptr s [], .int d.width, a]) := by
    simp [directiveFrom, widthFrom, letterFrom]
  have hlen : (behindString d).length = cs.length + 4 := by
    rw [behindString, hspelling]
    rfl
  rw [printk, hlen, behindString, printFrom, if_neg (by simp), if_pos (by simp), hdirective]
  simp only [conversion, Option.bind_eq_bind, Option.bind_some, hstring, addPc]
  rw [if_pos (by omega), Option.bind_some, printFrom, if_neg (by simp [hspelling]),
    if_pos (by simp [hspelling, hc]), directiveFrom_spelling h]
  simp only [Option.bind_eq_bind, Option.bind_some, hconv, hout, addPc]
  rw [if_pos (by omega), Option.bind_some, printFrom]
  simp

/-! ## What the wide conversions print -/

theorem outputi_unsigned {i : Int} (hi : i ≠ 0) (base : Nat) (width : Int) (flags letbase : Nat) :
    simple_outputi i base false width flags letbase =
      (outputDigits base letbase 64 (u64 i) []).bind fun s => prints s width flags := by
  simp [simple_outputi, outputi, hi]

/-- Behind the pointer `0x10000` a zero is read as `0x10000`. -/
theorem convert_behind {stored : Member} (hstored : stored = .hu ∨ stored = .hhu) {base letbase : Nat}
    {string : List UInt8} (hstring : outputDigits base letbase 64 65536 [] = some string)
    (width : Int) (flags : Nat) :
    (convert width flags (storePtr (fun _ => 0) 0 65536)
        (.integer false stored .lli base false letbase) (.int 0)).map Prod.snd =
      prints string width flags := by
  have hread : Member.lli.value (store (storePtr (fun _ => 0) 0 65536) 0 stored.bytes (u32 0)) =
      65536 := by
    rcases hstored with rfl | rfl <;> decide
  have hu : u64 65536 = 65536 := by decide
  simp only [convert, integerArg, Option.bind_eq_bind, Option.bind_some, hread]
  rw [outputi_unsigned (by decide), hu, hstring, Option.bind_some]
  cases prints string width flags <;> rfl

/-- Behind the pointer `1` it is overwritten. -/
theorem convert_zero {stored : Member} (hstored : stored = .hu ∨ stored = .hhu) (base letbase : Nat)
    (width : Int) (flags : Nat) :
    (convert width flags (storePtr (fun _ => 0) 0 1)
        (.integer false stored .lli base false letbase) (.int 0)).map Prod.snd =
      prints [48] width flags := by
  have hread : Member.lli.value (store (storePtr (fun _ => 0) 0 1) 0 stored.bytes (u32 0)) = 0 := by
    rcases hstored with rfl | rfl <;> decide
  simp only [convert, integerArg, Option.bind_eq_bind, Option.bind_some, hread, simple_outputi,
    outputi, if_true]
  cases prints [48] width flags <;> rfl

/-- The conversions that read wide, and a digit of `0x10000` in their base that is not `'0'`. -/
theorem conversion_wide {d : Directive} (h : ReadsWide d) :
    ∃ stored base letbase string c, (stored = .hu ∨ stored = .hhu) ∧
      conversion d.length d.letter = some (.integer false stored .lli base false letbase) ∧
      outputDigits base letbase 64 65536 [] = some string ∧ c ∈ string ∧ c ≠ 48 ∧ c ≠ 32 ∧
      string.length ≤ 5 := by
  rcases d with ⟨flags, width, length, letter⟩
  rcases h with ⟨hlength, hletter⟩
  simp only at hlength hletter
  have hten : outputDigits 10 97 64 65536 [] = some [54, 53, 53, 51, 54] := by decide
  have hlower : outputDigits 16 97 64 65536 [] = some [49, 48, 48, 48, 48] := by decide
  have hupper : outputDigits 16 65 64 65536 [] = some [49, 48, 48, 48, 48] := by decide
  rcases hletter with rfl | rfl | rfl
  · refine ⟨if length = .h then .hu else .hhu, 10, 97, _, 54, ?_, ?_, hten, by decide⟩ <;>
      rcases hlength with rfl | rfl <;> simp [conversion]
  · refine ⟨if length = .h then .hu else .hhu, 16, 97, _, 49, ?_, ?_, hlower, by decide⟩ <;>
      rcases hlength with rfl | rfl <;> simp [conversion]
  · refine ⟨if length = .h then .hu else .hhu, 16, 65, _, 49, ?_, ?_, hupper, by decide⟩ <;>
      rcases hlength with rfl | rfl <;> simp [conversion]

theorem not_independent_of_readsWide {d : Directive} (hd : Supported d) (h : ReadsWide d) :
    ¬ Independent d := by
  intro hind
  rcases conversion_wide h with ⟨stored, base, letbase, string, c, hstored, hconv, hstring, hc, hc48,
    hc32, hlen⟩
  have hwidth := hd.width.2
  have hwide := convert_behind hstored hstring d.width d.flags
  have hzero := convert_zero hstored base letbase d.width d.flags
  rw [prints_eq (by omega) hwidth, Option.map_eq_some_iff] at hwide
  rw [prints_eq (by simp) hwidth, Option.map_eq_some_iff] at hzero
  rcases hwide with ⟨⟨un₁, p⟩, hwide, hp⟩
  rcases hzero with ⟨⟨un₂, q⟩, hzero, hq⟩
  simp only at hp hq
  -- Two calls with the same zero behind different pointers.
  have hrun := printk_behindString hd hconv (fun _ => 0) (by decide) hwide (by rw [hp]; simp; omega)
  have hrun' := printk_behindString hd hconv (fun _ => 0) (by decide) hzero (by rw [hq]; simp; omega)
  have hsame := hind _ _ _ _ _ _ _ _ _ _ (.int 0) p.chars q.chars hrun hrun' (by simp) (by simp)
  -- Padding cannot make up for the digit: it is a zero or a blank.
  have hmem : c ∈ p.chars := by
    rw [hp]
    simp only
    split <;> simp [hc]
  have hnot : c ∉ q.chars := by
    rw [hq]
    simp only [padchar]
    split_ifs <;> simp [hc48, hc32]
  exact hnot (hsame ▸ hmem)

/-- **Which conversions are independent.** All but those of `unsigned short` and `unsigned char`:
whatever ran before, and whatever the union held at the call, the same argument comes out the
same. -/
theorem printk_independent_iff (d : Directive) (h : Supported d) :
    Independent d ↔ ¬ ((d.length = .h ∨ d.length = .hh) ∧
      (d.letter = 117 ∨ d.letter = 120 ∨ d.letter = 88)) := by
  constructor
  · intro hind hwide
    exact not_independent_of_readsWide h hwide hind
  · intro hnarrow
    rcases Option.isSome_iff_exists.mp h.letter with ⟨conv, hconv⟩
    exact independent_of_closed hconv ((closed_iff hconv).mpr hnarrow)

/-- `"%5ld"` -/
theorem printk_independent_long : Independent ⟨0, 5, .l, 100⟩ :=
  (printk_independent_iff ⟨0, 5, .l, 100⟩ ⟨by decide, by decide, by decide⟩).mpr (by decide)

/-- `"%ld%hu"` prints `0` as `65536` behind the `long` 65536, as `0` behind 0. -/
theorem printk_hu_dependent : ¬ Independent ⟨0, 0, .h, 117⟩ := by
  intro hind
  have hrun : printk (fun _ => 0) [37, 108, 100, 37, 104, 117] [.long 65536, .int 0] =
      some ([.conversion ⟨0, 0, .l, 100⟩ (.long 65536) [54, 53, 53, 51, 54],
        .conversion ⟨0, 0, .h, 117⟩ (.int 0) [54, 53, 53, 51, 54]], 10) := by
    decide
  have hrun' : printk (fun _ => 0) [37, 108, 100, 37, 104, 117] [.long 0, .int 0] =
      some ([.conversion ⟨0, 0, .l, 100⟩ (.long 0) [48],
        .conversion ⟨0, 0, .h, 117⟩ (.int 0) [48]], 2) := by
    decide
  exact absurd (hind _ _ _ _ _ _ _ _ _ _ (.int 0) [54, 53, 53, 51, 54] [48] hrun hrun' (by simp)
    (by simp)) (by decide)

end Stdlib
end EmbeddedOS
