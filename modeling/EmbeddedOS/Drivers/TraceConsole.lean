import EmbeddedOS.Base.Runs
import EmbeddedOS.Drivers.Font
import EmbeddedOS.Stdlib.Printk
import Mathlib.Data.List.Basic

/-!
# The trace console

`push_trace` and `pop_trace` of `strace.h`, and `print_screen` on `__info`: the characters that come
out, the cursor that `screen_outputchar` moves, and the pixels that `draw_char` and `draw_pixel` of
`framebuffer.c` write. Nothing clips a pixel, and nothing brings the cursor back to the first line.
-/

namespace EmbeddedOS
namespace Drivers

open Base Stdlib

/-! ## Pixels -/

/-- The framebuffer as the firmware gives it: its lines lie in its buffer, its buffer below 4 GiB. -/
structure Framebuffer where
  height : Nat
  buf : Nat
  buf_size : Nat
  pitch : Nat
  lines : pitch * height ≤ buf_size
  below : buf + buf_size ≤ 4294967296

/-- A call of `draw_pixel`. -/
structure Pixel where
  x : Int
  y : Int
  color : Nat

/-- The address of the four bytes that `draw_pixel` writes. -/
def draw_pixel (fb : Framebuffer) (p : Pixel) : Nat :=
  let offset := u32 (u32 (p.x * 4) + u32 (u32 p.y * fb.pitch))
  u32 (u32 fb.buf + offset)

def draw_char (ch : UInt8) (x y : Int) (color : Nat) : List Pixel :=
  (glyphPixels ch).map fun (j, i) => { x := x + j, y := y + i, color }

/-- The pixel is on the screen. -/
def OnScreen (fb : Framebuffer) (p : Pixel) : Prop :=
  (0 ≤ 4 * p.x + 3 ∧ 4 * p.x + 3 < fb.pitch) ∧ 0 ≤ p.y ∧ p.y < fb.height

/-- Every pixel is on the screen, and is written inside the buffer. -/
def Drawn (fb : Framebuffer) (pixels : List Pixel) : Prop :=
  ∀ p ∈ pixels, OnScreen fb p ∧
    fb.buf ≤ draw_pixel fb p ∧ draw_pixel fb p + 4 ≤ fb.buf + fb.buf_size

/-! ## Characters -/

/-- `struct chr_dat`. -/
structure ChrDat where
  x0 : Int
  y0 : Int
  x : Int
  y : Int
  color : Nat

/-- `v += step;` on an `int`. -/
def advance (v : Int) (step : Nat) : Option Int :=
  if v + step ≤ 2147483647 then some (v + step) else none

def screen_outputchar (dat : ChrDat) (c : UInt8) : Option (List Pixel × ChrDat) :=
  -- `'\r'` and `'\n'`
  if c = 13 then some ([], { dat with x := dat.x0 })
  else if c = 10 then do
    let y ← advance dat.y FONT_HEIGHT
    some ([], { dat with x := dat.x0, y })
  else do
    let x ← advance dat.x FONT_WIDTH
    some (draw_char c dat.x dat.y dat.color, { dat with x })

/-- The characters of a text, one after the other. -/
def screen_output (dat : ChrDat) : List UInt8 → Option (List Pixel × ChrDat)
  | [] => some ([], dat)
  | c :: cs => do
      let (l, dat) ← screen_outputchar dat c
      let (l', dat) ← screen_output dat cs
      some (l ++ l', dat)

/-- What a part of the format puts out. -/
def pieceChars : Piece → List UInt8
  | .plain c => [c]
  | .conversion _ _ chars => chars

/-- The characters that `print_screen` puts out; `un` is what its union holds at the call. -/
def print_screen (un : ByteMem) (format : List UInt8) (args : List Arg) : Option (List UInt8) :=
  (printk un format args).map fun (pieces, _) => pieces.flatMap pieceChars

/-! ## The trace stack -/

/-- `struct trace_element`. -/
structure TraceElement where
  func_name : List UInt8
  pretty_func_name : List UInt8
  x0 : Nat
  x1 : Nat
  x2 : Nat
  x3 : Nat

def TraceElement.zero : TraceElement :=
  { func_name := List.replicate 32 0
    pretty_func_name := List.replicate 64 0
    x0 := 0
    x1 := 0
    x2 := 0
    x3 := 0 }

/-- `trace_stack`, `__depth` and `__new`; the stack stands at an address. -/
structure Trace where
  address : Nat
  trace_stack : Nat → TraceElement
  depth : Nat
  new : Nat

/-- `strncpy(dest, src, strlen(src))` copies no terminator. -/
def strncpy (dest src : List UInt8) : Option (List UInt8) :=
  if src.length ≤ dest.length then some (src ++ dest.drop src.length) else none

/-- The string that an array holds; without a terminator it would be read past its end. -/
def cstring (object : List UInt8) : Option (List UInt8) :=
  if 0 ∈ object then some (object.takeWhile (· ≠ 0)) else none

/-- `"%s(%x%x, %x%x, %x%x, %x%x)\n"` -/
def traceFormat : List UInt8 :=
  [37, 115, 40, 37, 120, 37, 120, 44, 32, 37, 120, 37, 120, 44, 32, 37, 120, 37, 120, 44, 32, 37, 120,
    37, 120, 41, 10]

/-- The two arguments for a 64-bit value; `%x` takes the low 32 bits of each. -/
def halves (x : Nat) : List Arg :=
  [.int (u32 (u64 ((x &&& 0xFFFFFFFF) <<< 32 : Nat))), .int (u32 (x &&& 0xFFFFFFFF : Nat))]

inductive TraceCall where
  | push_trace (un : ByteMem) (pretty f : List UInt8) (x0 x1 x2 x3 : Nat)
  | pop_trace
  | print_screen (un : ByteMem) (format : List UInt8) (args : List Arg)

/-- The characters that a call puts out, and the trace stack after it. -/
def Trace.call (t : Trace) : TraceCall → Option (List UInt8 × Trace)
  | .push_trace un pretty f x0 x1 x2 x3 =>
      if t.depth < 100 then do
        let e := t.trace_stack t.depth
        let func_name ← strncpy e.func_name f
        let pretty_func_name ← strncpy e.pretty_func_name pretty
        let e : TraceElement :=
          { func_name, pretty_func_name, x0 := u64 x0, x1 := u64 x1, x2 := u64 x2, x3 := u64 x3 }
        -- The name comes from the array, where an older one may stand behind it.
        let name ← cstring e.func_name
        let text ← print_screen un traceFormat
          (.ptr t.address name :: (halves e.x0 ++ halves e.x1 ++ halves e.x2 ++ halves e.x3))
        some (text, { t with
          trace_stack := Function.update t.trace_stack t.depth e
          depth := t.depth + 1
          new := 0 })
      else none
  | .pop_trace =>
      -- `__depth--` comes first, so that an empty stack would be indexed far outside.
      if 0 < t.depth ∧ t.depth ≤ 100 then
        some ([], { t with
          trace_stack := Function.update t.trace_stack (t.depth - 1) .zero
          depth := t.depth - 1
          new := 1 })
      else none
  | .print_screen un format args => (print_screen un format args).map fun text => (text, t)

/-- The trace stack with the console `__info`. -/
structure Console where
  trace : Trace
  info : ChrDat

/-- A call: the pixels it draws, and the console after it. -/
def step (s : Console) (c : TraceCall) : Option (List Pixel × Console) := do
  let (text, trace) ← s.trace.call c
  let (pixels, info) ← screen_output s.info text
  some (pixels, { trace, info })

/-- All that a sequence of calls puts out. -/
def textOf : Trace → List TraceCall → Option (List UInt8)
  | _, [] => some []
  | t, c :: calls => do
      let (text, t) ← t.call c
      let rest ← textOf t calls
      some (text ++ rest)

/-- `__info` as `main` sets it. -/
def initialInfo : ChrDat := { x0 := 4, y0 := 44, x := 4, y := 44, color := 0x919CA6 }

/-! ## The layout of a text -/

/-- The characters since the last one that went back to the left. -/
def column (text : List UInt8) : Nat :=
  (text.reverse.takeWhile fun c => c ≠ 10 ∧ c ≠ 13).length

/-- The lines that are complete. -/
def line (text : List UInt8) : Nat := text.count 10

/-- A character behind this text stands on the screen, if there is something of it to be seen, and
the cursor behind it is an `int`. -/
def Placed (fb : Framebuffer) (text : List UInt8) (c : UInt8) : Prop :=
  if c = 13 then True
  else if c = 10 then 44 + 8 * (line text + 1) ≤ 2147483647
  else
    4 + 8 * (column text + 1) ≤ 2147483647 ∧
      (glyphPixels c ≠ [] →
        4 + 8 * column text + glyphWidth c ≤ fb.pitch / 4 ∧
          44 + 8 * line text + glyphHeight c ≤ fb.height)

/-- Every character of the text stands on the screen. -/
def FitsScreen (fb : Framebuffer) (text : List UInt8) : Prop :=
  ∀ pre c post, text = pre ++ c :: post → Placed fb pre c

/-! ## Pixels inside the buffer -/

section Pixels

variable {fb : Framebuffer} {p : Pixel} {ch : UInt8} {x y : Int} {color : Nat}

theorem draw_pixel_inside (h : OnScreen fb p) :
    fb.buf ≤ draw_pixel fb p ∧ draw_pixel fb p + 4 ≤ fb.buf + fb.buf_size := by
  obtain ⟨⟨hx₀, hx⟩, hy₀, hy⟩ := h
  obtain ⟨a, ha⟩ := Int.eq_ofNat_of_zero_le (show 0 ≤ p.x by omega)
  obtain ⟨b, hb⟩ := Int.eq_ofNat_of_zero_le hy₀
  have hrow : 4 * a + 4 ≤ fb.pitch := by omega
  have hline : b + 1 ≤ fb.height := by omega
  -- The pixel ends within its line, and its line is one of the buffer.
  have hend : b * fb.pitch + (4 * a + 4) ≤ fb.buf_size :=
    calc
      b * fb.pitch + (4 * a + 4) ≤ b * fb.pitch + fb.pitch := Nat.add_le_add_left hrow _
      _ = fb.pitch * (b + 1) := by rw [Nat.mul_comm, Nat.mul_succ]
      _ ≤ fb.pitch * fb.height := Nat.mul_le_mul_left _ hline
      _ ≤ fb.buf_size := fb.lines
  have hbelow := fb.below
  have hbpitch : b ≤ b * fb.pitch := Nat.le_mul_of_pos_right b (by omega)
  have haddr : draw_pixel fb p = fb.buf + (4 * a + b * fb.pitch) := by
    have hx' : u32 (p.x * 4) = 4 * a := u32_of_range (by omega) (by omega)
    have hy' : u32 p.y = b := u32_of_range hb (by omega)
    have hyp : u32 ((b : Int) * fb.pitch) = b * fb.pitch :=
      u32_of_range (Int.natCast_mul b fb.pitch).symm (by omega)
    have hoffset : u32 ((4 * a : Nat) + (b * fb.pitch : Nat)) = 4 * a + b * fb.pitch :=
      u32_of_range (by omega) (by omega)
    have hbuf : u32 fb.buf = fb.buf := u32_of_range rfl (by omega)
    rw [draw_pixel]
    simp only [hx', hy', hyp, hoffset, hbuf]
    exact u32_of_range (by omega) (by omega)
  rw [haddr]
  omega

theorem drawn_iff {pixels : List Pixel} : Drawn fb pixels ↔ ∀ p ∈ pixels, OnScreen fb p :=
  forall₂_congr fun _ _ => and_iff_left_of_imp draw_pixel_inside

theorem drawn_append {l l' : List Pixel} : Drawn fb (l ++ l') ↔ Drawn fb l ∧ Drawn fb l' :=
  List.forall_mem_append

/-- A character is on the screen exactly if its glyph is, from the column and the line it begins at. -/
theorem drawn_char_iff {a b : Nat} :
    Drawn fb (draw_char ch a b color) ↔ (glyphPixels ch ≠ [] →
      a + glyphWidth ch ≤ fb.pitch / 4 ∧ b + glyphHeight ch ≤ fb.height) := by
  have hpixel : ∀ q : Nat × Nat, OnScreen fb { x := (a : Int) + q.1, y := (b : Int) + q.2, color } ↔
      a + q.1 + 1 ≤ fb.pitch / 4 ∧ b + q.2 + 1 ≤ fb.height := by
    intro q
    rw [OnScreen, Nat.le_div_iff_mul_le (by decide)]
    dsimp only
    omega
  rw [drawn_iff, draw_char, List.forall_mem_map]
  simp only [hpixel]
  constructor
  · intro h hne
    obtain ⟨q, hq⟩ := List.exists_mem_of_ne_nil _ hne
    -- The column and the line are on the screen, so that what is left of it is not cut off at 0.
    obtain ⟨hx, hy⟩ := h q hq
    have hwidth : glyphWidth ch ≤ fb.pitch / 4 - a := by
      rw [glyphWidth_le]
      intro q hq
      have := (h q hq).1
      omega
    have hheight : glyphHeight ch ≤ fb.height - b := by
      rw [glyphHeight_le]
      intro q hq
      have := (h q hq).2
      omega
    omega
  · intro h q hq
    obtain ⟨hx, hy⟩ := h (List.ne_nil_of_mem hq)
    have hwidth := glyphWidth_le.mp (Nat.le_refl (glyphWidth ch)) q hq
    have hheight := glyphHeight_le.mp (Nat.le_refl (glyphHeight ch)) q hq
    omega

end Pixels

/-! ## The cursor -/

section Cursor

variable {fb : Framebuffer} {dat dat' : ChrDat} {pre cs : List UInt8} {c : UInt8}
variable {pixels : List Pixel}

/-- The cursor stands behind this text. -/
structure At (dat : ChrDat) (pre : List UInt8) : Prop where
  x0 : dat.x0 = 4
  x : dat.x = (4 + 8 * column pre : Nat)
  y : dat.y = (44 + 8 * line pre : Nat)

theorem at_initial : At initialInfo [] := ⟨rfl, rfl, rfl⟩

theorem column_concat : column (pre ++ [c]) = if c = 10 ∨ c = 13 then 0 else column pre + 1 := by
  rw [column, List.reverse_concat, List.takeWhile_cons]
  by_cases hc : c = 10 ∨ c = 13
  · have hnot : ¬ (c ≠ 10 ∧ c ≠ 13) := by
      rw [← not_or]
      exact not_not_intro hc
    rw [if_neg (by simpa using hnot), if_pos hc, List.length_nil]
  · rw [if_pos (by simpa using not_or.mp hc), if_neg hc, List.length_cons, column]

theorem line_concat : line (pre ++ [c]) = line pre + if c = 10 then 1 else 0 := by
  rw [line, List.count_append, List.count_singleton, line]
  simp only [beq_iff_eq]

theorem advance_eq_some {v : Int} {step : Nat} {w : Int} :
    advance v step = some w ↔ v + step ≤ 2147483647 ∧ v + step = w := by
  rw [advance]
  split_ifs with hle
  · rw [Option.some.injEq, and_iff_right hle]
  · exact iff_of_false nofun fun h => hle h.1

/-- One character: the cursor goes on behind it. -/
theorem screen_outputchar_at (h : At dat pre) (hrun : screen_outputchar dat c = some (pixels, dat')) :
    At dat' (pre ++ [c]) := by
  obtain ⟨hx0, hx, hy⟩ := h
  rw [screen_outputchar] at hrun
  split_ifs at hrun with hcr hlf
  · cases hrun
    refine ⟨hx0, ?_, ?_⟩
    · rw [column_concat, if_pos (.inr hcr)]
      exact hx0
    · rw [line_concat, if_neg (by rw [hcr]; decide)]
      exact hy
  · rcases Option.bind_eq_some_iff.mp hrun with ⟨y, hy', hrest⟩
    cases hrest
    obtain ⟨-, hsum⟩ := advance_eq_some.mp hy'
    refine ⟨hx0, ?_, ?_⟩
    · rw [column_concat, if_pos (.inl hlf)]
      exact hx0
    · rw [line_concat, if_pos hlf]
      simp only [FONT_HEIGHT] at hsum ⊢
      omega
  · rcases Option.bind_eq_some_iff.mp hrun with ⟨x, hx', hrest⟩
    cases hrest
    obtain ⟨-, hsum⟩ := advance_eq_some.mp hx'
    refine ⟨hx0, ?_, ?_⟩
    · rw [column_concat, if_neg (not_or.mpr ⟨hlf, hcr⟩)]
      simp only [FONT_WIDTH] at hsum ⊢
      omega
    · rw [line_concat, if_neg hlf]
      exact hy

/-- One character is drawn on the screen exactly if it has its place there. -/
theorem screen_outputchar_iff (h : At dat pre) :
    (∃ pixels dat', screen_outputchar dat c = some (pixels, dat') ∧ Drawn fb pixels) ↔
      Placed fb pre c := by
  obtain ⟨hx0, hx, hy⟩ := h
  rw [screen_outputchar, Placed]
  split_ifs with hcr hlf
  · exact iff_of_true ⟨_, _, rfl, nofun⟩ trivial
  · constructor
    · rintro ⟨pixels, dat', hrun, -⟩
      rcases Option.bind_eq_some_iff.mp hrun with ⟨y, hy', -⟩
      obtain ⟨hle, -⟩ := advance_eq_some.mp hy'
      simp only [FONT_HEIGHT] at hle
      omega
    · intro hle
      have hadv : advance dat.y FONT_HEIGHT = some (dat.y + FONT_HEIGHT) :=
        if_pos (by simp only [FONT_HEIGHT]; omega)
      refine ⟨[], { dat with x := dat.x0, y := dat.y + FONT_HEIGHT }, ?_, nofun⟩
      rw [hadv]
      rfl
  · have hdrawn : Drawn fb (draw_char c dat.x dat.y dat.color) ↔ (glyphPixels c ≠ [] →
        4 + 8 * column pre + glyphWidth c ≤ fb.pitch / 4 ∧
          44 + 8 * line pre + glyphHeight c ≤ fb.height) := by
      rw [hx, hy]
      exact drawn_char_iff
    constructor
    · rintro ⟨pixels, dat', hrun, hpixels⟩
      rcases Option.bind_eq_some_iff.mp hrun with ⟨x, hx', hrest⟩
      obtain ⟨hle, -⟩ := advance_eq_some.mp hx'
      cases hrest
      refine ⟨?_, hdrawn.mp hpixels⟩
      simp only [FONT_WIDTH] at hle
      omega
    · rintro ⟨hle, hfits⟩
      have hadv : advance dat.x FONT_WIDTH = some (dat.x + FONT_WIDTH) :=
        if_pos (by simp only [FONT_WIDTH]; omega)
      refine ⟨draw_char c dat.x dat.y dat.color, { dat with x := dat.x + FONT_WIDTH }, ?_,
        hdrawn.mpr hfits⟩
      rw [hadv]
      rfl

/-- Every character of `cs` has its place behind `pre`. -/
def FitsBehind (fb : Framebuffer) (pre cs : List UInt8) : Prop :=
  ∀ l c r, cs = l ++ c :: r → Placed fb (pre ++ l) c

theorem fitsBehind_nil : FitsBehind fb pre [] := by
  intro l c r h
  exact absurd h (by simp)

theorem fitsBehind_cons :
    FitsBehind fb pre (c :: cs) ↔ Placed fb pre c ∧ FitsBehind fb (pre ++ [c]) cs := by
  constructor
  · intro h
    refine ⟨?_, fun l d r hcs => ?_⟩
    · have hfirst := h [] c cs rfl
      rwa [List.append_nil] at hfirst
    · have hnext := h (c :: l) d r (by rw [hcs]; rfl)
      rwa [List.append_assoc, List.singleton_append]
  · rintro ⟨hfirst, hrest⟩ l d r hcs
    -- Either the character is the first one, or it is one of the others.
    cases l with
    | nil =>
        cases hcs
        rwa [List.append_nil]
    | cons e l =>
        rw [List.cons_append, List.cons.injEq] at hcs
        obtain ⟨rfl, hcs⟩ := hcs
        have hnext := hrest l d r hcs
        rwa [List.append_assoc, List.singleton_append] at hnext

theorem fitsBehind_append {cs' : List UInt8} :
    FitsBehind fb pre (cs ++ cs') ↔ FitsBehind fb pre cs ∧ FitsBehind fb (pre ++ cs) cs' := by
  induction cs generalizing pre with
  | nil => rw [List.nil_append, List.append_nil, and_iff_right fitsBehind_nil]
  | cons c cs ih =>
      rw [List.cons_append, fitsBehind_cons, fitsBehind_cons, ih, and_assoc, List.append_assoc,
        List.singleton_append]

theorem fitsScreen_iff : FitsScreen fb cs ↔ FitsBehind fb [] cs := Iff.rfl

theorem screen_output_at (h : At dat pre) (hrun : screen_output dat cs = some (pixels, dat')) :
    At dat' (pre ++ cs) := by
  induction cs generalizing dat pre pixels with
  | nil =>
      cases hrun
      rwa [List.append_nil]
  | cons c cs ih =>
      simp only [screen_output, Option.bind_eq_bind, Option.bind_eq_some_iff] at hrun
      rcases hrun with ⟨⟨l, dat₁⟩, hchar, ⟨l', dat₂⟩, hrest, heq⟩
      cases heq
      have hnext := ih (screen_outputchar_at h hchar) hrest
      rwa [List.append_assoc, List.singleton_append] at hnext

/-- A text is drawn on the screen exactly if every character of it has its place there. -/
theorem screen_output_iff (h : At dat pre) :
    (∃ pixels dat', screen_output dat cs = some (pixels, dat') ∧ Drawn fb pixels) ↔
      FitsBehind fb pre cs := by
  induction cs generalizing dat pre with
  | nil => exact iff_of_true ⟨[], dat, rfl, nofun⟩ fitsBehind_nil
  | cons c cs ih =>
      rw [fitsBehind_cons, ← screen_outputchar_iff h]
      constructor
      · rintro ⟨pixels, dat', hrun, hdrawn⟩
        simp only [screen_output, Option.bind_eq_bind, Option.bind_eq_some_iff] at hrun
        rcases hrun with ⟨⟨l, dat₁⟩, hchar, ⟨l', dat₂⟩, hrest, heq⟩
        cases heq
        obtain ⟨hl, hl'⟩ := drawn_append.mp hdrawn
        exact ⟨⟨l, dat₁, hchar, hl⟩, (ih (screen_outputchar_at h hchar)).mp ⟨l', dat₂, hrest, hl'⟩⟩
      · rintro ⟨⟨l, dat₁, hchar, hl⟩, hfits⟩
        rcases (ih (screen_outputchar_at h hchar)).mpr hfits with ⟨l', dat', hrest, hl'⟩
        refine ⟨l ++ l', dat', ?_, drawn_append.mpr ⟨hl, hl'⟩⟩
        simp only [screen_output, hchar, hrest, Option.bind_eq_bind, Option.bind_some]

end Cursor

/-! ## Sequences of calls -/

section Calls

variable {fb : Framebuffer}

theorem eachCall_fits {calls : List TraceCall} {s : Console} {pre text : List UInt8}
    (h : At s.info pre) (htext : textOf s.trace calls = some text) :
    EachCall step (fun _ _ pixels _ => Drawn fb pixels) s calls ↔ FitsBehind fb pre text := by
  induction calls generalizing s pre text with
  | nil =>
      cases htext
      exact iff_of_true trivial fitsBehind_nil
  | cons c calls ih =>
      simp only [textOf, Option.bind_eq_bind, Option.bind_eq_some_iff] at htext
      rcases htext with ⟨⟨cs, t⟩, hcall, rest, hrest, heq⟩
      cases heq
      -- The text of the first call, and what the others put out behind it.
      rw [fitsBehind_append, ← screen_output_iff h]
      have hstep : ∀ pixels info, screen_output s.info cs = some (pixels, info) →
          step s c = some (pixels, { trace := t, info }) := by
        intro pixels info hrun
        simp only [step, hcall, hrun, Option.bind_eq_bind, Option.bind_some]
      constructor
      · rintro ⟨pixels, s', hrun, hdrawn, htail⟩
        simp only [step, hcall, Option.bind_eq_bind, Option.bind_some, Option.bind_eq_some_iff] at hrun
        rcases hrun with ⟨⟨l, info⟩, houtput, heq⟩
        cases heq
        exact ⟨⟨l, info, houtput, hdrawn⟩, (ih (screen_output_at h houtput) hrest).mp htail⟩
      · rintro ⟨⟨pixels, info, houtput, hdrawn⟩, hfits⟩
        exact ⟨pixels, _, hstep pixels info houtput, hdrawn,
          (ih (screen_output_at h houtput) hrest).mpr hfits⟩

theorem textOf_of_eachCall {calls : List TraceCall} {s : Console}
    (h : EachCall step (fun _ _ pixels _ => Drawn fb pixels) s calls) :
    ∃ text, textOf s.trace calls = some text := by
  induction calls generalizing s with
  | nil => exact ⟨[], rfl⟩
  | cons c calls ih =>
      rcases h with ⟨pixels, s', hrun, -, htail⟩
      simp only [step, Option.bind_eq_bind, Option.bind_eq_some_iff] at hrun
      rcases hrun with ⟨⟨cs, t⟩, hcall, ⟨l, info⟩, -, heq⟩
      cases heq
      rcases ih htail with ⟨rest, hrest⟩
      refine ⟨cs ++ rest, ?_⟩
      simp only [textOf, hcall, hrest, Option.bind_eq_bind, Option.bind_some]

/-- **The trace console.** For every sequence of calls, with the cursor where `main` puts it, every
pixel is drawn on the screen and inside the buffer exactly if the calls put out a text whose
characters all stand on the screen. -/
theorem trace_console_iff (fb : Framebuffer) (trace : Trace) (calls : List TraceCall) :
    EachCall step (fun _ _ pixels _ => Drawn fb pixels) { trace, info := initialInfo } calls ↔
      ∃ text, textOf trace calls = some text ∧ FitsScreen fb text := by
  have hfits : ∀ text, textOf trace calls = some text →
      (EachCall step (fun _ _ pixels _ => Drawn fb pixels) { trace, info := initialInfo } calls ↔
        FitsScreen fb text) :=
    fun text htext =>
      (eachCall_fits (s := { trace, info := initialInfo }) at_initial htext).trans fitsScreen_iff.symm
  constructor
  · intro h
    rcases textOf_of_eachCall h with ⟨text, htext⟩
    exact ⟨text, htext, (hfits text htext).mp h⟩
  · rintro ⟨text, htext, h⟩
    exact (hfits text htext).mpr h

/-- The text of calls without directives. -/
theorem textOf_plain {un : ByteMem} {args : List Arg} {formats : List (List UInt8)}
    (h : ∀ format ∈ formats, 37 ∉ format ∧ format.length ≤ 2147483647) (t : Trace) :
    textOf t (formats.map fun format => .print_screen un format args) = some formats.flatten := by
  induction formats with
  | nil => rfl
  | cons format formats ih =>
      obtain ⟨⟨hplain, hlen⟩, hrest⟩ := List.forall_mem_cons.mp h
      have hprint : print_screen un format args = some format := by
        rw [print_screen, printk,
          printFrom_plain hplain (Nat.lt_succ_self _) (by rw [Int.zero_add]; exact_mod_cast hlen),
          Option.map_some]
        exact congrArg some ((List.flatMap_map ..).trans (List.flatMap_singleton' format))
      rw [List.map_cons, textOf, Trace.call, hprint]
      simp only [Option.map_some, Option.bind_eq_bind, Option.bind_some, ih hrest, List.flatten_cons]

/-- After 130 lines the console draws below a screen of 1080 lines. -/
theorem trace_console_below :
    ¬ EachCall step
      (fun _ _ pixels _ => Drawn
        { height := 1080, buf := 0x3C100000, buf_size := 8294400, pitch := 7680
          lines := by decide, below := by decide } pixels)
      { trace := { address := 0x90000, trace_stack := fun _ => .zero, depth := 0, new := 0 }
        info := initialInfo }
      ((List.replicate 130 ([10] : List UInt8) ++ [[65]]).map fun format =>
        .print_screen (fun _ => 0) format []) := by
  intro h
  have hformats : ∀ format ∈ List.replicate 130 ([10] : List UInt8) ++ [[65]],
      37 ∉ format ∧ format.length ≤ 2147483647 := by
    intro format hmem
    rcases List.mem_append.mp hmem with hline | hlast
    · rw [List.eq_of_mem_replicate hline]
      decide
    · rw [List.mem_singleton.mp hlast]
      decide
  have hfits := (eachCall_fits at_initial (textOf_plain hformats _)).mp h
  have htext : (List.replicate 130 ([10] : List UInt8) ++ [[65]]).flatten =
      List.replicate 130 10 ++ 65 :: [] := by
    rw [List.flatten_append, List.flatten_replicate_singleton]
    rfl
  obtain ⟨-, hplace⟩ := hfits (List.replicate 130 10) 65 [] htext
  obtain ⟨-, hbottom⟩ := hplace (by decide)
  have hline : line ([] ++ List.replicate 130 10) = 130 := List.count_replicate_self
  have hglyph : glyphHeight 65 = 7 := by decide
  rw [hline, hglyph] at hbottom
  exact absurd hbottom (by decide)

end Calls

end Drivers
end EmbeddedOS
