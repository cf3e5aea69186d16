/-!
# The screen font

`font` of `framebuffer.c`: eight bytes a glyph, one for each line from the top, the leftmost column in
the lowest bit.
-/

namespace EmbeddedOS
namespace Drivers

abbrev FONT_WIDTH : Nat := 8

abbrev FONT_HEIGHT : Nat := 8

abbrev FONT_NUMGLYPHS : Nat := 224

def font : List (List Nat) := [
  [0x00, 0x00, 0x00, 0x00, 0x00, 0x00, 0x00, 0x00],
  [0x00, 0x00, 0x00, 0x00, 0x00, 0x00, 0x00, 0x00],
  [0x00, 0x00, 0x00, 0x00, 0x00, 0x00, 0x00, 0x00],
  [0x00, 0x00, 0x00, 0x00, 0x00, 0x00, 0x00, 0x00],
  [0x00, 0x00, 0x00, 0x00, 0x00, 0x00, 0x00, 0x00],
  [0x00, 0x00, 0x00, 0x00, 0x00, 0x00, 0x00, 0x00],
  [0x00, 0x00, 0x00, 0x00, 0x00, 0x00, 0x00, 0x00],
  [0x00, 0x00, 0x00, 0x00, 0x00, 0x00, 0x00, 0x00],
  [0x00, 0x00, 0x00, 0x00, 0x00, 0x00, 0x00, 0x00],
  [0x00, 0x00, 0x00, 0x00, 0x00, 0x00, 0x00, 0x00],
  [0x00, 0x00, 0x00, 0x00, 0x00, 0x00, 0x00, 0x00],
  [0x00, 0x00, 0x00, 0x00, 0x00, 0x00, 0x00, 0x00],
  [0x00, 0x00, 0x00, 0x00, 0x00, 0x00, 0x00, 0x00],
  [0x00, 0x00, 0x00, 0x00, 0x00, 0x00, 0x00, 0x00],
  [0x00, 0x00, 0x00, 0x00, 0x00, 0x00, 0x00, 0x00],
  [0x00, 0x00, 0x00, 0x00, 0x00, 0x00, 0x00, 0x00],
  [0x00, 0x00, 0x00, 0x00, 0x00, 0x00, 0x00, 0x00],
  [0x00, 0x00, 0x00, 0x00, 0x00, 0x00, 0x00, 0x00],
  [0x00, 0x00, 0x00, 0x00, 0x00, 0x00, 0x00, 0x00],
  [0x00, 0x00, 0x00, 0x00, 0x00, 0x00, 0x00, 0x00],
  [0x00, 0x00, 0x00, 0x00, 0x00, 0x00, 0x00, 0x00],
  [0x00, 0x00, 0x00, 0x00, 0x00, 0x00, 0x00, 0x00],
  [0x00, 0x00, 0x00, 0x00, 0x00, 0x00, 0x00, 0x00],
  [0x00, 0x00, 0x00, 0x00, 0x00, 0x00, 0x00, 0x00],
  [0x00, 0x00, 0x00, 0x00, 0x00, 0x00, 0x00, 0x00],
  [0x00, 0x00, 0x00, 0x00, 0x00, 0x00, 0x00, 0x00],
  [0x00, 0x00, 0x00, 0x00, 0x00, 0x00, 0x00, 0x00],
  [0x00, 0x00, 0x00, 0x00, 0x00, 0x00, 0x00, 0x00],
  [0x00, 0x00, 0x00, 0x00, 0x00, 0x00, 0x00, 0x00],
  [0x00, 0x00, 0x00, 0x00, 0x00, 0x00, 0x00, 0x00],
  [0x00, 0x00, 0x00, 0x00, 0x00, 0x00, 0x00, 0x00],
  [0x00, 0x00, 0x00, 0x00, 0x00, 0x00, 0x00, 0x00],
  [0x00, 0x00, 0x00, 0x00, 0x00, 0x00, 0x00, 0x00],
  [0x18, 0x3C, 0x3C, 0x18, 0x18, 0x00, 0x18, 0x00],
  [0x36, 0x36, 0x00, 0x00, 0x00, 0x00, 0x00, 0x00],
  [0x36, 0x36, 0x7F, 0x36, 0x7F, 0x36, 0x36, 0x00],
  [0x0C, 0x3E, 0x03, 0x1E, 0x30, 0x1F, 0x0C, 0x00],
  [0x00, 0x63, 0x33, 0x18, 0x0C, 0x66, 0x63, 0x00],
  [0x1C, 0x36, 0x1C, 0x6E, 0x3B, 0x33, 0x6E, 0x00],
  [0x06, 0x06, 0x03, 0x00, 0x00, 0x00, 0x00, 0x00],
  [0x18, 0x0C, 0x06, 0x06, 0x06, 0x0C, 0x18, 0x00],
  [0x06, 0x0C, 0x18, 0x18, 0x18, 0x0C, 0x06, 0x00],
  [0x00, 0x66, 0x3C, 0xFF, 0x3C, 0x66, 0x00, 0x00],
  [0x00, 0x0C, 0x0C, 0x3F, 0x0C, 0x0C, 0x00, 0x00],
  [0x00, 0x00, 0x00, 0x00, 0x00, 0x0C, 0x0C, 0x06],
  [0x00, 0x00, 0x00, 0x3F, 0x00, 0x00, 0x00, 0x00],
  [0x00, 0x00, 0x00, 0x00, 0x00, 0x0C, 0x0C, 0x00],
  [0x60, 0x30, 0x18, 0x0C, 0x06, 0x03, 0x01, 0x00],
  [0x3E, 0x63, 0x73, 0x7B, 0x6F, 0x67, 0x3E, 0x00],
  [0x0C, 0x0E, 0x0C, 0x0C, 0x0C, 0x0C, 0x3F, 0x00],
  [0x1E, 0x33, 0x30, 0x1C, 0x06, 0x33, 0x3F, 0x00],
  [0x1E, 0x33, 0x30, 0x1C, 0x30, 0x33, 0x1E, 0x00],
  [0x38, 0x3C, 0x36, 0x33, 0x7F, 0x30, 0x78, 0x00],
  [0x3F, 0x03, 0x1F, 0x30, 0x30, 0x33, 0x1E, 0x00],
  [0x1C, 0x06, 0x03, 0x1F, 0x33, 0x33, 0x1E, 0x00],
  [0x3F, 0x33, 0x30, 0x18, 0x0C, 0x0C, 0x0C, 0x00],
  [0x1E, 0x33, 0x33, 0x1E, 0x33, 0x33, 0x1E, 0x00],
  [0x1E, 0x33, 0x33, 0x3E, 0x30, 0x18, 0x0E, 0x00],
  [0x00, 0x0C, 0x0C, 0x00, 0x00, 0x0C, 0x0C, 0x00],
  [0x00, 0x0C, 0x0C, 0x00, 0x00, 0x0C, 0x0C, 0x06],
  [0x18, 0x0C, 0x06, 0x03, 0x06, 0x0C, 0x18, 0x00],
  [0x00, 0x00, 0x3F, 0x00, 0x00, 0x3F, 0x00, 0x00],
  [0x06, 0x0C, 0x18, 0x30, 0x18, 0x0C, 0x06, 0x00],
  [0x1E, 0x33, 0x30, 0x18, 0x0C, 0x00, 0x0C, 0x00],
  [0x3E, 0x63, 0x7B, 0x7B, 0x7B, 0x03, 0x1E, 0x00],
  [0x0C, 0x1E, 0x33, 0x33, 0x3F, 0x33, 0x33, 0x00],
  [0x3F, 0x66, 0x66, 0x3E, 0x66, 0x66, 0x3F, 0x00],
  [0x3C, 0x66, 0x03, 0x03, 0x03, 0x66, 0x3C, 0x00],
  [0x1F, 0x36, 0x66, 0x66, 0x66, 0x36, 0x1F, 0x00],
  [0x7F, 0x46, 0x16, 0x1E, 0x16, 0x46, 0x7F, 0x00],
  [0x7F, 0x46, 0x16, 0x1E, 0x16, 0x06, 0x0F, 0x00],
  [0x3C, 0x66, 0x03, 0x03, 0x73, 0x66, 0x7C, 0x00],
  [0x33, 0x33, 0x33, 0x3F, 0x33, 0x33, 0x33, 0x00],
  [0x1E, 0x0C, 0x0C, 0x0C, 0x0C, 0x0C, 0x1E, 0x00],
  [0x78, 0x30, 0x30, 0x30, 0x33, 0x33, 0x1E, 0x00],
  [0x67, 0x66, 0x36, 0x1E, 0x36, 0x66, 0x67, 0x00],
  [0x0F, 0x06, 0x06, 0x06, 0x46, 0x66, 0x7F, 0x00],
  [0x63, 0x77, 0x7F, 0x7F, 0x6B, 0x63, 0x63, 0x00],
  [0x63, 0x67, 0x6F, 0x7B, 0x73, 0x63, 0x63, 0x00],
  [0x1C, 0x36, 0x63, 0x63, 0x63, 0x36, 0x1C, 0x00],
  [0x3F, 0x66, 0x66, 0x3E, 0x06, 0x06, 0x0F, 0x00],
  [0x1E, 0x33, 0x33, 0x33, 0x3B, 0x1E, 0x38, 0x00],
  [0x3F, 0x66, 0x66, 0x3E, 0x36, 0x66, 0x67, 0x00],
  [0x1E, 0x33, 0x07, 0x0E, 0x38, 0x33, 0x1E, 0x00],
  [0x3F, 0x2D, 0x0C, 0x0C, 0x0C, 0x0C, 0x1E, 0x00],
  [0x33, 0x33, 0x33, 0x33, 0x33, 0x33, 0x3F, 0x00],
  [0x33, 0x33, 0x33, 0x33, 0x33, 0x1E, 0x0C, 0x00],
  [0x63, 0x63, 0x63, 0x6B, 0x7F, 0x77, 0x63, 0x00],
  [0x63, 0x63, 0x36, 0x1C, 0x1C, 0x36, 0x63, 0x00],
  [0x33, 0x33, 0x33, 0x1E, 0x0C, 0x0C, 0x1E, 0x00],
  [0x7F, 0x63, 0x31, 0x18, 0x4C, 0x66, 0x7F, 0x00],
  [0x1E, 0x06, 0x06, 0x06, 0x06, 0x06, 0x1E, 0x00],
  [0x03, 0x06, 0x0C, 0x18, 0x30, 0x60, 0x40, 0x00],
  [0x1E, 0x18, 0x18, 0x18, 0x18, 0x18, 0x1E, 0x00],
  [0x08, 0x1C, 0x36, 0x63, 0x00, 0x00, 0x00, 0x00],
  [0x00, 0x00, 0x00, 0x00, 0x00, 0x00, 0x00, 0xFF],
  [0x0C, 0x0C, 0x18, 0x00, 0x00, 0x00, 0x00, 0x00],
  [0x00, 0x00, 0x1E, 0x30, 0x3E, 0x33, 0x6E, 0x00],
  [0x07, 0x06, 0x06, 0x3E, 0x66, 0x66, 0x3B, 0x00],
  [0x00, 0x00, 0x1E, 0x33, 0x03, 0x33, 0x1E, 0x00],
  [0x38, 0x30, 0x30, 0x3E, 0x33, 0x33, 0x6E, 0x00],
  [0x00, 0x00, 0x1E, 0x33, 0x3F, 0x03, 0x1E, 0x00],
  [0x1C, 0x36, 0x06, 0x0F, 0x06, 0x06, 0x0F, 0x00],
  [0x00, 0x00, 0x6E, 0x33, 0x33, 0x3E, 0x30, 0x1F],
  [0x07, 0x06, 0x36, 0x6E, 0x66, 0x66, 0x67, 0x00],
  [0x0C, 0x00, 0x0E, 0x0C, 0x0C, 0x0C, 0x1E, 0x00],
  [0x30, 0x00, 0x30, 0x30, 0x30, 0x33, 0x33, 0x1E],
  [0x07, 0x06, 0x66, 0x36, 0x1E, 0x36, 0x67, 0x00],
  [0x0E, 0x0C, 0x0C, 0x0C, 0x0C, 0x0C, 0x1E, 0x00],
  [0x00, 0x00, 0x33, 0x7F, 0x7F, 0x6B, 0x63, 0x00],
  [0x00, 0x00, 0x1F, 0x33, 0x33, 0x33, 0x33, 0x00],
  [0x00, 0x00, 0x1E, 0x33, 0x33, 0x33, 0x1E, 0x00],
  [0x00, 0x00, 0x3B, 0x66, 0x66, 0x3E, 0x06, 0x0F],
  [0x00, 0x00, 0x6E, 0x33, 0x33, 0x3E, 0x30, 0x78],
  [0x00, 0x00, 0x3B, 0x6E, 0x66, 0x06, 0x0F, 0x00],
  [0x00, 0x00, 0x3E, 0x03, 0x1E, 0x30, 0x1F, 0x00],
  [0x08, 0x0C, 0x3E, 0x0C, 0x0C, 0x2C, 0x18, 0x00],
  [0x00, 0x00, 0x33, 0x33, 0x33, 0x33, 0x6E, 0x00],
  [0x00, 0x00, 0x33, 0x33, 0x33, 0x1E, 0x0C, 0x00],
  [0x00, 0x00, 0x63, 0x6B, 0x7F, 0x7F, 0x36, 0x00],
  [0x00, 0x00, 0x63, 0x36, 0x1C, 0x36, 0x63, 0x00],
  [0x00, 0x00, 0x33, 0x33, 0x33, 0x3E, 0x30, 0x1F],
  [0x00, 0x00, 0x3F, 0x19, 0x0C, 0x26, 0x3F, 0x00],
  [0x38, 0x0C, 0x0C, 0x07, 0x0C, 0x0C, 0x38, 0x00],
  [0x18, 0x18, 0x18, 0x00, 0x18, 0x18, 0x18, 0x00],
  [0x07, 0x0C, 0x0C, 0x38, 0x0C, 0x0C, 0x07, 0x00],
  [0x6E, 0x3B, 0x00, 0x00, 0x00, 0x00, 0x00, 0x00],
  [0x00, 0x00, 0x00, 0x00, 0x00, 0x00, 0x00, 0x00],
  [0x1E, 0x33, 0x03, 0x33, 0x1E, 0x18, 0x30, 0x1E],
  [0x00, 0x33, 0x00, 0x33, 0x33, 0x33, 0x7E, 0x00],
  [0x38, 0x00, 0x1E, 0x33, 0x3F, 0x03, 0x1E, 0x00],
  [0x7E, 0xC3, 0x3C, 0x60, 0x7C, 0x66, 0xFC, 0x00],
  [0x33, 0x00, 0x1E, 0x30, 0x3E, 0x33, 0x7E, 0x00],
  [0x07, 0x00, 0x1E, 0x30, 0x3E, 0x33, 0x7E, 0x00],
  [0x0C, 0x0C, 0x1E, 0x30, 0x3E, 0x33, 0x7E, 0x00],
  [0x00, 0x00, 0x1E, 0x03, 0x03, 0x1E, 0x30, 0x1C],
  [0x7E, 0xC3, 0x3C, 0x66, 0x7E, 0x06, 0x3C, 0x00],
  [0x33, 0x00, 0x1E, 0x33, 0x3F, 0x03, 0x1E, 0x00],
  [0x07, 0x00, 0x1E, 0x33, 0x3F, 0x03, 0x1E, 0x00],
  [0x33, 0x00, 0x0E, 0x0C, 0x0C, 0x0C, 0x1E, 0x00],
  [0x3E, 0x63, 0x1C, 0x18, 0x18, 0x18, 0x3C, 0x00],
  [0x07, 0x00, 0x0E, 0x0C, 0x0C, 0x0C, 0x1E, 0x00],
  [0x63, 0x1C, 0x36, 0x63, 0x7F, 0x63, 0x63, 0x00],
  [0x0C, 0x0C, 0x00, 0x1E, 0x33, 0x3F, 0x33, 0x00],
  [0x07, 0x00, 0x3F, 0x06, 0x1E, 0x06, 0x3F, 0x00],
  [0x00, 0x00, 0xFE, 0x30, 0xFE, 0x33, 0xFE, 0x00],
  [0x7C, 0x36, 0x33, 0x7F, 0x33, 0x33, 0x73, 0x00],
  [0x1E, 0x33, 0x00, 0x1E, 0x33, 0x33, 0x1E, 0x00],
  [0x00, 0x33, 0x00, 0x1E, 0x33, 0x33, 0x1E, 0x00],
  [0x00, 0x07, 0x00, 0x1E, 0x33, 0x33, 0x1E, 0x00],
  [0x1E, 0x33, 0x00, 0x33, 0x33, 0x33, 0x7E, 0x00],
  [0x00, 0x07, 0x00, 0x33, 0x33, 0x33, 0x7E, 0x00],
  [0x00, 0x33, 0x00, 0x33, 0x33, 0x3E, 0x30, 0x1F],
  [0xC3, 0x18, 0x3C, 0x66, 0x66, 0x3C, 0x18, 0x00],
  [0x33, 0x00, 0x33, 0x33, 0x33, 0x33, 0x1E, 0x00],
  [0x18, 0x18, 0x7E, 0x03, 0x03, 0x7E, 0x18, 0x18],
  [0x1C, 0x36, 0x26, 0x0F, 0x06, 0x67, 0x3F, 0x00],
  [0x33, 0x33, 0x1E, 0x3F, 0x0C, 0x3F, 0x0C, 0x0C],
  [0x7C, 0xC6, 0x1C, 0x36, 0x36, 0x1C, 0x33, 0x1E],
  [0x70, 0xD8, 0x18, 0x3C, 0x18, 0x18, 0x1B, 0x0E],
  [0x38, 0x00, 0x1E, 0x30, 0x3E, 0x33, 0x7E, 0x00],
  [0x1C, 0x00, 0x0E, 0x0C, 0x0C, 0x0C, 0x1E, 0x00],
  [0x00, 0x38, 0x00, 0x1E, 0x33, 0x33, 0x1E, 0x00],
  [0x00, 0x38, 0x00, 0x33, 0x33, 0x33, 0x7E, 0x00],
  [0x00, 0x1F, 0x00, 0x1F, 0x33, 0x33, 0x33, 0x00],
  [0x3F, 0x00, 0x33, 0x37, 0x3F, 0x3B, 0x33, 0x00],
  [0x3C, 0x36, 0x36, 0x7C, 0x00, 0x00, 0x00, 0x00],
  [0x1C, 0x36, 0x36, 0x1C, 0x00, 0x00, 0x00, 0x00],
  [0x0C, 0x00, 0x0C, 0x06, 0x03, 0x33, 0x1E, 0x00],
  [0x00, 0x00, 0x00, 0x3F, 0x03, 0x03, 0x00, 0x00],
  [0x00, 0x00, 0x00, 0x3F, 0x30, 0x30, 0x00, 0x00],
  [0xC3, 0x63, 0x33, 0x7B, 0xCC, 0x66, 0x33, 0xF0],
  [0xC3, 0x63, 0x33, 0xBD, 0xEC, 0xF6, 0xF3, 0x03],
  [0x18, 0x18, 0x00, 0x18, 0x18, 0x18, 0x18, 0x00],
  [0x00, 0xCC, 0x66, 0x33, 0x66, 0xCC, 0x00, 0x00],
  [0x00, 0x33, 0x66, 0xCC, 0x66, 0x33, 0x00, 0x00],
  [0x55, 0x00, 0xAA, 0x00, 0x55, 0x00, 0xAA, 0x00],
  [0x55, 0xAA, 0x55, 0xAA, 0x55, 0xAA, 0x55, 0xAA],
  [0xFF, 0xAA, 0xFF, 0x55, 0xFF, 0xAA, 0xFF, 0x55],
  [0x08, 0x08, 0x08, 0x08, 0x08, 0x08, 0x08, 0x08],
  [0x08, 0x08, 0x08, 0x08, 0x0F, 0x08, 0x08, 0x08],
  [0x08, 0x08, 0x08, 0x0F, 0x08, 0x0F, 0x08, 0x08],
  [0x14, 0x14, 0x14, 0x14, 0x17, 0x14, 0x14, 0x14],
  [0x00, 0x00, 0x00, 0x00, 0x1F, 0x14, 0x14, 0x14],
  [0x00, 0x00, 0x00, 0x0F, 0x08, 0x0F, 0x08, 0x08],
  [0x14, 0x14, 0x14, 0x17, 0x10, 0x17, 0x14, 0x14],
  [0x14, 0x14, 0x14, 0x14, 0x14, 0x14, 0x14, 0x14],
  [0x00, 0x00, 0x00, 0x1F, 0x10, 0x17, 0x14, 0x14],
  [0x14, 0x14, 0x14, 0x17, 0x10, 0x1F, 0x00, 0x00],
  [0x14, 0x14, 0x14, 0x14, 0x1F, 0x00, 0x00, 0x00],
  [0x08, 0x08, 0x08, 0x0F, 0x08, 0x0F, 0x00, 0x00],
  [0x00, 0x00, 0x00, 0x00, 0x0F, 0x08, 0x08, 0x08],
  [0x08, 0x08, 0x08, 0x08, 0xF8, 0x00, 0x00, 0x00],
  [0x08, 0x08, 0x08, 0x08, 0xFF, 0x00, 0x00, 0x00],
  [0x00, 0x00, 0x00, 0x00, 0xFF, 0x08, 0x08, 0x08],
  [0x08, 0x08, 0x08, 0x08, 0xF8, 0x08, 0x08, 0x08],
  [0x00, 0x00, 0x00, 0x00, 0xFF, 0x00, 0x00, 0x00],
  [0x08, 0x08, 0x08, 0x08, 0xFF, 0x08, 0x08, 0x08],
  [0x08, 0x08, 0x08, 0xF8, 0x08, 0xF8, 0x08, 0x08],
  [0x14, 0x14, 0x14, 0x14, 0xF4, 0x14, 0x14, 0x14],
  [0x14, 0x14, 0x14, 0xF4, 0x04, 0xFC, 0x00, 0x00],
  [0x00, 0x00, 0x00, 0xFC, 0x04, 0xF4, 0x14, 0x14],
  [0x14, 0x14, 0x14, 0xF7, 0x00, 0xFF, 0x00, 0x00],
  [0x00, 0x00, 0x00, 0xFF, 0x00, 0xF7, 0x14, 0x14],
  [0x14, 0x14, 0x14, 0xF4, 0x04, 0xF4, 0x14, 0x14],
  [0x00, 0x00, 0x00, 0xFF, 0x00, 0xFF, 0x00, 0x00],
  [0x14, 0x14, 0x14, 0xF7, 0x00, 0xF7, 0x14, 0x14],
  [0x08, 0x08, 0x08, 0xFF, 0x00, 0xFF, 0x00, 0x00],
  [0x14, 0x14, 0x14, 0x14, 0xFF, 0x00, 0x00, 0x00],
  [0x00, 0x00, 0x00, 0xFF, 0x00, 0xFF, 0x08, 0x08],
  [0x00, 0x00, 0x00, 0x00, 0xFF, 0x14, 0x14, 0x14],
  [0x14, 0x14, 0x14, 0x14, 0xFC, 0x00, 0x00, 0x00],
  [0x08, 0x08, 0x08, 0xF8, 0x08, 0xF8, 0x00, 0x00],
  [0x00, 0x00, 0x00, 0xF8, 0x08, 0xF8, 0x08, 0x08],
  [0x00, 0x00, 0x00, 0x00, 0xFC, 0x14, 0x14, 0x14],
  [0x14, 0x14, 0x14, 0x14, 0xFF, 0x14, 0x14, 0x14],
  [0x08, 0x08, 0x08, 0xFF, 0x08, 0xFF, 0x08, 0x08],
  [0x08, 0x08, 0x08, 0x08, 0x0F, 0x00, 0x00, 0x00],
  [0x00, 0x00, 0x00, 0x00, 0xF8, 0x08, 0x08, 0x08],
  [0xFF, 0xFF, 0xFF, 0xFF, 0xFF, 0xFF, 0xFF, 0xFF],
  [0x00, 0x00, 0x00, 0x00, 0xFF, 0xFF, 0xFF, 0xFF],
  [0x0F, 0x0F, 0x0F, 0x0F, 0x0F, 0x0F, 0x0F, 0x0F],
  [0xF0, 0xF0, 0xF0, 0xF0, 0xF0, 0xF0, 0xF0, 0xF0],
  [0xFF, 0xFF, 0xFF, 0xFF, 0x00, 0x00, 0x00, 0x00]]

/-- Whether the glyph of `ch` has the pixel in column `j` of line `i`. The first glyph stands for a
character that the font does not have. -/
def glyphBit (ch : UInt8) (i j : Nat) : Bool :=
  let glyph := font.getD (if ch.toNat < FONT_NUMGLYPHS then ch.toNat else 0) []
  glyph.getD i 0 &&& (1 <<< j) != 0

/-- The pixels of a glyph, as columns and lines, in the order they are drawn. -/
def glyphPixels (ch : UInt8) : List (Nat × Nat) :=
  (List.range FONT_HEIGHT).flatMap fun i =>
    ((List.range FONT_WIDTH).filter fun j => glyphBit ch i j).map fun j => (j, i)

/-- The columns from the left, and the lines from the top, that a glyph takes up. -/
def glyphWidth (ch : UInt8) : Nat :=
  (glyphPixels ch).foldr (fun p width => max (p.1 + 1) width) 0

def glyphHeight (ch : UInt8) : Nat :=
  (glyphPixels ch).foldr (fun p height => max (p.2 + 1) height) 0

theorem foldr_max_le {α : Type} (f : α → Nat) (l : List α) (n : Nat) :
    l.foldr (fun a m => max (f a) m) 0 ≤ n ↔ ∀ a ∈ l, f a ≤ n := by
  induction l with
  | nil => exact iff_of_true (Nat.zero_le n) nofun
  | cons a l ih => rw [List.foldr_cons, Nat.max_le, ih, List.forall_mem_cons]

/-- A glyph stays left of a column exactly if its width does. -/
theorem glyphWidth_le {ch : UInt8} {n : Nat} :
    glyphWidth ch ≤ n ↔ ∀ p ∈ glyphPixels ch, p.1 + 1 ≤ n :=
  foldr_max_le (fun p : Nat × Nat => p.1 + 1) (glyphPixels ch) n

theorem glyphHeight_le {ch : UInt8} {n : Nat} :
    glyphHeight ch ≤ n ↔ ∀ p ∈ glyphPixels ch, p.2 + 1 ≤ n :=
  foldr_max_le (fun p : Nat × Nat => p.2 + 1) (glyphPixels ch) n

/-- The letter `A`. -/
example : glyphWidth 65 = 6 ∧ glyphHeight 65 = 7 := by decide

end Drivers
end EmbeddedOS
