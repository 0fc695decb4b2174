import Mathlib.Data.List.FinRange
import Apogee.Lib.Word

/-!
# The text console (`vga_buffer.rs`)

A `Writer` writes to the bottom row of a screen of 25 rows and 80 columns. A new line moves every
row up by one and blanks the bottom row. Writes past the last column would panic on the bounds
check of the buffer; `writeByte_ok` says that none does.
-/

namespace Apogee

open Verif

/-- `ScreenChar`. -/
structure ScreenChar where
  asciiCharacter : UInt8
  colorCode : UInt8
  deriving DecidableEq, Repr

/-- `Color`. -/
inductive Color where
  | black | blue | green | cyan | red | magenta | brown | lightGray | darkGray | lightBlue
  | lightGreen | lightCyan | lightRed | pink | yellow | white
  deriving DecidableEq, Repr

/-- `color as u8`. -/
def Color.toUInt8 : Color → UInt8
  | .black => 0 | .blue => 1 | .green => 2 | .cyan => 3 | .red => 4 | .magenta => 5 | .brown => 6
  | .lightGray => 7 | .darkGray => 8 | .lightBlue => 9 | .lightGreen => 10 | .lightCyan => 11
  | .lightRed => 12 | .pink => 13 | .yellow => 14 | .white => 15

/-- `ColorCode::new`. -/
def ColorCode.new (foreground background : Color) : UInt8 :=
  background.toUInt8 <<< 4 ||| foreground.toUInt8

/-- `Buffer`: row, then column. -/
abbrev Buffer := Fin 25 → Fin 80 → ScreenChar

/-- The buffer after a write of one cell. -/
def Buffer.write (b : Buffer) (row : Fin 25) (col : Fin 80) (c : ScreenChar) : Buffer :=
  Function.update b row (Function.update (b row) col c)

/-- `Writer`. -/
structure Writer where
  columnPosition : Nat
  colorCode : UInt8
  buffer : Buffer

namespace Writer

/-- `set_color`. -/
def setColor (w : Writer) (foreground background : Color) : Writer :=
  { w with colorCode := ColorCode.new foreground background }

/-- `clear_row`. -/
def clearRow (w : Writer) (row : Fin 25) : Writer :=
  let blank : ScreenChar := ⟨0x20, w.colorCode⟩
  { w with buffer := (List.finRange 80).foldl (fun b col => b.write row col blank) w.buffer }

/-- `new_line`: copies row 1 over row 0, then row 2 over row 1, and so on. -/
def newLine (w : Writer) : Writer :=
  let buffer := (List.finRange 24).foldl (fun b row =>
    (List.finRange 80).foldl (fun (b : Buffer) col =>
      b.write row.castSucc col (b row.succ col)) b) w.buffer
  { clearRow { w with buffer := buffer } (Fin.last 24) with columnPosition := 0 }

/-- `write_byte`. -/
def writeByte (w : Writer) (byte : UInt8) : Panics Writer :=
  if byte = 0x0a then
    pure w.newLine
  else
    let w := if 80 ≤ w.columnPosition then w.newLine else w
    if h : w.columnPosition < 80 then
      pure { w with
        buffer := Buffer.write w.buffer (Fin.last 24) ⟨w.columnPosition, h⟩ ⟨byte, w.colorCode⟩
        columnPosition := w.columnPosition + 1 }
    else
      throw ("index out of bounds: the len is 80 but the index is " ++ toString w.columnPosition)

/-- `write_string`, on the bytes of the string. -/
def writeString (w : Writer) (bytes : List UInt8) : Panics Writer :=
  bytes.foldlM (fun w byte =>
    w.writeByte (if (0x20 ≤ byte ∧ byte ≤ 0x7e) ∨ byte = 0x0a then byte else 0xfe)) w

/-- The UTF-8 bytes of `byte as char`. -/
def utf8OfByte (byte : UInt8) : List UInt8 :=
  if byte < 0x80 then [byte] else [(0xc0 : UInt8) ||| byte >>> 6, (0x80 : UInt8) ||| byte &&& 0x3f]

/-- `ConsoleService::write`: each byte is printed as a character. -/
def writeBytes (w : Writer) (bytes : List UInt8) : Panics Writer :=
  bytes.foldlM (fun w byte => w.writeString (utf8OfByte byte)) w

theorem writeByte_ok (w : Writer) (byte : UInt8) : ∃ w', w.writeByte byte = .ok w' := by
  unfold writeByte
  split
  · exact ⟨_, rfl⟩
  · have hlt : (if 80 ≤ w.columnPosition then w.newLine else w).columnPosition < 80 := by
      split
      · exact Nat.zero_lt_succ _
      · omega
    simp only [dif_pos hlt]
    exact ⟨_, rfl⟩

/-- A console write does not panic. -/
theorem writeBytes_ok (w : Writer) (bytes : List UInt8) : ∃ w', w.writeBytes bytes = .ok w' :=
  Panics.foldlM_ok
    (fun w byte => Panics.foldlM_ok (fun w _ => w.writeByte_ok _) (utf8OfByte byte) w) bytes w

end Writer

end Apogee
