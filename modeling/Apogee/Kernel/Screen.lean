import Apogee.Kernel.Vga
import Apogee.Lib.Window

/-!
# What the screen shows

The text of a sequence of `write_string` and `set_color` calls is laid out in rows of 80 cells
without any screen (`layout`), and the screen shows the end of these rows.

* `newLine_spec`: the copy of the rows in place, and the blank bottom row.
* `Sheet`: all rows so far, which only grow. A byte written by the `Writer` is a glyph put on the
  sheet, as the screen shows the sheet (`Shows`).
* `screen_shows_tail`: for every sequence of calls, the screen is the last 25 rows of the initial
  ones followed by the layout.
-/

namespace Apogee

open Verif

/-! ## The layout -/

/-- A row of the screen. -/
abbrev Row := Fin 80 → ScreenChar

/-- A row that is just opened. -/
def blankRow (color : UInt8) : Row := fun _ => ⟨0x20, color⟩

/-- What a byte stands for, with the color in force. -/
inductive Glyph where
  | newline (color : UInt8)
  | cell (c : ScreenChar)
  deriving DecidableEq

/-- Printable ASCII is kept, every other byte is shown as `0xfe`. -/
def glyphOf (color byte : UInt8) : Glyph :=
  if byte = 0x0a then .newline color
  else .cell ⟨if 0x20 ≤ byte ∧ byte ≤ 0x7e then byte else 0xfe, color⟩

/-- A call on the `Writer`. -/
inductive WriterCall where
  | writeString (bytes : List UInt8)
  | setColor (foreground background : Color)

/-- The text of the calls, from the color in force before them. -/
def text : UInt8 → List WriterCall → List Glyph
  | _, [] => []
  | color, .writeString bytes :: calls => bytes.map (glyphOf color) ++ text color calls
  | _, .setColor foreground background :: calls => text (ColorCode.new foreground background) calls

/-- The rows of a text that goes on in a row with `fill` cells, and the fill of the last one. A full
row is left only when a further cell comes. -/
def layout (row : Row) (fill : Nat) : List Glyph → List Row × Nat
  | [] => ([row], fill)
  | .newline color :: glyphs =>
    let (rows, last) := layout (blankRow color) 0 glyphs
    (row :: rows, last)
  | .cell c :: glyphs =>
    if h : fill < 80 then
      layout (Function.update row ⟨fill, h⟩ c) (fill + 1) glyphs
    else
      let (rows, last) := layout (Function.update (blankRow c.colorCode) 0 c) 1 glyphs
      (row :: rows, last)

/-! ## Scrolling -/

namespace Buffer

/-- The rows above the bottom row. -/
def upperRows (b : Buffer) : List Row := List.ofFn fun i : Fin 24 => b i.castSucc

theorem ofFn_eq (b : Buffer) : List.ofFn b = b.upperRows ++ [b (Fin.last 24)] := by
  rw [List.ofFn_succ', List.concat_eq_append]
  rfl

theorem write_self (b : Buffer) (row : Fin 25) (col : Fin 80) (c : ScreenChar) :
    b.write row col c row = Function.update (b row) col c :=
  Function.update_self row _ b

theorem write_of_ne (b : Buffer) {row row' : Fin 25} (h : row' ≠ row) (col : Fin 80)
    (c : ScreenChar) : b.write row col c row' = b row' :=
  Function.update_of_ne h _ b

/-- A loop over columns that writes to one row, with values that do not depend on that row. -/
theorem foldl_write (row : Fin 25) (f : Buffer → Fin 80 → ScreenChar)
    (hf : ∀ b col col' c, f (Buffer.write b row col' c) col = f b col) (cols : List (Fin 80))
    (b : Buffer) :
    cols.foldl (fun b col => Buffer.write b row col (f b col)) b =
      Function.update b row fun col => if col ∈ cols then f b col else b row col := by
  induction cols generalizing b with
  | nil => simp
  | cons a cols ih =>
    rw [List.foldl_cons, ih]
    simp only [hf]
    unfold Buffer.write
    rw [Function.update_idem]
    congr 1
    funext col
    by_cases hcol : col ∈ cols
    · simp [hcol]
    · by_cases ha : col = a
      · subst ha
        simp [hcol]
      · simp [hcol, ha]

/-- The loop over all columns. -/
theorem foldl_write_finRange (row : Fin 25) (f : Buffer → Fin 80 → ScreenChar)
    (hf : ∀ b col col' c, f (Buffer.write b row col' c) col = f b col) (b : Buffer) :
    (List.finRange 80).foldl (fun b col => Buffer.write b row col (f b col)) b =
      Function.update b row (f b) := by
  rw [foldl_write row f hf]
  simp only [List.mem_finRange, if_true]

/-- The copy of one row over the row before it. -/
theorem copyRow (b : Buffer) (row : Fin 24) :
    (List.finRange 80).foldl (fun (b : Buffer) col =>
      b.write row.castSucc col (b row.succ col)) b =
      Function.update b row.castSucc (b row.succ) := by
  apply foldl_write_finRange row.castSucc fun b col => b row.succ col
  intro b col col' c
  have hne : row.succ ≠ row.castSucc := (Fin.castSucc_lt_succ).ne'
  rw [write_of_ne b hne]

end Buffer

namespace Writer

theorem clearRow_eq (w : Writer) (row : Fin 25) :
    w.clearRow row = { w with buffer := Function.update w.buffer row (blankRow w.colorCode) } := by
  have hbuf := Buffer.foldl_write_finRange row (fun _ _ => ⟨0x20, w.colorCode⟩)
    (fun _ _ _ _ => rfl) w.buffer
  simp only [clearRow, hbuf]
  rfl

/-- `new_line` moves the rows up by one and opens a blank row. -/
theorem newLine_spec (w : Writer) :
    (∀ i : Fin 24, w.newLine.buffer i.castSucc = w.buffer i.succ) ∧
      w.newLine.buffer (Fin.last 24) = blankRow w.colorCode ∧
      w.newLine.columnPosition = 0 ∧ w.newLine.colorCode = w.colorCode := by
  have hbuf : w.newLine.buffer = Function.update (shift (List.finRange 24) w.buffer) (Fin.last 24)
      (blankRow w.colorCode) := by
    unfold newLine
    simp only [Buffer.copyRow, clearRow_eq]
    rfl
  refine ⟨fun i => ?_, ?_, rfl, rfl⟩
  · rw [hbuf, Function.update_of_ne (Fin.castSucc_lt_last i).ne]
    exact (shift_finRange w.buffer).1 i
  · rw [hbuf, Function.update_self]

theorem upperRows_newLine (w : Writer) :
    w.newLine.buffer.upperRows = (List.ofFn w.buffer).tail := by
  rw [List.ofFn_succ, List.tail_cons]
  exact congrArg List.ofFn (funext w.newLine_spec.1)

end Writer

/-! ## The sheet -/

/-- All rows so far: those above the last one, the last one, and its fill. -/
structure Sheet where
  above : List Row
  row : Row
  fill : Nat

namespace Sheet

/-- The sheet goes on in a new row. -/
def openRow (sheet : Sheet) (color : UInt8) : Sheet :=
  ⟨sheet.above ++ [sheet.row], blankRow color, 0⟩

def put (sheet : Sheet) : Glyph → Sheet
  | .newline color => sheet.openRow color
  | .cell c =>
    let sheet := if sheet.fill < 80 then sheet else sheet.openRow c.colorCode
    if h : sheet.fill < 80 then
      { sheet with row := Function.update sheet.row ⟨sheet.fill, h⟩ c, fill := sheet.fill + 1 }
    else sheet

def rows (sheet : Sheet) : List Row := sheet.above ++ [sheet.row]

/-- Glyph by glyph, the sheet gets the rows of the layout. -/
theorem foldl_put (glyphs : List Glyph) (sheet : Sheet) :
    (glyphs.foldl put sheet).rows = sheet.above ++ (layout sheet.row sheet.fill glyphs).1 ∧
      (glyphs.foldl put sheet).fill = (layout sheet.row sheet.fill glyphs).2 := by
  induction glyphs generalizing sheet with
  | nil => exact ⟨rfl, rfl⟩
  | cons g glyphs ih =>
    obtain ⟨hrows, hfill⟩ := ih (sheet.put g)
    rw [List.foldl_cons, hrows, hfill]
    cases g with
    | newline color => simp [put, openRow, layout]
    | cell c =>
      by_cases h : sheet.fill < 80
      · simp [put, layout, h]
      · simp [put, openRow, layout, h]

end Sheet

/-- The screen shows the end of the sheet, which fills it. -/
structure Shows (w : Writer) (sheet : Sheet) : Prop where
  upper : w.buffer.upperRows = sheet.above.rtake 24
  bottom : w.buffer (Fin.last 24) = sheet.row
  column : w.columnPosition = sheet.fill
  fits : sheet.fill ≤ 80
  full : 24 ≤ sheet.above.length

namespace Shows

variable {w : Writer} {sheet : Sheet}

theorem screen (h : Shows w sheet) : List.ofFn w.buffer = sheet.rows.rtake 25 := by
  rw [Buffer.ofFn_eq, h.upper, h.bottom]
  exact (List.rtake_concat_succ _ _ _).symm

theorem newLine (h : Shows w sheet) : Shows w.newLine (sheet.openRow w.colorCode) := by
  obtain ⟨-, hbottom, hcolumn, -⟩ := w.newLine_spec
  refine ⟨?_, hbottom, hcolumn, Nat.zero_le _, ?_⟩
  · rw [Writer.upperRows_newLine, Buffer.ofFn_eq, h.upper, h.bottom]
    exact tail_rtake_concat _ h.full
  · exact h.full.trans (by simp [Sheet.openRow])

/-- A cell written at a column of the bottom row. -/
theorem writeCell (h : Shows w sheet) (hlt : sheet.fill < 80) (c : ScreenChar) :
    Shows { w with
        buffer := Buffer.write w.buffer (Fin.last 24) ⟨sheet.fill, hlt⟩ c
        columnPosition := sheet.fill + 1 }
      { sheet with
        row := Function.update sheet.row ⟨sheet.fill, hlt⟩ c, fill := sheet.fill + 1 } := by
  refine ⟨?_, ?_, rfl, hlt, h.full⟩
  · rw [← h.upper]
    apply congrArg List.ofFn
    funext i
    exact Buffer.write_of_ne _ (Fin.castSucc_lt_last i).ne _ _
  · rw [← h.bottom]
    exact Buffer.write_self w.buffer (Fin.last 24) ⟨sheet.fill, hlt⟩ c

/-- The byte that `write_string` hands on is put on the sheet. -/
theorem writeByte (h : Shows w sheet) (byte : UInt8) :
    ∃ w', w.writeByte (if (0x20 ≤ byte ∧ byte ≤ 0x7e) ∨ byte = 0x0a then byte else 0xfe) = .ok w' ∧
      Shows w' (sheet.put (glyphOf w.colorCode byte)) ∧ w'.colorCode = w.colorCode := by
  by_cases hnl : byte = 0x0a
  · subst hnl
    exact ⟨w.newLine, rfl, h.newLine, rfl⟩
  · -- The substituted byte is never a newline, so a cell is written.
    obtain ⟨shown, hshown⟩ : ∃ b, b = if 0x20 ≤ byte ∧ byte ≤ 0x7e then byte else 0xfe := ⟨_, rfl⟩
    have hne : shown ≠ 0x0a := by
      rw [hshown]
      split
      · exact hnl
      · decide
    simp only [hnl, or_false, glyphOf, if_false, ← hshown]
    unfold Writer.writeByte
    simp only [hne, if_false]
    by_cases hfill : sheet.fill < 80
    · have hcol : ¬ 80 ≤ w.columnPosition := by rw [h.column]; omega
      have hlt : w.columnPosition < 80 := by omega
      simp only [hcol, if_false, hlt, dif_pos, Sheet.put, hfill, if_true]
      refine ⟨_, rfl, ?_, rfl⟩
      have := h.writeCell hfill ⟨shown, w.colorCode⟩
      simpa only [h.column] using this
    · have hcol : 80 ≤ w.columnPosition := by rw [h.column]; omega
      have hzero : (0 : Nat) < 80 := by decide
      simp only [hcol, if_true, Sheet.put, hfill, if_false]
      exact ⟨_, rfl, h.newLine.writeCell hzero ⟨shown, w.colorCode⟩, rfl⟩

theorem writeString (h : Shows w sheet) (bytes : List UInt8) :
    ∃ w', w.writeString bytes = .ok w' ∧
      Shows w' ((bytes.map (glyphOf w.colorCode)).foldl Sheet.put sheet) ∧
      w'.colorCode = w.colorCode := by
  induction bytes generalizing w sheet with
  | nil => exact ⟨w, rfl, h, rfl⟩
  | cons byte bytes ih =>
    obtain ⟨w₁, hbyte, h₁, hc₁⟩ := h.writeByte byte
    obtain ⟨w', hrest, h', hc'⟩ := ih h₁
    refine ⟨w', ?_, ?_, hc'.trans hc₁⟩
    · unfold Writer.writeString
      rw [List.foldlM_cons, hbyte]
      exact hrest
    · rw [hc₁] at h'
      exact h'

end Shows

namespace Writer

/-- One call. -/
def call (w : Writer) : WriterCall → Panics Writer
  | .writeString bytes => w.writeString bytes
  | .setColor foreground background => pure (w.setColor foreground background)

/-- The calls in order. -/
def runCalls (w : Writer) (calls : List WriterCall) : Panics Writer := calls.foldlM call w

end Writer

theorem Shows.runCalls {w : Writer} {sheet : Sheet} (h : Shows w sheet) (calls : List WriterCall) :
    ∃ w', w.runCalls calls = .ok w' ∧
      Shows w' ((text w.colorCode calls).foldl Sheet.put sheet) := by
  induction calls generalizing w sheet with
  | nil => exact ⟨w, rfl, h⟩
  | cons c calls ih =>
    cases c with
    | writeString bytes =>
      obtain ⟨w₁, hcall, h₁, hc₁⟩ := h.writeString bytes
      obtain ⟨w', hrest, h'⟩ := ih h₁
      refine ⟨w', ?_, ?_⟩
      · unfold Writer.runCalls
        rw [List.foldlM_cons, Writer.call, hcall]
        exact hrest
      · rw [text, List.foldl_append]
        rw [hc₁] at h'
        exact h'
    | setColor foreground background =>
      have h₁ : Shows (w.setColor foreground background) sheet :=
        ⟨h.upper, h.bottom, h.column, h.fits, h.full⟩
      exact ih h₁

/-- For every initial screen and column and every sequence of calls: no call panics, the screen is
the last 25 rows of the initial rows followed by the layout, whose first row continues the bottom
row, and the column is the fill of the last row. -/
theorem Writer.screen_shows_tail (w : Writer) (calls : List WriterCall)
    (h : w.columnPosition ≤ 80) :
    ∃ w', w.runCalls calls = .ok w' ∧
      List.ofFn w'.buffer = (w.buffer.upperRows ++ (layout (w.buffer (Fin.last 24))
        w.columnPosition (text w.colorCode calls)).1).rtake 25 ∧
      w'.columnPosition = (layout (w.buffer (Fin.last 24)) w.columnPosition
        (text w.colorCode calls)).2 ∧
      w'.columnPosition ≤ 80 := by
  have hlen : w.buffer.upperRows.length = 24 := List.length_ofFn
  have hshows : Shows w ⟨w.buffer.upperRows, w.buffer (Fin.last 24), w.columnPosition⟩ := by
    refine ⟨?_, rfl, rfl, h, hlen.ge⟩
    simp [List.rtake, hlen]
  obtain ⟨w', hrun, hw'⟩ := hshows.runCalls calls
  obtain ⟨hrows, hfill⟩ := Sheet.foldl_put (text w.colorCode calls)
    ⟨w.buffer.upperRows, w.buffer (Fin.last 24), w.columnPosition⟩
  refine ⟨w', hrun, ?_, hw'.column.trans hfill, ?_⟩
  · rw [hw'.screen, hrows]
  · rw [hw'.column]
    exact hw'.fits

/-- A full bottom row: the first cell after it opens a row. -/
theorem Writer.screen_shows_tail_full : ∃ w', Writer.runCalls ⟨80, 7, fun _ => blankRow 7⟩
    [.setColor .white .blue, .writeString [0x41, 0x80]] = .ok w' ∧ w'.columnPosition = 2 ∧
      List.ofFn w'.buffer = (List.replicate 25 (blankRow 7) ++ [Function.update (Function.update
        (blankRow 0x1f) 0 ⟨0x41, 0x1f⟩) 1 ⟨0xfe, 0x1f⟩]).rtake 25 := by
  obtain ⟨w', hrun, hrows, hcol, -⟩ := Writer.screen_shows_tail ⟨80, 7, fun _ => blankRow 7⟩
    [.setColor .white .blue, .writeString [0x41, 0x80]] (Nat.le_refl 80)
  exact ⟨w', hrun, hcol, hrows⟩

/-! ## The console service -/

def Glyph.isCell : Glyph → Bool
  | .newline _ => false
  | .cell _ => true

/-- How many cells `write_string` writes for some bytes. -/
def cellsWritten (color : UInt8) (bytes : List UInt8) : Nat :=
  (bytes.map (glyphOf color)).countP Glyph.isCell

theorem cellsWritten_eq (color : UInt8) (bytes : List UInt8) :
    cellsWritten color bytes = bytes.countP (· ≠ 0x0a) := by
  unfold cellsWritten
  rw [List.countP_map]
  apply List.countP_congr
  intro byte _
  by_cases h : byte = 0x0a
  · simp [glyphOf, Glyph.isCell, h]
  · simp [glyphOf, Glyph.isCell, h]

/-- The bytes of a longer encoding have a high bit, so none is a newline. -/
theorem or_ne_newline {a : UInt8} (b : UInt8) (h : 0x0a < a.toNat) : a ||| b ≠ 0x0a := by
  intro heq
  have hval := congrArg UInt8.toNat heq
  have hle := Nat.left_le_or (n := a.toNat) (m := b.toNat)
  rw [UInt8.toNat_or] at hval
  rw [hval] at hle
  exact absurd hle (Nat.not_le.mpr h)

/-- Each byte outside ASCII is one cell more. -/
theorem countP_utf8 (bytes : List UInt8) :
    (bytes.flatMap Writer.utf8OfByte).countP (· ≠ 0x0a) =
      bytes.countP (· ≠ 0x0a) + bytes.countP (0x80 ≤ ·) := by
  induction bytes with
  | nil => rfl
  | cons byte bytes ih =>
    rw [List.flatMap_cons, List.countP_append, ih, List.countP_cons, List.countP_cons]
    by_cases h : byte < 0x80
    · have hle : ¬ (0x80 ≤ byte) := UInt8.not_le.mpr h
      simp only [Writer.utf8OfByte, h, if_true, List.countP_singleton, hle, decide_false]
      simp only [Bool.false_eq_true, if_false]
      omega
    · have hle : 0x80 ≤ byte := UInt8.not_lt.mp h
      have hne : byte ≠ 0x0a := by
        rintro rfl
        exact h (by decide)
      have hfirst : (0xc0 : UInt8) ||| byte >>> 6 ≠ 0x0a := or_ne_newline _ (by decide)
      have hsecond : (0x80 : UInt8) ||| byte &&& 0x3f ≠ 0x0a := or_ne_newline _ (by decide)
      simp [Writer.utf8OfByte, h, hle, hne, hfirst, hsecond]
      omega

/-- The bytes that the service prints, as one string. -/
theorem Writer.writeBytes_eq (w : Writer) (bytes : List UInt8) :
    w.writeBytes bytes = w.writeString (bytes.flatMap utf8OfByte) := by
  unfold writeBytes
  induction bytes generalizing w with
  | nil => rfl
  | cons byte bytes ih =>
    rw [List.foldlM_cons, List.flatMap_cons]
    unfold writeString at ih ⊢
    rw [List.foldlM_append]
    exact congrArg (bind _) (funext ih)

/-- For every screen and all bytes: the service leaves the screen and the cursor that the bytes
written once each leave, with one cell for each byte that is not a newline, if and only if all bytes
are ASCII. -/
theorem Writer.console_exact_iff (w : Writer) (bytes : List UInt8) :
    (w.writeBytes bytes = w.writeString bytes ∧
      cellsWritten w.colorCode (bytes.flatMap utf8OfByte) = bytes.countP (· ≠ 0x0a)) ↔
    ∀ byte ∈ bytes, byte < 0x80 := by
  rw [cellsWritten_eq, countP_utf8]
  constructor
  · rintro ⟨-, hcells⟩ byte hbyte
    have hzero : bytes.countP (0x80 ≤ ·) = 0 := by omega
    have := List.countP_eq_zero.mp hzero byte hbyte
    exact UInt8.not_le.mp (by simpa using this)
  · intro hascii
    have hflat : bytes.flatMap utf8OfByte = bytes := by
      have hone : bytes.flatMap utf8OfByte = bytes.flatMap fun byte => [byte] := by
        apply List.flatMap_congr
        intro byte hbyte
        exact if_pos (hascii byte hbyte)
      rw [hone, List.flatMap_singleton']
    have hzero : bytes.countP (0x80 ≤ ·) = 0 := by
      apply List.countP_eq_zero.mpr
      intro byte hbyte
      simpa using hascii byte hbyte
    refine ⟨?_, by omega⟩
    rw [writeBytes_eq, hflat]

/-- `Hi` and a newline. -/
theorem Writer.console_exact_iff_hi :
    Writer.writeBytes ⟨79, 7, fun _ => blankRow 7⟩ [0x48, 0x69, 0x0a] =
        Writer.writeString ⟨79, 7, fun _ => blankRow 7⟩ [0x48, 0x69, 0x0a] ∧
      cellsWritten 7 ([0x48, 0x69, 0x0a].flatMap utf8OfByte) = 2 :=
  (Writer.console_exact_iff ⟨79, 7, fun _ => blankRow 7⟩ [0x48, 0x69, 0x0a]).mpr (by simp)

/-- One byte, two cells: the cursor of the service is at 2, the byte written once leaves it at 1. -/
theorem Writer.console_two_cells :
    (Writer.writeBytes ⟨0, 7, fun _ => blankRow 7⟩ [0x80]).map columnPosition = .ok 2 ∧
      (Writer.writeString ⟨0, 7, fun _ => blankRow 7⟩ [0x80]).map columnPosition = .ok 1 ∧
      cellsWritten 7 ([0x80].flatMap utf8OfByte) = 2 := by
  exact ⟨rfl, rfl, rfl⟩

end Apogee
