import Apogee.Lib.Utf8

/-!
# The serial logger (`src/logger.rs`)

A log line has the level, a tag of four bytes that `_log` cuts from the name of the source, and the
message. The serial port may be locked, and then the call only counts a dropped message. `Logger` is
the text that the calls have handed to the port and that count; whether a call gets the lock is an
input of the call. What `args` formats to is a string. The port's driver, `uart_16550`, is not the
kernel's: `SerialPort` says what is assumed of the bytes that its `send` puts on the line.

The tag goes through `from_utf8_unchecked`. Its bytes are UTF-8 exactly if the name has at most four
bytes or a character of it ends after the fourth (`isUtf8_short`), and so the text handed to the
port is UTF-8 as long as every name is such (`run_isUtf8`).
-/

namespace Apogee

open Verif

inductive LogLevel where
  | trace
  | debug
  | info
  | warn
  | error
  deriving DecidableEq, Repr

def LogLevel.tag : LogLevel → String
  | trace => "TRC"
  | debug => "DBG"
  | info => "INF"
  | warn => "WRN"
  | error => "ERR"

/-- `u8::to_ascii_uppercase`. -/
def toAsciiUppercase (b : UInt8) : UInt8 := if 0x61 ≤ b ∧ b ≤ 0x7a then b - 0x20 else b

/-- The buffer `short` of `_log`: spaces, and over them the first bytes of the source's name in
upper case. -/
def short (source : String) : List UInt8 :=
  let buf : List UInt8 := List.replicate 4 0x20
  let bytes := asBytes source
  let copy := min bytes.length 4
  ((buf.take copy).zip (bytes.take copy)).map (fun (_dst, src) => toAsciiUppercase src) ++
    buf.drop copy

/-- `DROPPED_MESSAGES`, and the bytes handed to the serial port's `send`. -/
structure Logger where
  dropped : UInt64
  sent : List UInt8
  deriving DecidableEq, Repr

namespace Logger

/-- `SerialWriter::write_str`. -/
def writeStr (l : Logger) (s : List UInt8) : Logger := { l with sent := l.sent ++ s }

/-- `_print`, with the outcome of `try_lock`. -/
def print (l : Logger) (tryLock : Bool) (args : String) : Logger :=
  if tryLock then l.writeStr (asBytes args) else { l with dropped := l.dropped + 1 }

/-- The line that `_log` writes. -/
def line (level : LogLevel) (source args : String) : List UInt8 :=
  asBytes level.tag ++ asBytes ";" ++ short source ++ asBytes " [" ++ asBytes args ++ asBytes "]\n"

/-- `_log`, with the outcome of `try_lock`. -/
def log (l : Logger) (tryLock : Bool) (level : LogLevel) (source args : String) : Logger :=
  if tryLock then l.writeStr (line level source args) else { l with dropped := l.dropped + 1 }

end Logger

/-- What the port's `send` puts on the line for a byte. It may rewrite backspace and delete, as
`uart_16550` does, and sends every other byte as it is. -/
structure SerialPort where
  send : UInt8 → List UInt8
  send_plain : ∀ b, b ≠ 0x08 → b ≠ 0x7f → send b = [b]

/-- What is on the line after some bytes were sent. -/
def SerialPort.wire (port : SerialPort) (bytes : List UInt8) : List UInt8 :=
  bytes.flatMap port.send

theorem SerialPort.wire_of_plain (port : SerialPort) {bytes : List UInt8}
    (h : ∀ b ∈ bytes, b ≠ 0x08 ∧ b ≠ 0x7f) : port.wire bytes = bytes := by
  induction bytes with
  | nil => rfl
  | cons b bytes ih =>
    obtain ⟨hback, hdelete⟩ := h b (.head _)
    show port.send b ++ port.wire bytes = b :: bytes
    rw [port.send_plain b hback hdelete, ih fun c hc => h c (.tail _ hc)]
    rfl

/-! ## The tag -/

theorem alikeAscii_toAsciiUppercase (b : UInt8) : AlikeAscii (toAsciiUppercase b) b := by
  unfold toAsciiUppercase
  by_cases h : 0x61 ≤ b ∧ b ≤ 0x7a
  · rw [if_pos h]
    obtain ⟨hlo, hhi⟩ := h
    right
    rw [UInt8.le_iff_toNat_le] at hlo hhi
    rw [UInt8.lt_iff_toNat_lt, UInt8.lt_iff_toNat_lt,
      UInt8.toNat_sub_of_le _ _ (UInt8.le_iff_toNat_le.mpr (by simp at *; omega))]
    simp at *
    omega
  · rw [if_neg h]
    exact .inl rfl

/-- The tag is the first four bytes and the spaces after them, in upper case. -/
theorem short_eq (source : String) : short source =
    ((asBytes source).take 4 ++ List.replicate (4 - source.utf8ByteSize) 0x20).map
      toAsciiUppercase := by
  -- The loop over the two prefixes writes the bytes of the name, since these are no longer.
  have hzip : ∀ xs ys : List UInt8, ys.length ≤ xs.length →
      (xs.zip ys).map (fun x => toAsciiUppercase x.2) = ys.map toAsciiUppercase := by
    intro xs ys h
    have hsnd : (xs.zip ys).map Prod.snd = ys := List.map_snd_zip h
    conv_rhs => rw [← hsnd]
    rw [List.map_map]
    rfl
  have htake : (asBytes source).take (min (asBytes source).length 4) = (asBytes source).take 4 := by
    rw [Nat.min_comm, ← List.take_eq_take_min]
  have hspaces : 4 - min source.utf8ByteSize 4 = 4 - source.utf8ByteSize := by omega
  show (((List.replicate 4 (0x20 : UInt8)).take _).zip _).map (fun x => toAsciiUppercase x.2) ++ _ =
    _
  rw [hzip _ _ (by simp), htake, List.drop_replicate, length_asBytes, hspaces,
    List.map_append, List.map_replicate]
  rfl

theorem length_short (source : String) : (short source).length = 4 := by
  rw [short_eq, List.length_map, List.length_append, List.length_take, List.length_replicate,
    length_asBytes]
  omega

theorem isUtf8_spaces (n : Nat) : IsUtf8 (List.replicate n 0x20) := by
  induction n with
  | zero => exact isUtf8_asBytes ""
  | succ n ih =>
    rw [List.replicate_succ]
    exact (isUtf8_singleton (by decide)).append ih

/-- The tag does not cut a character of the source's name. -/
def CutsWhole (source : String) : Prop :=
  source.utf8ByteSize ≤ 4 ∨ ∃ pre post : String, source = pre ++ post ∧ pre.utf8ByteSize = 4

theorem isUtf8_short (source : String) : IsUtf8 (short source) ↔ CutsWhole source := by
  unfold CutsWhole
  rw [short_eq, isUtf8_map alikeAscii_toAsciiUppercase]
  by_cases hsize : source.utf8ByteSize ≤ 4
  · have hall : (asBytes source).take 4 = asBytes source :=
      List.take_of_length_le (by rwa [length_asBytes])
    rw [hall]
    simp only [hsize, true_or, iff_true]
    exact (isUtf8_asBytes source).append (isUtf8_spaces _)
  · have hnone : 4 - source.utf8ByteSize = 0 := by omega
    rw [hnone, List.replicate_zero, List.append_nil, isUtf8_take (by omega)]
    simp only [hsize, false_or]

/-- **When the tag is text.** For every source name, the buffer has four bytes, and they are UTF-8
exactly if the name has at most four bytes or one of its characters ends after the fourth. -/
theorem short_isUtf8_iff (source : String) :
    (short source).length = 4 ∧ (IsUtf8 (short source) ↔ CutsWhole source) :=
  ⟨length_short source, isUtf8_short source⟩

/-- The name `abcé` has five bytes, and the cut takes the first byte of the `é`. -/
theorem not_isUtf8_short : short "abcé" = [0x41, 0x42, 0x43, 0xc3] ∧ ¬ IsUtf8 (short "abcé") := by
  decide +kernel

/-! ## Whole runs -/

/-- A call of the logger, with the outcome of its `try_lock`. -/
inductive LogCall where
  | print (tryLock : Bool) (args : String)
  | log (tryLock : Bool) (level : LogLevel) (source args : String)

/-- The call does not cut a character. -/
def LogCall.Whole : LogCall → Prop
  | .print _ _ => True
  | .log _ _ source _ => CutsWhole source

namespace Logger

def call (l : Logger) : LogCall → Logger
  | .print tryLock args => l.print tryLock args
  | .log tryLock level source args => l.log tryLock level source args

variable {l : Logger}

theorem isUtf8_line (level : LogLevel) {source : String} (args : String) (h : CutsWhole source) :
    IsUtf8 (line level source args) := by
  unfold line
  refine IsUtf8.append (.append (.append (.append (.append ?_ ?_) ?_) ?_) ?_) ?_
  case refine_3 => exact (isUtf8_short source).mpr h
  all_goals apply isUtf8_asBytes

theorem call_isUtf8 {c : LogCall} (h : IsUtf8 l.sent) (hc : c.Whole) : IsUtf8 (l.call c).sent := by
  cases c with
  | print tryLock args =>
    cases tryLock with
    | false => exact h
    | true => exact h.append (isUtf8_asBytes args)
  | log tryLock level source args =>
    cases tryLock with
    | false => exact h
    | true => exact h.append (isUtf8_line level args hc)

/-- The text handed to the port is UTF-8 as long as no call cuts a character. -/
theorem run_isUtf8 (calls : List LogCall) (h : IsUtf8 l.sent) (hcalls : ∀ c ∈ calls, c.Whole) :
    IsUtf8 (calls.foldl call l).sent := by
  induction calls generalizing l with
  | nil => exact h
  | cons c calls ih =>
    exact ih (call_isUtf8 h (hcalls c (.head _))) fun d hd => hcalls d (.tail _ hd)

end Logger

end Apogee
