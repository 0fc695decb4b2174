import Apogee.Lib.Sys
import Apogee.Kernel.Logger

/-!
# Log lines on the serial port

`_log` holds `SERIAL1` while it formats, and the port is handed the line byte by byte. Interrupts
stay on meanwhile, and a handler logs too. `SerialLog` runs the calls of threads and handlers in any
order with the bytes of the line that is under way: a call that finds the port locked is counted and
does nothing else.

* `refines`: the port and the counter are as if each call had been made at once (`Logger.call`, with
  the outcome of its `try_lock`), up to the bytes that are still to be sent. So lines are whole and
  in the order in which their calls took the lock.
* `readLog` is a reader of the line behind the port, whatever the port makes of a backspace or a
  delete: it splits what arrives at line ends and takes the lines apart. It gets back the level, the
  tag and the message of every call that was not dropped (`lines_read_back`), provided that no name
  or message has a line end or one of these two bytes in it.
-/

namespace Apogee

open Verif

/-- A call of the logger, before its `try_lock`. -/
inductive LogRequest where
  | print (args : String)
  | log (level : LogLevel) (source args : String)

namespace LogRequest

/-- What the call writes if it gets the lock. -/
def bytes : LogRequest → List UInt8
  | print args => asBytes args
  | log level source args => Logger.line level source args

/-- The call with the outcome of its `try_lock`. -/
def call (tryLock : Bool) : LogRequest → LogCall
  | print args => .print tryLock args
  | log level source args => .log tryLock level source args

end LogRequest

/-- What the port was handed and the counter, the bytes that the holder of `SERIAL1` has still to
send, and (a ghost) the calls so far with their outcomes. -/
structure SerialLog where
  logger : Logger
  holder : Option (List UInt8)
  calls : List LogCall

inductive SerialEvent where
  | call (r : LogRequest)
  | send
  | unlock

namespace SerialLog

/-- One step: a call's `try_lock`, one byte of the holder's line, or the end of the holder's
call. -/
inductive Step : SerialLog → SerialEvent → SerialLog → Prop
  | take {s : SerialLog} {r : LogRequest} : s.holder = none →
      Step s (.call r) { s with holder := some r.bytes, calls := s.calls ++ [r.call true] }
  | drop {s : SerialLog} {r : LogRequest} {rest : List UInt8} : s.holder = some rest →
      Step s (.call r) { s with
        logger := { s.logger with dropped := s.logger.dropped + 1 }
        calls := s.calls ++ [r.call false] }
  | send {s : SerialLog} {b : UInt8} {rest : List UInt8} : s.holder = some (b :: rest) →
      Step s .send { s with logger := s.logger.writeStr [b], holder := some rest }
  | unlock {s : SerialLog} : s.holder = some [] → Step s .unlock { s with holder := none }

/-- The port at boot. -/
def start : SerialLog := ⟨⟨0, []⟩, none, []⟩

def system : Sys SerialLog SerialEvent where
  init s := s = start
  step := Step

/-- The logger with the line under way written out. -/
def flushed (s : SerialLog) : Logger := s.logger.writeStr (s.holder.getD [])

theorem call_true (l : Logger) (r : LogRequest) : l.call (r.call true) = l.writeStr r.bytes := by
  cases r <;> rfl

theorem call_false (l : Logger) (r : LogRequest) :
    l.call (r.call false) = { l with dropped := l.dropped + 1 } := by
  cases r <;> rfl

/-- The bytewise runs refine the runs of whole calls. -/
theorem refines {s : SerialLog} (h : system.Reach s) :
    s.calls.foldl Logger.call start.logger = s.flushed := by
  refine Sys.Preserved.reach
    (I := fun s => s.calls.foldl Logger.call start.logger = s.flushed) ⟨?_, ?_⟩ h
  · rintro s rfl
    rfl
  · intro s e s' _ hinv hst
    cases hst with
    | take hfree =>
      show (s.calls ++ [_]).foldl Logger.call start.logger = _
      rw [List.foldl_append, hinv, List.foldl_cons, List.foldl_nil, call_true]
      simp only [flushed, hfree, Logger.writeStr, Option.getD_none, Option.getD_some,
        List.append_nil]
    | drop hbusy =>
      show (s.calls ++ [_]).foldl Logger.call start.logger = _
      rw [List.foldl_append, hinv, List.foldl_cons, List.foldl_nil, call_false]
      simp only [flushed, hbusy, Logger.writeStr]
    | send hs =>
      rw [hinv]
      simp only [flushed, hs, Logger.writeStr, Option.getD_some, List.append_assoc,
        List.singleton_append]
    | unlock hs =>
      rw [hinv]
      simp only [flushed, hs, Option.getD_some, Option.getD_none]

end SerialLog

/-! ## Reading the port -/

structure LogEntry where
  level : LogLevel
  tag : List UInt8
  message : List UInt8
  deriving DecidableEq

/-- A line of the port, taken apart. -/
def readLine (line : List UInt8) : Option LogEntry := do
  let level ← [LogLevel.trace, .debug, .info, .warn, .error].find? fun level =>
    asBytes level.tag == line.take 3
  some ⟨level, (line.drop 4).take 4, (line.drop 10).dropLast⟩

/-- The entries of the lines that have ended. -/
def readLog (text : List UInt8) : List (Option LogEntry) :=
  (text.splitOn 0x0a).dropLast.map readLine

/-- Not a line end, a backspace or a delete. -/
def Plain (b : UInt8) : Prop := b ≠ 0x0a ∧ b ≠ 0x08 ∧ b ≠ 0x7f

instance (b : UInt8) : Decidable (Plain b) := inferInstanceAs (Decidable (_ ∧ _ ∧ _))

namespace LogCall

/-- The call writes one line, with no byte in it that ends a line or that the port may rewrite. -/
def OneLine : LogCall → Prop
  | print _ _ => False
  | log _ _ source args => (∀ b ∈ asBytes source, Plain b) ∧ ∀ b ∈ asBytes args, Plain b

instance : DecidablePred OneLine
  | print _ _ => isFalse id
  | log _ _ _ _ => inferInstanceAs (Decidable (_ ∧ _))

/-- The entry of a call that is not dropped. -/
def entry : LogCall → Option LogEntry
  | log true level source args => some ⟨level, short source, asBytes args⟩
  | _ => none

/-- The line of a call that is not dropped, without its end. -/
def body : LogCall → Option (List UInt8)
  | log true level source args =>
    some (asBytes level.tag ++ asBytes ";" ++ short source ++ asBytes " [" ++ asBytes args ++
      asBytes "]")
  | _ => none

end LogCall

theorem asBytes_tag (level : LogLevel) : (asBytes level.tag).length = 3 ∧
    (∀ b ∈ asBytes level.tag, Plain b) ∧
    [LogLevel.trace, .debug, .info, .warn, .error].find?
      (fun level' => asBytes level'.tag == asBytes level.tag) = some level := by
  cases level <;> decide +kernel

theorem readLine_body {c : LogCall} {b : List UInt8} (h : c.body = some b) :
    readLine b = c.entry ∧ c.entry ≠ none := by
  cases c with
  | print => cases h
  | log tryLock level source args =>
    cases tryLock with
    | false => cases h
    | true =>
      obtain rfl := Option.some.inj h
      refine ⟨?_, nofun⟩
      obtain ⟨hlen, -, hfind⟩ := asBytes_tag level
      obtain ⟨t₀, t₁, t₂, ht⟩ := List.length_eq_three.mp hlen
      obtain ⟨c₀, c₁, c₂, c₃, hshort⟩ : ∃ c₀ c₁ c₂ c₃, short source = [c₀, c₁, c₂, c₃] := by
        have hfour := length_short source
        match short source, hfour with
        | [c₀, c₁, c₂, c₃], _ => exact ⟨c₀, c₁, c₂, c₃, rfl⟩
      have hsep : asBytes ";" = [0x3b] ∧ asBytes " [" = [0x20, 0x5b] ∧ asBytes "]" = [0x5d] := by
        decide +kernel
      rw [ht] at hfind
      simp only [readLine, ht, hshort, hsep.1, hsep.2.1, hsep.2.2, List.cons_append,
        List.nil_append, List.take_succ_cons, List.take_zero, List.drop_succ_cons, List.drop_zero,
        hfind, List.dropLast_concat, LogCall.entry]
      rfl

theorem plain_toAsciiUppercase {b : UInt8} (h : Plain b) : Plain (toAsciiUppercase b) := by
  unfold toAsciiUppercase
  split
  · next hlower =>
    -- An upper-case letter is none of the three.
    have hne : ∀ c : UInt8, ¬ (0x61 ≤ c + 0x20 ∧ c + 0x20 ≤ 0x7a) → b - 0x20 ≠ c := by
      intro c hc heq
      have hb : b = c + 0x20 := by rw [← heq, UInt8.sub_add_cancel]
      exact hc (hb ▸ hlower)
    exact ⟨hne _ (by decide), hne _ (by decide), hne _ (by decide)⟩
  · exact h

theorem plain_short {source : String} (h : ∀ b ∈ asBytes source, Plain b) :
    ∀ b ∈ short source, Plain b := by
  rw [short_eq]
  intro b hmem
  obtain ⟨b, hb, rfl⟩ := List.mem_map.mp hmem
  apply plain_toAsciiUppercase
  obtain hb | hb := List.mem_append.mp hb
  · exact h b (List.mem_of_mem_take hb)
  · rw [List.eq_of_mem_replicate hb]
    decide

theorem plain_body {c : LogCall} (hc : c.OneLine) {body : List UInt8} (h : c.body = some body) :
    ∀ b ∈ body, Plain b := by
  cases c with
  | print => cases h
  | log tryLock level source args =>
    cases tryLock with
    | false => cases h
    | true =>
      obtain rfl := Option.some.inj h
      have hsep : (∀ b ∈ asBytes ";", Plain b) ∧ (∀ b ∈ asBytes " [", Plain b) ∧
          ∀ b ∈ asBytes "]", Plain b := by
        decide +kernel
      simp only [List.forall_mem_append]
      exact ⟨⟨⟨⟨⟨(asBytes_tag level).2.1, hsep.1⟩, plain_short hc.1⟩, hsep.2.1⟩, hc.2⟩, hsep.2.2⟩

/-- A text of ended lines, split at the ends. -/
theorem splitOn_lines {x : UInt8} {bodies : List (List UInt8)} (h : ∀ b ∈ bodies, x ∉ b) :
    (bodies.flatMap (· ++ [x])).splitOn x = bodies ++ [[]] := by
  induction bodies with
  | nil => rfl
  | cons b bodies ih =>
    have hb : ∀ y ∈ b, (y == x) = false := fun y hy =>
      beq_false_of_ne fun e => h b (.head _) (e ▸ hy)
    rw [List.flatMap_cons, List.append_assoc, List.singleton_append, List.cons_append,
      ← ih fun b' hb' => h b' (.tail _ hb')]
    exact List.splitOnP_append_cons_of_forall_mem hb x (beq_self_eq_true x) _

/-- What the port was handed after whole calls that write one line each. -/
theorem foldl_call_sent (calls : List LogCall) (l : Logger) (h : ∀ c ∈ calls, c.OneLine) :
    (calls.foldl Logger.call l).sent =
      l.sent ++ (calls.filterMap LogCall.body).flatMap (· ++ [0x0a]) := by
  induction calls generalizing l with
  | nil => simp
  | cons c calls ih =>
    rw [List.foldl_cons, ih _ fun d hd => h d (.tail _ hd)]
    cases c with
    | print => exact (h _ (.head _)).elim
    | log tryLock level source args =>
      cases tryLock with
      | false => rfl
      | true =>
        have hend : asBytes "]\n" = asBytes "]" ++ [0x0a] := by decide +kernel
        have hbody : LogCall.body (.log true level source args) = some (asBytes level.tag ++
            asBytes ";" ++ short source ++ asBytes " [" ++ asBytes args ++ asBytes "]") := rfl
        rw [List.filterMap_cons_some hbody, List.flatMap_cons]
        simp only [Logger.call, Logger.log, if_true, Logger.writeStr, Logger.line, hend,
          List.append_assoc]

/-- What the reader makes of the lines of calls. -/
theorem map_readLine (calls : List LogCall) :
    (calls.filterMap LogCall.body).map readLine =
      (calls.map LogCall.entry).filter Option.isSome := by
  induction calls with
  | nil => rfl
  | cons c calls ih =>
    cases hbody : c.body with
    | some b =>
      obtain ⟨hread, hentry⟩ := readLine_body hbody
      rw [List.filterMap_cons_some hbody, List.map_cons, List.map_cons,
        List.filter_cons_of_pos (Option.isSome_iff_ne_none.mpr hentry), hread, ih]
    | none =>
      have hentry : c.entry = none := by
        cases c with
        | print => rfl
        | log tryLock level source args =>
          cases tryLock with
          | false => rfl
          | true => cases hbody
      rw [List.filterMap_cons_none hbody, List.map_cons,
        List.filter_cons_of_neg (by simp [hentry]), ih]

/-- **Log lines arrive whole.** In every interleaving of logger calls with the bytes handed to the
port: these bytes and the counter of dropped messages are those of whole calls, up to the line under
way. And when no line is under way and no name or message has a line end, a backspace or a delete, a
reader of the line behind the port gets back the level, the tag and the message of each call that
was not dropped, in order. -/
theorem SerialLog.lines_read_back (port : SerialPort) {s : SerialLog}
    (h : SerialLog.system.Reach s) :
    s.calls.foldl Logger.call ⟨0, []⟩ = s.flushed ∧
    (s.holder = none → (∀ c ∈ s.calls, c.OneLine) →
      readLog (port.wire s.logger.sent) = (s.calls.map LogCall.entry).filter Option.isSome) := by
  refine ⟨SerialLog.refines h, fun hfree hlines => ?_⟩
  have hsent : s.logger.sent = (s.calls.filterMap LogCall.body).flatMap (· ++ [0x0a]) := by
    have hrefines := congrArg Logger.sent (SerialLog.refines h)
    rw [foldl_call_sent _ _ hlines] at hrefines
    simpa [SerialLog.flushed, SerialLog.start, Logger.writeStr, hfree] using hrefines.symm
  have hplain : ∀ body ∈ s.calls.filterMap LogCall.body, ∀ b ∈ body, Plain b := by
    intro body hbody
    obtain ⟨c, hc, hbody⟩ := List.mem_filterMap.mp hbody
    exact plain_body (hlines c hc) hbody
  have hwire : port.wire s.logger.sent = s.logger.sent := by
    apply port.wire_of_plain
    rw [hsent]
    intro b hb
    obtain ⟨body, hbody, hb⟩ := List.mem_flatMap.mp hb
    obtain hb | hb := List.mem_append.mp hb
    · exact (hplain body hbody b hb).2
    · rw [List.mem_singleton.mp hb]
      decide
  rw [hwire, readLog, hsent, splitOn_lines fun body hbody hmem => (hplain body hbody _ hmem).1 rfl,
    List.dropLast_concat, map_readLine]

/-- The holder's line can be sent to its end. -/
theorem SerialLog.reach_send {s : SerialLog} {rest : List UInt8} (h : SerialLog.system.Reach s)
    (hs : s.holder = some rest) : SerialLog.system.Reach
      { s with logger := s.logger.writeStr rest, holder := some [] } := by
  induction rest generalizing s with
  | nil =>
    have heq : { s with logger := s.logger.writeStr [], holder := some [] } = s := by
      rw [← hs, Logger.writeStr, List.append_nil]
    rwa [heq]
  | cons b rest ih =>
    have hnext := ih (h.step (SerialLog.Step.send hs)) rfl
    simpa only [Logger.writeStr, List.append_assoc, List.singleton_append] using hnext

/-- `uart_16550`: a backspace or a delete wipes out what was shown before it. -/
def uart : SerialPort where
  send b := if b = 0x08 ∨ b = 0x7f then [0x08, 0x20, 0x08] else [b]
  send_plain _ hback hdelete := if_neg (not_or.mpr ⟨hback, hdelete⟩)

/-- A handler's warning comes while a line is under way, and is dropped. The line is read back. -/
theorem SerialLog.lines_read_back_dropped :
    ∃ s, SerialLog.system.Reach s ∧ s.logger.dropped = 1 ∧
      readLog (uart.wire s.logger.sent) = [some ⟨.info, asBytes "BOOT", asBytes "ready"⟩] := by
  have h₀ : SerialLog.system.Reach SerialLog.start := .init rfl
  have h₁ := h₀.step (SerialLog.Step.take (r := .log .info "bootloader" "ready") rfl)
  have h₂ := h₁.step (SerialLog.Step.drop (r := .log .warn "kbd" "full") rfl)
  have h₃ := SerialLog.reach_send h₂ rfl
  have h₄ := h₃.step (SerialLog.Step.unlock rfl)
  refine ⟨_, h₄, rfl, ((SerialLog.lines_read_back uart h₄).2 rfl ?_).trans ?_⟩
  · decide +kernel
  · decide +kernel

end Apogee
