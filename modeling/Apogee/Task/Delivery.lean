import Apogee.Task.KeyboardSpec

/-!
# Input is delivered in order, once

Beside the keyboard's state, a run records what went through it: the scancodes that `SCANCODE_QUEUE`
took, those fed to the decoder, the characters that came out and the bytes that were read. The
record follows from the run (`record`); no step looks at it.

* `Decoder.run`: the decoder over a sequence of scancodes.
* `Inv`: three equations. What was taken is what was fed, then what is in the task's hands, then
  what is queued. What was decoded is the decoder's run over what was fed. What was read, then what
  is in `KEY_QUEUE`, is what was decoded without the characters that found `KEY_QUEUE` full.
* `input_delivered`: these hold in every run.
-/

namespace Apogee

open Verif

variable {F δ : Type}

/-- The character of a key. -/
def DecodedKey.char? : DecodedKey → Option Char
  | .unicode character => some character
  | .rawKey => none

/-- The byte that `KEY_QUEUE` gets for a character. -/
def asciiByte (character : Char) : Option UInt8 :=
  if character.val ≤ 0x7f then some character.val.toUInt8 else none

/-- The byte that `KEY_QUEUE` gets for a key. -/
def asciiOf (key : Option DecodedKey) : Option UInt8 :=
  (key.bind DecodedKey.char?).bind asciiByte

/-- What `print_keypresses` adds to `KEY_QUEUE`. -/
theorem pushKey_elems (key : Option DecodedKey) (queue : BQueue UInt8 keyQueueCapacity) :
    (pushKey key queue).elems =
      queue.elems ++
        if queue.elems.length = keyQueueCapacity then [] else (asciiOf key).toList := by
  unfold pushKey
  split
  · next character =>
    show _ = _ ++ if _ then [] else (asciiByte character).toList
    unfold asciiByte
    split
    · exact BQueue.getD_push_elems _ _
    · simp
  · simp [asciiOf, DecodedKey.char?]
  · simp [asciiOf]

/-- The decoder's state after the scancodes, and the bytes that came out. -/
def Decoder.run (d : Decoder δ) (s : δ) (scancodes : List UInt8) : δ × List UInt8 :=
  scancodes.foldl (fun r scancode =>
    ((d.feed r.1 scancode).1, r.2 ++ (asciiOf (d.feed r.1 scancode).2).toList)) (s, [])

theorem Decoder.run_append (d : Decoder δ) (s : δ) (scancodes : List UInt8) (scancode : UInt8) :
    d.run s (scancodes ++ [scancode]) =
      ((d.feed (d.run s scancodes).1 scancode).1, (d.run s scancodes).2 ++
        (asciiOf (d.feed (d.run s scancodes).1 scancode).2).toList) := by
  unfold run
  rw [List.foldl_append]
  rfl

/-- The scancode that the task has taken and not yet fed to the decoder. -/
def StreamPos.inHand : StreamPos → List UInt8
  | .take scancode | .received scancode => [scancode]
  | .waiting | .first | .register | .second | .pending => []

/-- A character that the decoder gave. -/
structure Decoded where
  byte : UInt8
  /-- `KEY_QUEUE` was full. -/
  full : Bool
  deriving DecidableEq

/-- What has gone through the keyboard, oldest first. -/
structure KeyboardLog where
  /-- The scancodes whose push succeeded. -/
  accepted : List UInt8
  /-- The scancodes that the decoder got. -/
  fed : List UInt8
  /-- The characters up to 0x7f that it gave. -/
  decoded : List Decoded
  /-- The bytes that `read_byte` returned. -/
  read : List UInt8

/-- A keyboard with its past. `start` is the decoder as it was made. -/
structure Logged (F δ : Type) where
  keyboard : KeyboardState F δ
  start : δ
  log : KeyboardLog

namespace Logged

/-- The record after a step from `st`. -/
def record (d : Decoder δ) (st : KeyboardState F δ) (log : KeyboardLog) :
    KeyboardEvent → KeyboardLog
  | .addScancode scancode =>
    if (st.scancodeQueue.push scancode).isSome then
      { log with accepted := log.accepted ++ [scancode] }
    else log
  | .decode =>
    match st.pos with
    | .received scancode =>
      { log with
        fed := log.fed ++ [scancode]
        decoded := log.decoded ++ (asciiOf (d.feed st.decoder scancode).2).toList.map fun byte =>
          ⟨byte, st.keyQueue.elems.length = keyQueueCapacity⟩ }
    | _ => log
  | .readByte =>
    match st.keyQueue.pop with
    | some (byte, _) => { log with read := log.read ++ [byte] }
    | none => log
  | _ => log

inductive Step (p : Profile) (d : Decoder δ) (kbd : TaskId) :
    Logged F δ → KeyboardEvent → Logged F δ → Prop
  | mk {s : Logged F δ} {e : KeyboardEvent} {st : KeyboardState F δ} :
      KeyboardState.Step p d kbd s.keyboard e st →
      Step p d kbd s e ⟨st, s.start, record d s.keyboard s.log e⟩

/-- The runs from `ScancodeStream::new`. -/
def system (p : Profile) (d : Decoder δ) (F : Type) (kbd : TaskId) :
    Sys (Logged F δ) KeyboardEvent where
  init s := (KeyboardState.system p d F kbd).init s.keyboard ∧ s.start = s.keyboard.decoder ∧
    s.log = ⟨[], [], [], []⟩
  step := Step p d kbd

/-- What every step keeps. -/
structure Inv (d : Decoder δ) (s : Logged F δ) : Prop where
  accepted : s.log.accepted = s.log.fed ++ s.keyboard.pos.inHand ++ s.keyboard.scancodeQueue.elems
  decoded : d.run s.start s.log.fed = (s.keyboard.decoder, s.log.decoded.map (·.byte))
  kept : s.log.read ++ s.keyboard.keyQueue.elems =
    (s.log.decoded.filter (!·.full)).map (·.byte)

variable {p : Profile} {d : Decoder δ} {kbd : TaskId} {s s' : Logged F δ} {e : KeyboardEvent}

theorem reach_keyboard (h : (system p d F kbd).Reach s) :
    (KeyboardState.system p d F kbd).Reach s.keyboard := by
  refine h.map Logged.keyboard ?_ ?_
  · rintro s ⟨hinit, -⟩
    exact hinit
  · rintro s e s' - ⟨hst⟩
    exact .inr ⟨e, hst⟩

theorem Inv.step (h : Inv d s) (hk : s.keyboard.Inv p kbd) (hst : Step p d kbd s e s') :
    Inv d s' := by
  obtain ⟨hacc, hdec, hkept⟩ := h
  obtain ⟨⟨x, queue, waker, keys, dec, pos⟩, start, log⟩ := s
  obtain ⟨hst⟩ := hst
  cases hst with
  | exec => exact ⟨hacc, hdec, hkept⟩
  | poll hpos =>
    -- The task was not being polled, so it had no scancode in hand.
    obtain rfl : pos = .waiting := not_not.mp fun hne => by
      rw [hk.polled.mpr hne] at hpos
      cases hpos
    exact ⟨hacc, hdec, hkept⟩
  | popFirst hpos hpop | popSecond hpos hpop =>
    cases hpos
    refine ⟨?_, hdec, hkept⟩
    rw [BQueue.pop_elems hpop, List.append_assoc] at hacc
    rw [List.append_assoc]
    exact hacc
  | emptyFirst hpos | register hpos | emptySecond hpos | take hpos | pending hpos =>
    cases hpos
    exact ⟨hacc, hdec, hkept⟩
  | @decode scancode hpos =>
    cases hpos
    refine ⟨?_, ?_, ?_⟩
    · exact hacc.trans (by simp [record, StreamPos.inHand])
    · show d.run start (log.fed ++ [scancode]) = _
      rw [Decoder.run_append, hdec]
      simp [record, Function.comp_def]
    · show log.read ++ (pushKey _ keys).elems = _
      rw [pushKey_elems, ← List.append_assoc, hkept]
      by_cases hfull : keys.elems.length = keyQueueCapacity
      · simp [record, hfull, List.filter_map, Function.comp_def]
      · simp [record, hfull, List.filter_map, Function.comp_def]
  | @addScancode scancode =>
    cases hpush : queue.push scancode with
    | none =>
      simp only [record, hpush, addScancode]
      exact ⟨hacc, hdec, hkept⟩
    | some q =>
      simp only [record, hpush, addScancode, Option.isSome_some, if_true]
      refine ⟨?_, hdec, hkept⟩
      rw [BQueue.push_elems hpush, ← List.append_assoc]
      exact congrArg (· ++ [scancode]) hacc
  | readByte hpop =>
    simp only [record, show keys.pop = _ from hpop]
    refine ⟨hacc, hdec, ?_⟩
    rw [BQueue.pop_elems hpop] at hkept
    rw [← hkept, List.append_assoc]
    rfl

theorem inv_reach (h : (system p d F kbd).Reach s) : Inv d s := by
  refine Sys.Preserved.reach (I := Inv d) ⟨?_, ?_⟩ h
  · rintro s ⟨⟨-, -, hqueue, -, hkey, hpos⟩, hstart, hlog⟩
    refine ⟨?_, ?_, ?_⟩
    · simp [hlog, hpos, hqueue, StreamPos.inHand, BQueue.empty]
    · simp [hlog, hstart, Decoder.run]
    · simp [hlog, hkey, BQueue.empty]
  · intro s e s' hr hi hst
    exact hi.step (KeyboardState.inv_reach (reach_keyboard hr)) hst

/-- Scancodes reach the decoder in the order in which they were taken, each once, up to what is in
the task's hands or queued, and nothing is in its hands between two polls. The bytes that were read
and those in `KEY_QUEUE` are the decoder's characters in order, each once, without those that found
`KEY_QUEUE` full. -/
theorem input_delivered (p : Profile) (d : Decoder δ) (F : Type) (kbd : TaskId) (s : Logged F δ)
    (h : (system p d F kbd).Reach s) :
    s.log.accepted = s.log.fed ++ s.keyboard.pos.inHand ++ s.keyboard.scancodeQueue.elems ∧
    (s.keyboard.pos = .waiting →
      s.log.accepted = s.log.fed ++ s.keyboard.scancodeQueue.elems) ∧
    s.log.decoded.map (·.byte) = (d.run s.start s.log.fed).2 ∧
    s.log.read ++ s.keyboard.keyQueue.elems =
      (s.log.decoded.filter (!·.full)).map (·.byte) := by
  obtain ⟨hacc, hdec, hkept⟩ := inv_reach h
  refine ⟨hacc, ?_, ?_, hkept⟩
  · intro hwait
    rw [hacc, hwait]
    simp [StreamPos.inHand]
  · rw [hdec]

/-- Two scancodes arrive, the second after the first has been decoded. The first one's character is
read while the second is queued. -/
theorem input_delivered_two : ∃ s : Logged Unit Unit,
    (system .dev ⟨fun _ c => ((), some (.unicode (Char.ofNat c.toNat)))⟩ Unit ⟨0⟩).Reach s ∧
    s.log.accepted = [0x61, 0x62] ∧ s.log.fed = [0x61] ∧ s.log.read = [0x61] ∧
    s.log.accepted = s.log.fed ++ s.keyboard.pos.inHand ++ s.keyboard.scancodeQueue.elems := by
  have h0 : (ExecutorState.system .dev Unit).Reach ⟨.new, .new, .outside, fun _ => false, 0,
      fun _ => 0, fun _ => false⟩ := .init ⟨_, _, rfl⟩
  have h1 := h0.step (@ExecutorState.Step.spawn _ _ _ ⟨⟨0⟩, ()⟩ _ _ rfl rfl)
  have h2 := h1.step (.runReadyTasks rfl)
  have h3 := h2.step (.pop rfl rfl)
  have h4 := h3.step (.cacheWaker rfl rfl)
  have h5 := h4.step (.poll rfl)
  have k0 : (system .dev ⟨fun _ c => ((), some (.unicode (Char.ofNat c.toNat)))⟩ Unit ⟨0⟩).Reach
      ⟨⟨_, .empty, none, .empty, (), .first⟩, (), ⟨[], [], [], []⟩⟩ :=
    .init ⟨⟨h5, rfl, rfl, rfl, rfl, rfl⟩, rfl, rfl⟩
  have k1 := k0.step ⟨@KeyboardState.Step.addScancode _ _ _ _ _ _ 0x61 _ (by decide) rfl⟩
  have k2 := k1.step ⟨.popFirst rfl rfl⟩
  have k3 := k2.step ⟨.decode rfl⟩
  have k4 := k3.step ⟨@KeyboardState.Step.addScancode _ _ _ _ _ _ 0x62 _ (by decide) rfl⟩
  have k5 := k4.step ⟨.readByte rfl⟩
  exact ⟨_, k5, rfl, rfl, rfl, (input_delivered _ _ _ _ _ k5).1⟩

end Logged

end Apogee
