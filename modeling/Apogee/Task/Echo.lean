import Apogee.Kernel.Screen
import Apogee.Task.Delivery

/-!
# The echo of the keyboard

`print_keypresses` puts a character into `KEY_QUEUE` if it is ASCII and fits, and then prints it,
whether it was queued or not. `Echoed` is a keyboard with its past (`Logged`) and the console, which
others write to as well, at any time. The writes to the console are recorded in order.

* `Inv.shown`: the console is the first one after all writes.
* `Inv.typed`: without the writes of others, they are the decoder's characters for the scancodes it
  got, in order, each once.
* `typed_is_shown`: so what a process reads is part of what the keyboard has shown, in the same
  order; it is all of the ASCII part unless `KEY_QUEUE` was full for a character.
-/

namespace Apogee

open Verif

variable {F δ : Type}

/-- What `print_keypresses` prints for a key. -/
def printKey (key : Option DecodedKey) (w : Writer) : Panics Writer :=
  match key with
  | some (.unicode character) => w.writeString (String.utf8EncodeChar character)
  | some .rawKey | none => pure w

/-- The decoder's state after the scancodes, and the characters that came out. -/
def Decoder.chars (d : Decoder δ) (s : δ) (scancodes : List UInt8) : δ × List Char :=
  scancodes.foldl (fun r scancode => ((d.feed r.1 scancode).1,
    r.2 ++ ((d.feed r.1 scancode).2.bind DecodedKey.char?).toList)) (s, [])

theorem Decoder.chars_append (d : Decoder δ) (s : δ) (scancodes : List UInt8) (scancode : UInt8) :
    d.chars s (scancodes ++ [scancode]) =
      ((d.feed (d.chars s scancodes).1 scancode).1, (d.chars s scancodes).2 ++
        ((d.feed (d.chars s scancodes).1 scancode).2.bind DecodedKey.char?).toList) := by
  unfold chars
  rw [List.foldl_append]
  rfl

/-- The bytes of the decoder are those of its ASCII characters. -/
theorem Decoder.run_eq_chars (d : Decoder δ) (s : δ) (scancodes : List UInt8) :
    d.run s scancodes =
      ((d.chars s scancodes).1, (d.chars s scancodes).2.filterMap asciiByte) := by
  induction scancodes using List.reverseRecOn with
  | nil => rfl
  | append_singleton scancodes scancode ih =>
    rw [Decoder.run_append, Decoder.chars_append, ih, List.filterMap_append]
    unfold asciiOf
    cases (d.feed (d.chars s scancodes).1 scancode).2.bind DecodedKey.char? with
    | none => rfl
    | some character => cases h : asciiByte character <;> simp [h]

/-- A write to the console. -/
inductive ConsoleWrite where
  | key (character : Char)
  | other (call : WriterCall)

namespace ConsoleWrite

def call : ConsoleWrite → WriterCall
  | key character => .writeString (String.utf8EncodeChar character)
  | other call => call

def char? : ConsoleWrite → Option Char
  | key character => some character
  | other _ => none

end ConsoleWrite

/-- A keyboard with its past, the console, and what has been written to it since `first`. -/
structure Echoed (F δ : Type) where
  logged : Logged F δ
  console : Writer
  first : Writer
  writes : List ConsoleWrite

inductive EchoEvent where
  | keyboard (e : KeyboardEvent)
  | write (call : WriterCall)

namespace Echoed

/-- The steps of the keyboard, where a decoded key is printed, and writes of others.

`decode` pushes and prints in one step. The source does one after the other, with no `yield_now` and
no `await` in between, and threads switch only where they yield: only interrupt handlers run there,
and none of them calls `read_byte`. A handler's write to the console there is one before the
step. -/
inductive Step (p : Profile) (d : Decoder δ) (kbd : TaskId) :
    Echoed F δ → EchoEvent → Echoed F δ → Prop
  | keyboard {s : Echoed F δ} {e : KeyboardEvent} {l : Logged F δ} : e ≠ .decode →
      Logged.Step p d kbd s.logged e l → Step p d kbd s (.keyboard e) { s with logged := l }
  | decode {s : Echoed F δ} {scancode : UInt8} {key : Option DecodedKey} {l : Logged F δ}
      {console : Writer} : s.logged.keyboard.pos = .received scancode →
      (d.feed s.logged.keyboard.decoder scancode).2 = key →
      Logged.Step p d kbd s.logged .decode l → printKey key s.console = .ok console →
      Step p d kbd s (.keyboard .decode) { s with
        logged := l
        console := console
        writes := s.writes ++ ((key.bind DecodedKey.char?).map ConsoleWrite.key).toList }
  | write {s : Echoed F δ} {call : WriterCall} {console : Writer} :
      s.console.call call = .ok console →
      Step p d kbd s (.write call) { s with
        console := console, writes := s.writes ++ [.other call] }

/-- The runs from `ScancodeStream::new`. -/
def system (p : Profile) (d : Decoder δ) (F : Type) (kbd : TaskId) :
    Sys (Echoed F δ) EchoEvent where
  init s := (Logged.system p d F kbd).init s.logged ∧ s.first = s.console ∧ s.writes = []
  step := Step p d kbd

/-- What every step keeps. -/
structure Inv (d : Decoder δ) (s : Echoed F δ) : Prop where
  shown : s.first.runCalls (s.writes.map ConsoleWrite.call) = .ok s.console
  typed : d.chars s.logged.start s.logged.log.fed =
    (s.logged.keyboard.decoder, s.writes.filterMap ConsoleWrite.char?)

variable {p : Profile} {d : Decoder δ} {kbd : TaskId} {s s' : Echoed F δ} {e : EchoEvent}

theorem reach_logged (h : (system p d F kbd).Reach s) :
    (Logged.system p d F kbd).Reach s.logged := by
  refine h.map Echoed.logged ?_ ?_
  · rintro s ⟨hinit, -⟩
    exact hinit
  · rintro s e s' - hst
    cases hst with
    | keyboard _ hst => exact .inr ⟨_, hst⟩
    | decode _ _ hst => exact .inr ⟨_, hst⟩
    | write => exact .inl rfl

theorem runCalls_concat {w w' w'' : Writer} {calls : List WriterCall} {call : WriterCall}
    (h : w.runCalls calls = .ok w') (hcall : w'.call call = .ok w'') :
    w.runCalls (calls ++ [call]) = .ok w'' := by
  unfold Writer.runCalls at *
  rw [List.foldlM_append, h, Panics.bind_ok, List.foldlM_cons, hcall]
  rfl

/-- Only `decode` feeds the decoder. -/
theorem keeps_decoder {l l' : Logged F δ} {e : KeyboardEvent} (he : e ≠ .decode)
    (hst : Logged.Step p d kbd l e l') :
    l'.start = l.start ∧ l'.log.fed = l.log.fed ∧ l'.keyboard.decoder = l.keyboard.decoder := by
  obtain ⟨hst⟩ := hst
  cases hst with
  | decode => exact absurd rfl he
  | addScancode =>
    refine ⟨rfl, ?_, rfl⟩
    simp only [Logged.record]
    split <;> rfl
  | readByte =>
    refine ⟨rfl, ?_, rfl⟩
    simp only [Logged.record]
    split <;> rfl
  | exec | poll | popFirst | emptyFirst | register | popSecond | emptySecond | take | pending =>
    exact ⟨rfl, rfl, rfl⟩

theorem Inv.decode {scancode : UInt8} {key : Option DecodedKey} {l : Logged F δ} {console : Writer}
    (h : Inv d s) (hpos : s.logged.keyboard.pos = .received scancode)
    (hkey : (d.feed s.logged.keyboard.decoder scancode).2 = key)
    (hst : Logged.Step p d kbd s.logged .decode l) (hprint : printKey key s.console = .ok console) :
    Inv d { s with
      logged := l
      console := console
      writes := s.writes ++ ((key.bind DecodedKey.char?).map ConsoleWrite.key).toList } := by
  obtain ⟨hst⟩ := hst
  cases hst with
  | @decode scancode' hpos' =>
    obtain rfl : scancode' = scancode := StreamPos.received.inj (hpos'.symm.trans hpos)
    refine ⟨?_, ?_⟩
    · match key, hprint with
      | some (.unicode character), hprint =>
        show s.first.runCalls ((s.writes ++ [ConsoleWrite.key character]).map ConsoleWrite.call) = _
        rw [List.map_append]
        exact runCalls_concat h.shown hprint
      | some .rawKey, hprint | none, hprint =>
        obtain rfl := Except.ok.inj hprint
        show s.first.runCalls ((s.writes ++ []).map ConsoleWrite.call) = _
        rw [List.append_nil]
        exact h.shown
    · have hfed : (Logged.record d s.logged.keyboard s.logged.log .decode).fed =
          s.logged.log.fed ++ [scancode'] := by
        simp only [Logged.record, hpos]
      show d.chars s.logged.start (Logged.record d s.logged.keyboard s.logged.log .decode).fed = _
      rw [hfed, Decoder.chars_append, h.typed, hkey, List.filterMap_append]
      cases key.bind DecodedKey.char? <;> rfl

theorem Inv.step (h : Inv d s) (hst : Step p d kbd s e s') : Inv d s' := by
  cases hst with
  | keyboard he hst =>
    obtain ⟨hstart, hfed, hdec⟩ := keeps_decoder he hst
    exact ⟨h.shown, by rw [hstart, hfed, hdec]; exact h.typed⟩
  | decode hpos hkey hst hprint => exact h.decode hpos hkey hst hprint
  | @write call console hcall =>
    refine ⟨?_, ?_⟩
    · show s.first.runCalls ((s.writes ++ [ConsoleWrite.other call]).map ConsoleWrite.call) = _
      rw [List.map_append]
      exact runCalls_concat h.shown hcall
    · show _ = (_, (s.writes ++ [ConsoleWrite.other call]).filterMap ConsoleWrite.char?)
      rw [List.filterMap_append, h.typed]
      simp [ConsoleWrite.char?]

theorem inv_reach (h : (system p d F kbd).Reach s) : Inv d s := by
  refine Sys.Preserved.reach (I := Inv d) ⟨?_, fun _ _ _ _ hi hst => hi.step hst⟩ h
  rintro s ⟨⟨-, hstart, hlog⟩, hfirst, hwrites⟩
  refine ⟨?_, ?_⟩
  · rw [hwrites, hfirst]
    rfl
  · rw [hwrites, hlog, hstart]
    rfl

/-- Printing a key does not panic. -/
theorem printKey_ok (key : Option DecodedKey) (w : Writer) : ∃ w', printKey key w = .ok w' := by
  match key with
  | some (.unicode character) => exact Panics.foldlM_ok (fun w _ => w.writeByte_ok _) _ w
  | some .rawKey | none => exact ⟨w, rfl⟩

/-- **The echo.** In every run of the keyboard with other writers to the console: the console is the
first one after all writes in order; those of the keyboard are the decoder's characters for the
scancodes that it got; the bytes that were read, with those in `KEY_QUEUE`, are a subsequence of the
ASCII characters shown, and all of them if `KEY_QUEUE` was never full. And a key that has arrived
can always be decoded and shown. -/
theorem typed_is_shown (p : Profile) (d : Decoder δ) (F : Type) (kbd : TaskId) (s : Echoed F δ)
    (h : (system p d F kbd).Reach s) :
    s.first.runCalls (s.writes.map ConsoleWrite.call) = .ok s.console ∧
    s.writes.filterMap ConsoleWrite.char? = (d.chars s.logged.start s.logged.log.fed).2 ∧
    (s.logged.log.read ++ s.logged.keyboard.keyQueue.elems).Sublist
      ((s.writes.filterMap ConsoleWrite.char?).filterMap asciiByte) ∧
    ((∀ c ∈ s.logged.log.decoded, c.full = false) →
      s.logged.log.read ++ s.logged.keyboard.keyQueue.elems =
        (s.writes.filterMap ConsoleWrite.char?).filterMap asciiByte) ∧
    ∀ scancode, s.logged.keyboard.pos = .received scancode →
      ∃ s', Step p d kbd s (.keyboard .decode) s' := by
  obtain ⟨hshown, htyped⟩ := inv_reach h
  obtain ⟨-, hdec, hkept⟩ := Logged.inv_reach (reach_logged h)
  have hbytes : s.logged.log.decoded.map (·.byte) =
      (s.writes.filterMap ConsoleWrite.char?).filterMap asciiByte := by
    rw [Decoder.run_eq_chars, htyped] at hdec
    exact (congrArg Prod.snd hdec).symm
  refine ⟨hshown, by rw [htyped], ?_, fun hnone => ?_, fun scancode hpos => ?_⟩
  · rw [hkept, ← hbytes]
    exact List.filter_sublist.map _
  · rw [hkept, ← hbytes, List.filter_eq_self.mpr fun c hc => by simp [hnone c hc]]
  · obtain ⟨console, hprint⟩ :=
      printKey_ok (d.feed s.logged.keyboard.decoder scancode).2 s.console
    exact ⟨_, .decode hpos rfl ⟨.decode hpos⟩ hprint⟩

/-- A key is typed and shown, and then read by a process. -/
theorem typed_is_shown_one : ∃ s : Echoed Unit Unit,
    (system .dev ⟨fun _ c => ((), some (.unicode (Char.ofNat c.toNat)))⟩ Unit ⟨0⟩).Reach s ∧
    s.logged.log.read = [0x61] ∧ s.writes.filterMap ConsoleWrite.char? = ['a'] ∧
    s.first.runCalls (s.writes.map ConsoleWrite.call) = .ok s.console := by
  have h0 : (ExecutorState.system .dev Unit).Reach ⟨.new, .new, .outside, fun _ => false, 0,
      fun _ => 0, fun _ => false⟩ := .init ⟨_, _, rfl⟩
  have h1 := h0.step (@ExecutorState.Step.spawn _ _ _ ⟨⟨0⟩, ()⟩ _ _ rfl rfl)
  have h2 := h1.step (.runReadyTasks rfl)
  have h3 := h2.step (.pop rfl rfl)
  have h4 := h3.step (.cacheWaker rfl rfl)
  have h5 := h4.step (.poll rfl)
  have k0 : (system .dev ⟨fun _ c => ((), some (.unicode (Char.ofNat c.toNat)))⟩ Unit ⟨0⟩).Reach
      ⟨⟨⟨_, .empty, none, .empty, (), .first⟩, (), ⟨[], [], [], []⟩⟩,
        ⟨0, 7, fun _ _ => ⟨0x20, 7⟩⟩, ⟨0, 7, fun _ _ => ⟨0x20, 7⟩⟩, []⟩ :=
    .init ⟨⟨⟨h5, rfl, rfl, rfl, rfl, rfl⟩, rfl, rfl⟩, rfl, rfl⟩
  have k1 := k0.step (.keyboard (fun he => by cases he)
    ⟨@KeyboardState.Step.addScancode _ _ _ _ _ _ 0x61 _ (by decide) rfl⟩)
  have k2 := k1.step (.keyboard (fun he => by cases he) ⟨.popFirst rfl rfl⟩)
  have k3 := k2.step (.decode rfl rfl ⟨.decode rfl⟩ rfl)
  have k4 := k3.step (.keyboard (fun he => by cases he) ⟨.readByte rfl⟩)
  exact ⟨_, k4, rfl, rfl, (typed_is_shown _ _ _ _ _ k4).1⟩

end Echoed

end Apogee
