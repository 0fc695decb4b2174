import Apogee.Kernel.Kernel
import Apogee.Task.Executor

/-!
# The keyboard task (`task/keyboard.rs`)

The keyboard interrupt puts scancodes into `SCANCODE_QUEUE` and wakes the task registered in
`WAKER`. The task `print_keypresses` takes them out through `ScancodeStream::poll_next`, decodes
them and puts characters into `KEY_QUEUE`, from where `read_byte` takes them.

The state is that of the executor with the keyboard's statics, from the moment `ScancodeStream::new`
has made the queues: until then a scancode is dropped. Each access to a static is one step.

* `addScancode`: the interrupt can come whenever interrupts are on, so not between the check of
  `sleep_if_idle` and its `hlt`. It runs to its end before anything else does, and it ends a `hlt`.
* `exec`: any step of the executor outside the keyboard task's own poll, and any wake within it.
* The decoder of `pc-keyboard` is any `Decoder`. `AtomicWaker` is a cell with one waker at most.
-/

namespace Apogee

open Verif

/-- `SCANCODE_QUEUE_CAPACITY`. -/
def scancodeQueueCapacity : Nat := 100

/-- `DecodedKey`. -/
inductive DecodedKey where
  | unicode (character : Char)
  | rawKey

/-- `add_byte` and `process_keyevent`: the decoder after a scancode, and the key it completes. -/
structure Decoder (δ : Type) where
  feed : δ → UInt8 → δ × Option DecodedKey

/-- `add_scancode`, up to the wake: the queue and the waker after it, and the waker it fires. A
scancode that finds the queue full is dropped. -/
def addScancode (scancode : UInt8) (queue : BQueue UInt8 scancodeQueueCapacity)
    (waker : Option TaskWaker) :
    BQueue UInt8 scancodeQueueCapacity × Option TaskWaker × Option TaskWaker :=
  match queue.push scancode with
  | none => (queue, waker, none)
  | some queue => (queue, none, waker)

/-- What `print_keypresses` does with a key: `KEY_QUEUE` after it. A byte that finds the queue full
is dropped. -/
def pushKey (key : Option DecodedKey) (queue : BQueue UInt8 keyQueueCapacity) :
    BQueue UInt8 keyQueueCapacity :=
  match key with
  | some (.unicode character) =>
    if character.val ≤ 0x7f then (queue.push character.val.toUInt8).getD queue else queue
  | some .rawKey | none => queue

/-- Where the keyboard task is. -/
inductive StreamPos where
  /-- It is not being polled. -/
  | waiting
  /-- In `poll_next`, before the first `pop`. -/
  | first
  | register
  /-- Before the second `pop`. -/
  | second
  /-- Before `WAKER.take`, with a scancode. -/
  | take (scancode : UInt8)
  /-- `poll_next` has returned a scancode. -/
  | received (scancode : UInt8)
  /-- `poll_next` has returned `Pending`. -/
  | pending
  deriving DecidableEq

inductive KeyboardEvent where
  | exec
  | poll
  | popFirst
  | emptyFirst
  | register
  | popSecond
  | emptySecond
  | take
  | decode
  | pending
  | addScancode (scancode : UInt8)
  | readByte

/-- The executor and the keyboard's statics. -/
structure KeyboardState (F δ : Type) where
  exec : ExecutorState F
  scancodeQueue : BQueue UInt8 scancodeQueueCapacity
  /-- `WAKER`. -/
  waker : Option TaskWaker
  keyQueue : BQueue UInt8 keyQueueCapacity
  decoder : δ
  pos : StreamPos

/-- The executor as an interrupt's handler finds it. -/
def ExecutorState.interrupted {F : Type} (x : ExecutorState F) : ExecutorState F :=
  if x.pos = .halted then { x with pos := .outside } else x

namespace KeyboardState

variable {F δ : Type}

/-- The waker that an interrupt fires, if any, and what the executor makes of it. -/
def Fires (p : Profile) (x : ExecutorState F) (fired : Option TaskWaker) (x' : ExecutorState F) :
    Prop :=
  match fired with
  | none => x' = x
  | some w => ExecutorState.Step p x (.wake w) x'

/-- The steps, where `kbd` is the id of the keyboard task. -/
inductive Step (p : Profile) (d : Decoder δ) (kbd : TaskId) :
    KeyboardState F δ → KeyboardEvent → KeyboardState F δ → Prop
  | exec {st : KeyboardState F δ} {e : ExecutorEvent F} {x : ExecutorState F} :
      ExecutorState.Step p st.exec e x →
      (st.exec.pos = .polling kbd ↔ x.pos = .polling kbd) →
      Step p d kbd st .exec { st with exec := x }
  | poll {st : KeyboardState F δ} {x : ExecutorState F} : st.exec.pos = .cached kbd →
      ExecutorState.Step p st.exec .poll x →
      Step p d kbd st .poll { st with exec := x, pos := .first }
  | popFirst {st : KeyboardState F δ} {scancode : UInt8}
      {q : BQueue UInt8 scancodeQueueCapacity} : st.pos = .first →
      st.scancodeQueue.pop = some (scancode, q) →
      Step p d kbd st .popFirst { st with scancodeQueue := q, pos := .received scancode }
  | emptyFirst {st : KeyboardState F δ} : st.pos = .first → st.scancodeQueue.pop = none →
      Step p d kbd st .emptyFirst { st with pos := .register }
  /-- The waker of the context is the one that the executor has cached for the task. -/
  | register {st : KeyboardState F δ} {w : TaskWaker} : st.pos = .register →
      st.exec.exec.wakerCache.get? kbd = some w →
      Step p d kbd st .register { st with waker := some w, pos := .second }
  | popSecond {st : KeyboardState F δ} {scancode : UInt8}
      {q : BQueue UInt8 scancodeQueueCapacity} : st.pos = .second →
      st.scancodeQueue.pop = some (scancode, q) →
      Step p d kbd st .popSecond { st with scancodeQueue := q, pos := .take scancode }
  | emptySecond {st : KeyboardState F δ} : st.pos = .second → st.scancodeQueue.pop = none →
      Step p d kbd st .emptySecond { st with pos := .pending }
  | take {st : KeyboardState F δ} {scancode : UInt8} : st.pos = .take scancode →
      Step p d kbd st .take { st with waker := none, pos := .received scancode }
  | decode {st : KeyboardState F δ} {scancode : UInt8} : st.pos = .received scancode →
      Step p d kbd st .decode { st with
        decoder := (d.feed st.decoder scancode).1
        keyQueue := pushKey (d.feed st.decoder scancode).2 st.keyQueue
        pos := .first }
  | pending {st : KeyboardState F δ} {future : F} {x : ExecutorState F} : st.pos = .pending →
      ExecutorState.Step p st.exec (.pending future) x →
      Step p d kbd st .pending { st with exec := x, pos := .waiting }
  | addScancode {st : KeyboardState F δ} {scancode : UInt8} {x : ExecutorState F} :
      st.exec.pos ≠ .checking →
      Fires p st.exec.interrupted (addScancode scancode st.scancodeQueue st.waker).2.2 x →
      Step p d kbd st (.addScancode scancode) { st with
        exec := x
        scancodeQueue := (addScancode scancode st.scancodeQueue st.waker).1
        waker := (addScancode scancode st.scancodeQueue st.waker).2.1 }
  /-- `read_byte`. -/
  | readByte {st : KeyboardState F δ} {byte : UInt8} {q : BQueue UInt8 keyQueueCapacity} :
      st.keyQueue.pop = some (byte, q) → Step p d kbd st .readByte { st with keyQueue := q }

/-- The first poll of the keyboard task has made the queues. -/
def system (p : Profile) (d : Decoder δ) (F : Type) (kbd : TaskId) :
    Sys (KeyboardState F δ) KeyboardEvent where
  init st := (ExecutorState.system p F).Reach st.exec ∧ st.exec.pos = .polling kbd ∧
    st.scancodeQueue = .empty ∧ st.waker = none ∧ st.keyQueue = .empty ∧ st.pos = .first
  step := Step p d kbd

end KeyboardState

end Apogee
