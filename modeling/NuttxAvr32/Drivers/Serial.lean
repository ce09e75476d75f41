import NuttxAvr32.Lib.Ring
import NuttxAvr32.Lib.Runs

/-! # The serial driver

`serial.c` and `serialirq.c` with the interrupt handler of `at32uc3_serial.c`, at the grain
of single statements. One task at a time holds `xmit.sem` and writes, one holds `recv.sem`
and reads, and interrupts come between any two statements. Advancing an index and wrapping
it is one statement.
-/

namespace NuttxAvr32.Drivers.Serial

open Ring Runs

def newline : UInt8 := 10
def carriageReturn : UInt8 := 13

/-- One direction of `struct uart_dev_s`: `struct uart_buffer_s`, `xmitwaiting` and `xmitsem`
(or `recvwaiting` and `recvsem`), and whether the interrupt source is enabled. -/
structure Half where
  size : Nat
  head : Nat
  tail : Nat
  buffer : Nat → UInt8
  waiting : Bool
  sem : Nat
  int : Bool

def Half.contents (x : Half) : List UInt8 := Ring.contents x.size x.tail x.head x.buffer

def Half.full (x : Half) : Prop := next x.size x.head = x.tail

instance (x : Half) : Decidable x.full := inferInstanceAs (Decidable (_ = _))

/-- `uart_datasent` and `uart_datareceived` without the notification of `poll`. -/
def Half.wake (x : Half) : Half :=
  if x.waiting then
    { x with
      waiting := false
      sem := x.sem + 1 }
  else x

/-- `uart_xmitchars` where the hardware takes at most `ready` bytes. Returns what was sent. -/
def uartXmitchars (ready : Nat) (x : Half) : List UInt8 × Half :=
  let r := drain x.size x.buffer x.head ready x.tail
  let x := { x with tail := r.2 }
  let x := if x.head = x.tail then { x with int := false } else x
  (r.1, if r.1 ≠ [] then x.wake else x)

/-- `uart_recvchars` where the hardware has the bytes of `available`. Returns what was taken. -/
def uartRecvchars (available : List UInt8) (x : Half) : List UInt8 × Half :=
  let r := fill x.size x.tail available x.buffer x.head
  let x := { x with buffer := r.2.1, head := r.2.2 }
  (r.1, if r.1 ≠ [] then x.wake else x)

/-- `up_txint (dev, true)`, which calls `uart_xmitchars`. -/
def enableTxint (ready : Nat) (x : Half) : List UInt8 × Half :=
  uartXmitchars ready { x with int := true }

/-- What `uart_write` queues for a byte, and for all bytes of a buffer. -/
def queuedFor (isconsole : Bool) (ch : UInt8) : List UInt8 :=
  if isconsole = true ∧ ch = newline then [ch, carriageReturn] else [ch]

def expand (isconsole : Bool) (data : List UInt8) : List UInt8 := data.flatMap (queuedFor isconsole)

def upPutc (ch : UInt8) : List UInt8 := if ch = newline then [carriageReturn, ch] else [ch]

def uartIrqwrite (data : List UInt8) : List UInt8 :=
  data.flatMap fun ch => upPutc ch ++ if ch = newline then upPutc carriageReturn else []

/-- The next statement of `uart_write`. `test` to `disable` are those of `uart_putxmitchar`,
where `disable` follows the wait. -/
inductive WriteAt
  | start
  | test
  | store
  | advance
  | setWaiting
  | enable
  | wait
  | disable
  | finish
  | give
deriving DecidableEq

/-- The task in `uart_write` and the bytes it has still to queue. -/
structure Writer where
  pc : WriteAt
  rest : List UInt8

def Writer.step (ready : Nat) (w : Writer) (x : Half) :
    Option (Option Writer × Half × List UInt8) :=
  let loop := fun rest => (⟨if rest = [] then .finish else .test, rest⟩ : Writer)
  match w.pc with
  | .start => some (some (loop w.rest), { x with int := false }, [])
  | .test => some (some { w with pc := if x.full then .setWaiting else .store }, x, [])
  | .store =>
    some (some { w with pc := .advance },
      { x with buffer := Function.update x.buffer x.head (w.rest.headD 0) }, [])
  | .advance => some (some (loop w.rest.tail), { x with head := next x.size x.head }, [])
  | .setWaiting => some (some { w with pc := .enable }, { x with waiting := true }, [])
  | .enable =>
    let r := enableTxint ready x
    some (some { w with pc := .wait }, r.2, r.1)
  | .wait =>
    if 0 < x.sem then some (some { w with pc := .disable }, { x with sem := x.sem - 1 }, [])
    else none
  | .disable => some (some { w with pc := .test }, { x with int := false }, [])
  | .finish =>
    let r := if x.head ≠ x.tail then enableTxint ready x else ([], x)
    some (some { w with pc := .give }, r.2, r.1)
  | .give => some (none, x, [])

inductive ReadAt
  | start
  | loop
  | copy
  | advance
  | setWaiting
  | enable
  | wait
  | disable
  | finish
  | give
deriving DecidableEq

structure Reader where
  pc : ReadAt
  recvd : Nat
  buflen : Nat
  nonblock : Bool

/-- The test that ends a read without data, with and without `CONFIG_DEV_SERIAL_FULLBLOCKS`. -/
def Reader.stops (fullblocks : Bool) (r : Reader) : Bool :=
  if fullblocks then r.nonblock else decide (0 < r.recvd) || r.nonblock

/-- What a statement leaves: the reader, its direction of the device and the byte it copies. -/
def Reader.step (fullblocks : Bool) (r : Reader) (x : Half) :
    Option (Option Reader × Half × List UInt8) :=
  match r.pc with
  | .start => some (some { r with pc := .loop }, { x with int := false }, [])
  | .loop =>
    let pc := if r.recvd < r.buflen then
        if x.head ≠ x.tail then .copy
        else if r.stops fullblocks then .finish else .setWaiting
      else ReadAt.finish
    some (some { r with pc := pc }, x, [])
  | .copy =>
    some (some { r with pc := .advance, recvd := r.recvd + 1 }, x, [x.buffer x.tail])
  | .advance => some (some { r with pc := .loop }, { x with tail := next x.size x.tail }, [])
  | .setWaiting => some (some { r with pc := .enable }, { x with waiting := true }, [])
  | .enable => some (some { r with pc := .wait }, { x with int := true }, [])
  | .wait =>
    if 0 < x.sem then some (some { r with pc := .disable }, { x with sem := x.sem - 1 }, [])
    else none
  | .disable => some (some { r with pc := .loop }, { x with int := false }, [])
  | .finish => some (some { r with pc := .give }, { x with int := true }, [])
  | .give => some (none, x, [])

structure Config where
  isconsole : Bool
  fullblocks : Bool

/-- The device with its tasks. The logs hold the bytes that writes have asked for, those the
hardware got from the queue, those the console got directly with what was asked for there,
those that came from the hardware, and those that readers got. -/
structure State where
  xmit : Half
  recv : Half
  writer : Option Writer
  reader : Option Reader
  asked : List UInt8
  sent : List UInt8
  directAsked : List UInt8
  direct : List UInt8
  arrived : List UInt8
  returned : List UInt8

/-- A task gets `xmit.sem` for its write, or `recv.sem` for its read; a statement of the one
that has it, with what the hardware takes; an interrupt with what the hardware takes and has;
and a write from interrupt level or the idle task. -/
inductive Op
  | beginWrite (data : List UInt8)
  | write (ready : Nat)
  | beginRead (buflen : Nat) (nonblock : Bool)
  | read
  | interrupt (ready : Nat) (available : List UInt8)
  | irqWrite (data : List UInt8)

variable (cfg : Config)

/-- The handler looks at the status of both sources and not at what is enabled. -/
def upInterrupt (ready : Nat) (available : List UInt8) (s : State) : State :=
  let rx := uartRecvchars available s.recv
  let tx := if 0 < ready then uartXmitchars ready s.xmit else ([], s.xmit)
  { s with
    recv := rx.2
    arrived := s.arrived ++ rx.1
    xmit := tx.2
    sent := s.sent ++ tx.1 }

def Op.exec (s : State) : Op → Option State
  | beginWrite data =>
    if s.writer.isNone then
      some { s with
        writer := some ⟨.start, expand cfg.isconsole data⟩
        asked := s.asked ++ expand cfg.isconsole data }
    else none
  | write ready =>
    s.writer.bind fun w => (w.step ready s.xmit).map fun r =>
      { s with writer := r.1, xmit := r.2.1, sent := s.sent ++ r.2.2 }
  | beginRead buflen nonblock =>
    if s.reader.isNone then some { s with reader := some ⟨.start, 0, buflen, nonblock⟩ }
    else none
  | read =>
    s.reader.bind fun r => (r.step cfg.fullblocks s.recv).map fun r =>
      { s with reader := r.1, recv := r.2.1, returned := s.returned ++ r.2.2 }
  | interrupt ready available => some (upInterrupt ready available s)
  | irqWrite data =>
    some (if cfg.isconsole then
      { s with
        direct := s.direct ++ uartIrqwrite data
        directAsked := s.directAsked ++ expand true data }
    else s)

def Op.valid (s : State) : Op → Prop
  | interrupt ready available =>
    (s.xmit.int = true ∧ 0 < ready) ∨ (s.recv.int = true ∧ available ≠ [])
  | _ => True

/-- An interrupt finds a source that is not enabled with nothing to do, and a direct write
has no end of line. -/
def Op.keeps (s : State) : Op → Prop
  | interrupt ready available =>
    (0 < ready → s.xmit.int = true) ∧ (available ≠ [] → s.recv.int = true)
  | irqWrite data => newline ∉ data
  | _ => True

def serialMachine : Machine State Op where
  valid s i := i.valid s
  exec s i := i.exec cfg s

structure Half.Opened (x : Half) : Prop where
  size : 0 < x.size
  empty : x.head = 0 ∧ x.tail = 0
  calm : x.waiting = false ∧ x.sem = 0

structure Start (s : State) : Prop where
  xmit : s.xmit.Opened
  recv : s.recv.Opened
  tasks : s.writer = none ∧ s.reader = none
  queued : s.asked = [] ∧ s.sent = []
  directs : s.directAsked = [] ∧ s.direct = []
  received : s.arrived = [] ∧ s.returned = []

def State.rest (s : State) : List UInt8 := (s.writer.map Writer.rest).getD []

/-- What holds in every state: the indices are those of cells, the hardware gets the bytes
in the order of the writes, each once and with lines ended as asked, readers get what arrived
in order, each at most once, and no task is blocked without a post that its buffer calls for. -/
structure Correct (s : State) : Prop where
  indices : s.xmit.head < s.xmit.size ∧ s.xmit.tail < s.xmit.size ∧
    s.recv.head < s.recv.size ∧ s.recv.tail < s.recv.size
  sent : s.asked = s.sent ++ s.xmit.contents ++ s.rest
  direct : s.direct = s.directAsked
  returned : s.returned <+: s.arrived
  writer : ∀ w, s.writer = some w → w.pc = .wait → ¬ s.xmit.full → 0 < s.xmit.sem
  reader : ∀ r, s.reader = some r → r.pc = .wait → s.recv.head ≠ s.recv.tail → 0 < s.recv.sem

namespace Half

structure Wf (x : Half) : Prop where
  head : x.head < x.size
  tail : x.tail < x.size

structure Calm (x : Half) : Prop where
  waiting : x.waiting = false
  sem : x.sem = 0

variable {x y : Half}

/-- `y` is `x` after bytes went through an interrupt routine: who waits was posted. -/
structure Served (x y : Half) (bytes : List UInt8) : Prop where
  wf : y.Wf
  idle : bytes = [] → y.head = x.head ∧ y.tail = x.tail ∧ y.size = x.size ∧
    y.waiting = x.waiting ∧ y.sem = x.sem
  posted : bytes ≠ [] → y.waiting = false ∧ y.sem = x.sem + if x.waiting then 1 else 0

theorem wake_fields (x : Half) : x.wake.size = x.size ∧ x.wake.head = x.head ∧
    x.wake.tail = x.tail ∧ x.wake.buffer = x.buffer ∧ x.wake.waiting = false ∧
    x.wake.sem = x.sem + if x.waiting then 1 else 0 := by
  unfold wake
  split
  · simp
  · rename_i h
    simpa using h

theorem Served.calm {bytes : List UInt8} (S : Served x y bytes) (C : x.Calm) : y.Calm := by
  by_cases h : bytes = []
  · obtain ⟨-, -, -, hw, hs⟩ := S.idle h
    exact ⟨hw.trans C.waiting, hs.trans C.sem⟩
  · obtain ⟨hw, hs⟩ := S.posted h
    rw [C.waiting, C.sem] at hs
    exact ⟨hw, hs⟩

theorem Served.wait {bytes : List UInt8} (S : Served x y bytes) {P : Half → Prop}
    (hP : bytes = [] → P x → P y)
    (h : (x.waiting = true ∧ x.sem = 0 ∧ P x) ∨ (x.waiting = false ∧ x.sem = 1)) :
    (y.waiting = true ∧ y.sem = 0 ∧ P y) ∨ (y.waiting = false ∧ y.sem = 1) := by
  by_cases hb : bytes = []
  · obtain ⟨-, -, -, hw, hs⟩ := S.idle hb
    rw [hw, hs]
    exact h.imp_left fun h => ⟨h.1, h.2.1, hP hb h.2.2⟩
  · obtain ⟨hw, hs⟩ := S.posted hb
    rcases h with ⟨h1, h2, -⟩ | ⟨h1, h2⟩
    · rw [h1, h2] at hs
      exact .inr ⟨hw, hs⟩
    · rw [h1, h2] at hs
      exact .inr ⟨hw, hs⟩

theorem Wf.xmitchars (W : x.Wf) (ready : Nat) :
    Served x (uartXmitchars ready x).2 (uartXmitchars ready x).1 ∧
      x.contents = (uartXmitchars ready x).1 ++ (uartXmitchars ready x).2.contents := by
  obtain ⟨hlt, hcont⟩ := drain_spec x.buffer W.tail W.head ready
  obtain ⟨r, hr⟩ : ∃ r, drain x.size x.buffer x.head ready x.tail = r := ⟨_, rfl⟩
  obtain ⟨y, hy⟩ : ∃ y : Half, (if x.head = r.2 then
      { ({ x with tail := r.2 } : Half) with int := false } else { x with tail := r.2 }) = y :=
    ⟨_, rfl⟩
  have hfields : y.size = x.size ∧ y.head = x.head ∧ y.tail = r.2 ∧ y.buffer = x.buffer ∧
      y.waiting = x.waiting ∧ y.sem = x.sem := by
    rw [← hy]
    split <;> exact ⟨rfl, rfl, rfl, rfl, rfl, rfl⟩
  obtain ⟨hsize, hhead, htail, hbuf, hwait, hsem⟩ := hfields
  have hrun : uartXmitchars ready x = (r.1, if r.1 ≠ [] then y.wake else y) := by
    rw [← hy, ← hr]
    rfl
  obtain ⟨wsize, whead, wtail, wbuf, wwait, wsem⟩ := wake_fields y
  rw [hr] at hlt hcont
  rw [hrun]
  by_cases hb : r.1 = []
  · have hstop : r.2 = x.tail := by
      rw [← hr]
      exact drain_nil (hr ▸ hb)
    rw [if_neg (by simpa using hb)]
    refine ⟨⟨⟨by rw [hsize, hhead]; exact W.head, by rw [hsize, htail]; exact hlt⟩,
      fun _ => ⟨hhead, htail.trans hstop, hsize, hwait, hsem⟩, fun h => absurd hb h⟩, ?_⟩
    rw [Half.contents, Half.contents, hsize, hhead, htail, hbuf]
    exact hcont
  · rw [if_pos hb]
    refine ⟨⟨⟨by rw [whead, wsize, hsize, hhead]; exact W.head,
      by rw [wtail, wsize, hsize, htail]; exact hlt⟩, fun h => absurd h hb,
      fun _ => ⟨wwait, by rw [wsem, hwait, hsem]⟩⟩, ?_⟩
    rw [Half.contents, Half.contents, wsize, whead, wtail, wbuf, hsize, hhead, htail, hbuf]
    exact hcont

theorem Wf.recvchars (W : x.Wf) (available : List UInt8) :
    Served x (uartRecvchars available x).2 (uartRecvchars available x).1 ∧
      (uartRecvchars available x).2.contents = x.contents ++ (uartRecvchars available x).1 := by
  obtain ⟨hlt, hcont⟩ := fill_spec x.buffer W.tail W.head available
  obtain ⟨r, hr⟩ : ∃ r, fill x.size x.tail available x.buffer x.head = r := ⟨_, rfl⟩
  obtain ⟨y, hy⟩ : ∃ y, ({ x with buffer := r.2.1, head := r.2.2 } : Half) = y := ⟨_, rfl⟩
  have hrun : uartRecvchars available x = (r.1, if r.1 ≠ [] then y.wake else y) := by
    rw [← hy, ← hr]
    rfl
  obtain ⟨wsize, whead, wtail, wbuf, wwait, wsem⟩ := wake_fields y
  rw [hr] at hlt hcont
  rw [hrun]
  subst hy
  by_cases hb : r.1 = []
  · have hstop : r.2 = (x.buffer, x.head) := by
      rw [← hr]
      exact fill_nil (hr ▸ hb)
    rw [if_neg (by simpa using hb)]
    exact ⟨⟨⟨hlt, W.tail⟩, fun _ => ⟨congrArg Prod.snd hstop, rfl, rfl, rfl, rfl⟩,
      fun h => absurd hb h⟩, hcont⟩
  · rw [if_pos hb]
    refine ⟨⟨⟨by rw [whead, wsize]; exact hlt, by rw [wtail, wsize]; exact W.tail⟩,
      fun h => absurd h hb, fun _ => ⟨wwait, wsem⟩⟩, ?_⟩
    rw [Half.contents, wsize, whead, wtail, wbuf]
    exact hcont

theorem Wf.enableTxint (W : x.Wf) (ready : Nat) :
    Served x (enableTxint ready x).2 (enableTxint ready x).1 ∧
      x.contents = (enableTxint ready x).1 ++ (enableTxint ready x).2.contents := by
  have W' : ({ x with int := true } : Half).Wf := ⟨W.head, W.tail⟩
  obtain ⟨S, hc⟩ := W'.xmitchars ready
  exact ⟨⟨S.wf, S.idle, S.posted⟩, hc⟩

theorem Wf.store (W : x.Wf) (h : ¬ x.full) (ch : UInt8) :
    ({ x with buffer := Function.update x.buffer x.head ch } : Half).contents = x.contents := by
  have h1 : Ring.contents x.size x.tail (next x.size x.head) (Function.update x.buffer x.head ch) =
      x.contents ++ [ch] := contents_push W.tail W.head h ch
  have h2 : Ring.contents x.size x.tail (next x.size x.head)
      (Function.update (Function.update x.buffer x.head ch) x.head ch) =
        Ring.contents x.size x.tail x.head (Function.update x.buffer x.head ch) ++ [ch] :=
    contents_push W.tail W.head h ch
  rw [Function.update_idem, h1] at h2
  exact (List.append_cancel_right h2).symm

theorem Wf.advance (W : x.Wf) (h : ¬ x.full) :
    ({ x with head := next x.size x.head } : Half).contents =
      x.contents ++ [x.buffer x.head] := by
  have h1 : Ring.contents x.size x.tail (next x.size x.head)
      (Function.update x.buffer x.head (x.buffer x.head)) = x.contents ++ [x.buffer x.head] :=
    contents_push W.tail W.head h (x.buffer x.head)
  rw [Function.update_eq_self] at h1
  exact h1

theorem Wf.pop (W : x.Wf) (h : x.head ≠ x.tail) :
    x.contents = x.buffer x.tail ::
      ({ x with tail := next x.size x.tail } : Half).contents :=
  contents_pop W.tail W.head h.symm

end Half

/-- What holds where a writer is about to execute the statement. -/
def WriteOk (x : Half) (rest : List UInt8) : WriteAt → Prop
  | .start => x.Calm
  | .test => x.Calm ∧ x.int = false ∧ rest ≠ []
  | .store => x.Calm ∧ x.int = false ∧ rest ≠ [] ∧ ¬ x.full
  | .advance => x.Calm ∧ x.int = false ∧ rest ≠ [] ∧ ¬ x.full ∧ x.buffer x.head = rest.headD 0
  | .setWaiting => x.Calm ∧ x.int = false ∧ rest ≠ [] ∧ x.full
  | .enable => x.waiting = true ∧ x.sem = 0 ∧ x.int = false ∧ rest ≠ [] ∧ x.full
  | .wait => ((x.waiting = true ∧ x.sem = 0 ∧ x.full) ∨ (x.waiting = false ∧ x.sem = 1)) ∧ rest ≠ []
  | .disable => x.Calm ∧ rest ≠ []
  | .finish => x.Calm ∧ rest = []
  | .give => x.Calm ∧ rest = []

def WriterOk (x : Half) : Option Writer → Prop
  | none => x.Calm
  | some w => WriteOk x w.rest w.pc

structure TxInv (x : Half) (w : Option Writer) (asked sent : List UInt8) : Prop where
  wf : x.Wf
  writer : WriterOk x w
  log : asked = sent ++ x.contents ++ (w.map Writer.rest).getD []

section

variable {x y : Half} {w : Writer} {asked sent : List UInt8}

theorem WriteOk.loop {rest : List UInt8} (C : x.Calm) (h : x.int = false) :
    WriterOk x (some ⟨if rest = [] then .finish else .test, rest⟩) := by
  by_cases hr : rest = []
  · simp only [WriterOk, if_pos hr]
    exact ⟨C, hr⟩
  · simp only [WriterOk, if_neg hr]
    exact ⟨C, h, hr⟩

theorem full_of_idle {bytes : List UInt8} (S : Half.Served x y bytes) (hb : bytes = [])
    (h : x.full) : y.full := by
  obtain ⟨hh, ht, hs, -, -⟩ := S.idle hb
  rw [Half.full, hh, ht, hs]
  exact h

theorem TxInv.step {ready : Nat} {r : Option Writer × Half × List UInt8}
    (I : TxInv x (some w) asked sent) (h : w.step ready x = some r) :
    TxInv r.2.1 r.1 asked (sent ++ r.2.2) := by
  obtain ⟨W, hw, hlog⟩ := I
  obtain ⟨pc, rest⟩ := w
  simp only [Option.map_some, Option.getD_some] at hlog
  have hquiet : asked = sent ++ [] ++ x.contents ++ rest := by
    rw [List.append_nil]
    exact hlog
  cases pc with
  | start =>
    cases h
    exact ⟨⟨W.head, W.tail⟩, WriteOk.loop ⟨hw.waiting, hw.sem⟩ rfl, hquiet⟩
  | test =>
    cases h
    obtain ⟨C, hi, hr⟩ := hw
    refine ⟨W, ?_, hquiet⟩
    by_cases hf : x.full
    · simp only [WriterOk, if_pos hf]
      exact ⟨C, hi, hr, hf⟩
    · simp only [WriterOk, if_neg hf]
      exact ⟨C, hi, hr, hf⟩
  | store =>
    cases h
    obtain ⟨C, hi, hr, hf⟩ := hw
    refine ⟨⟨W.head, W.tail⟩, ⟨⟨C.waiting, C.sem⟩, hi, hr, hf, Function.update_self _ _ _⟩, ?_⟩
    rw [List.append_nil, W.store hf]
    exact hlog
  | advance =>
    cases h
    obtain ⟨C, hi, hr, hf, hb⟩ := hw
    refine ⟨⟨next_lt (by have := W.head; omega) _, W.tail⟩,
      WriteOk.loop ⟨C.waiting, C.sem⟩ hi, ?_⟩
    rw [List.append_nil, W.advance hf, hb, hlog]
    cases rest with
    | nil => exact absurd rfl hr
    | cons ch rest => simp
  | setWaiting =>
    cases h
    obtain ⟨C, hi, hr, hf⟩ := hw
    exact ⟨⟨W.head, W.tail⟩, ⟨rfl, C.sem, hi, hr, hf⟩, hquiet⟩
  | enable =>
    cases h
    obtain ⟨hwait, hsem, hi, hr, hf⟩ := hw
    obtain ⟨S, hc⟩ := W.enableTxint ready
    refine ⟨S.wf, ⟨S.wait (fun hb => full_of_idle S hb) (.inl ⟨hwait, hsem, hf⟩), hr⟩, ?_⟩
    rw [hlog, hc]
    simp
  | wait =>
    obtain ⟨hp, hr⟩ := hw
    simp only [Writer.step] at h
    split at h
    · rename_i hpos
      cases h
      obtain ⟨-, h0, -⟩ | ⟨hwait, h1⟩ := hp
      · omega
      · exact ⟨⟨W.head, W.tail⟩, ⟨⟨hwait, by simp [h1]⟩, hr⟩, hquiet⟩
    · cases h
  | disable =>
    cases h
    obtain ⟨C, hr⟩ := hw
    exact ⟨⟨W.head, W.tail⟩, ⟨⟨C.waiting, C.sem⟩, rfl, hr⟩, hquiet⟩
  | finish =>
    cases h
    obtain ⟨C, hr⟩ := hw
    by_cases hne : x.head ≠ x.tail
    · simp only [if_pos hne]
      obtain ⟨S, hc⟩ := W.enableTxint ready
      refine ⟨S.wf, ⟨S.calm C, hr⟩, ?_⟩
      rw [hlog, hc]
      simp
    · simp only [if_neg hne]
      exact ⟨W, ⟨C, hr⟩, hquiet⟩
  | give =>
    cases h
    obtain ⟨C, hr⟩ := hw
    refine ⟨W, C, ?_⟩
    rw [hlog, show rest = [] from hr]
    simp

theorem TxInv.interrupt {v : Option Writer} {ready : Nat} (I : TxInv x v asked sent)
    (h : x.int = true) :
    TxInv (uartXmitchars ready x).2 v asked (sent ++ (uartXmitchars ready x).1) := by
  obtain ⟨W, hw, hlog⟩ := I
  obtain ⟨S, hc⟩ := W.xmitchars ready
  refine ⟨S.wf, ?_, by rw [hlog, hc]; simp⟩
  cases v with
  | none => exact S.calm hw
  | some w =>
    obtain ⟨pc, rest⟩ := w
    cases pc with
    | start => exact S.calm hw
    | wait => exact ⟨S.wait (fun hb => full_of_idle S hb) hw.1, hw.2⟩
    | disable => exact ⟨S.calm hw.1, hw.2⟩
    | finish => exact ⟨S.calm hw.1, hw.2⟩
    | give => exact ⟨S.calm hw.1, hw.2⟩
    | test => exact absurd (h.symm.trans hw.2.1) (by decide)
    | store => exact absurd (h.symm.trans hw.2.1) (by decide)
    | advance => exact absurd (h.symm.trans hw.2.1) (by decide)
    | setWaiting => exact absurd (h.symm.trans hw.2.1) (by decide)
    | enable => exact absurd (h.symm.trans hw.2.2.1) (by decide)

end

/-- What holds where a reader is about to execute the statement. -/
def ReadOk (x : Half) : ReadAt → Prop
  | .start => x.Calm
  | .loop => x.Calm ∧ x.int = false
  | .copy => x.Calm ∧ x.int = false ∧ x.head ≠ x.tail
  | .advance => x.Calm ∧ x.int = false ∧ x.head ≠ x.tail
  | .setWaiting => x.Calm ∧ x.int = false ∧ x.head = x.tail
  | .enable => x.waiting = true ∧ x.sem = 0 ∧ x.int = false ∧ x.head = x.tail
  | .wait => (x.waiting = true ∧ x.sem = 0 ∧ x.head = x.tail) ∨ (x.waiting = false ∧ x.sem = 1)
  | .disable => x.Calm
  | .finish => x.Calm
  | .give => x.Calm

def ReaderOk (x : Half) : Option Reader → Prop
  | none => x.Calm
  | some r => ReadOk x r.pc

/-- What no reader has got. Between its two statements the oldest byte is both in the
buffer and in the reader's. -/
def unread (x : Half) (r : Option Reader) : List UInt8 :=
  if r.map Reader.pc = some .advance then x.contents.drop 1 else x.contents

structure RxInv (x : Half) (r : Option Reader) (arrived returned : List UInt8) : Prop where
  wf : x.Wf
  reader : ReaderOk x r
  log : arrived = returned ++ unread x r

section

variable {x y : Half} {arrived returned : List UInt8}

theorem unread_append {r r' : Option Reader} (h : r.map Reader.pc ≠ some .advance)
    (h' : r'.map Reader.pc ≠ some .advance) (hc : y.contents = x.contents)
    (hlog : arrived = returned ++ unread x r) : arrived = returned ++ [] ++ unread y r' := by
  rw [unread, if_neg h] at hlog
  rw [unread, if_neg h', hc, List.append_nil]
  exact hlog

theorem RxInv.step {fullblocks : Bool} {r : Reader} {q : Option Reader × Half × List UInt8}
    (I : RxInv x (some r) arrived returned) (h : r.step fullblocks x = some q) :
    RxInv q.2.1 q.1 arrived (returned ++ q.2.2) := by
  obtain ⟨W, hr, hlog⟩ := I
  obtain ⟨pc, recvd, buflen, nonblock⟩ := r
  have W' : ∀ b, ({ x with int := b } : Half).Wf := fun _ => ⟨W.head, W.tail⟩
  cases pc with
  | start =>
    cases h
    exact ⟨W' _, ⟨⟨hr.waiting, hr.sem⟩, rfl⟩, unread_append (by simp) (by simp) rfl hlog⟩
  | loop =>
    cases h
    obtain ⟨C, hi⟩ := hr
    by_cases hlen : recvd < buflen
    · by_cases hne : x.head ≠ x.tail
      · simp only [if_pos hlen, if_pos hne]
        exact ⟨W, ⟨C, hi, hne⟩, unread_append (by simp) (by simp) rfl hlog⟩
      · simp only [if_pos hlen, if_neg hne]
        have he : x.head = x.tail := by simpa using hne
        split
        · exact ⟨W, C, unread_append (by simp) (by simp) rfl hlog⟩
        · exact ⟨W, ⟨C, hi, he⟩, unread_append (by simp) (by simp) rfl hlog⟩
    · simp only [if_neg hlen]
      exact ⟨W, C, unread_append (by simp) (by simp) rfl hlog⟩
  | copy =>
    cases h
    obtain ⟨C, hi, hne⟩ := hr
    refine ⟨W, ⟨C, hi, hne⟩, ?_⟩
    rw [hlog, unread, unread, if_neg (by simp), if_pos (by simp), W.pop hne]
    simp
  | advance =>
    cases h
    obtain ⟨C, hi, hne⟩ := hr
    refine ⟨⟨W.head, next_lt (by have := W.head; omega) _⟩, ⟨⟨C.waiting, C.sem⟩, hi⟩, ?_⟩
    rw [hlog, unread, unread, if_pos (by simp), if_neg (by simp), W.pop hne]
    simp
  | setWaiting =>
    cases h
    obtain ⟨C, hi, he⟩ := hr
    exact ⟨⟨W.head, W.tail⟩, ⟨rfl, C.sem, hi, he⟩,
      unread_append (by simp) (by simp) rfl hlog⟩
  | enable =>
    cases h
    obtain ⟨hwait, hsem, hi, he⟩ := hr
    exact ⟨W' _, .inl ⟨hwait, hsem, he⟩, unread_append (by simp) (by simp) rfl hlog⟩
  | wait =>
    simp only [Reader.step] at h
    split at h
    · rename_i hpos
      cases h
      obtain ⟨-, h0, -⟩ | ⟨hwait, h1⟩ := hr
      · omega
      · exact ⟨⟨W.head, W.tail⟩, ⟨hwait, by simp [h1]⟩,
          unread_append (by simp) (by simp) rfl hlog⟩
    · cases h
  | disable =>
    cases h
    exact ⟨W' _, ⟨⟨hr.waiting, hr.sem⟩, rfl⟩, unread_append (by simp) (by simp) rfl hlog⟩
  | finish =>
    cases h
    exact ⟨W' _, ⟨hr.waiting, hr.sem⟩, unread_append (by simp) (by simp) rfl hlog⟩
  | give =>
    cases h
    exact ⟨W, hr, unread_append (by simp) (by simp) rfl hlog⟩

theorem RxInv.interrupt {r : Option Reader} (available : List UInt8)
    (I : RxInv x r arrived returned) (h : x.int = true) :
    RxInv (uartRecvchars available x).2 r (arrived ++ (uartRecvchars available x).1) returned := by
  obtain ⟨W, hr, hlog⟩ := I
  obtain ⟨S, hc⟩ := W.recvchars available
  have hlog' (hpc : r.map Reader.pc ≠ some .advance) :
      arrived ++ (uartRecvchars available x).1 =
        returned ++ unread (uartRecvchars available x).2 r := by
    rw [unread, if_neg hpc] at hlog ⊢
    rw [hlog, hc, List.append_assoc]
  cases r with
  | none => exact ⟨S.wf, S.calm hr, hlog' (by decide)⟩
  | some r =>
    obtain ⟨pc, recvd, buflen, nonblock⟩ := r
    cases pc with
    | start => exact ⟨S.wf, S.calm hr, hlog' (by simp)⟩
    | wait =>
      refine ⟨S.wf, S.wait (P := fun x => x.head = x.tail) (fun hb he => ?_) hr,
        hlog' (by simp)⟩
      obtain ⟨hh, ht, -⟩ := S.idle hb
      rw [hh, ht]
      exact he
    | disable => exact ⟨S.wf, S.calm hr, hlog' (by simp)⟩
    | finish => exact ⟨S.wf, S.calm hr, hlog' (by simp)⟩
    | give => exact ⟨S.wf, S.calm hr, hlog' (by simp)⟩
    | loop => exact absurd (h.symm.trans hr.2) (by decide)
    | copy => exact absurd (h.symm.trans hr.2.1) (by decide)
    | advance => exact absurd (h.symm.trans hr.2.1) (by decide)
    | setWaiting => exact absurd (h.symm.trans hr.2.1) (by decide)
    | enable => exact absurd (h.symm.trans hr.2.2.1) (by decide)

end

theorem uartRecvchars_nil (x : Half) : uartRecvchars [] x = ([], x) := by
  simp [uartRecvchars, fill]

theorem expand_of_notMem (isconsole : Bool) {data : List UInt8} (h : newline ∉ data) :
    expand isconsole data = data := by
  induction data with
  | nil => rfl
  | cons ch data ih =>
    obtain ⟨hch, hdata⟩ := not_or.mp (mt List.mem_cons.mpr h)
    have hq : queuedFor isconsole ch = [ch] := if_neg fun hc => hch hc.2.symm
    have hi : expand isconsole (ch :: data) = queuedFor isconsole ch ++ expand isconsole data :=
      rfl
    rw [hi, hq, ih hdata]
    rfl

theorem uartIrqwrite_of_notMem {data : List UInt8} (h : newline ∉ data) :
    uartIrqwrite data = data := by
  induction data with
  | nil => rfl
  | cons ch data ih =>
    obtain ⟨hch, hdata⟩ := not_or.mp (mt List.mem_cons.mpr h)
    have hp : upPutc ch = [ch] := if_neg (Ne.symm hch)
    have hi : uartIrqwrite (ch :: data) =
        (upPutc ch ++ if ch = newline then upPutc carriageReturn else []) ++ uartIrqwrite data :=
      rfl
    rw [hi, if_neg (Ne.symm hch), hp, ih hdata]
    rfl

structure Inv (s : State) : Prop where
  tx : TxInv s.xmit s.writer s.asked s.sent
  rx : RxInv s.recv s.reader s.arrived s.returned
  direct : s.direct = s.directAsked

section

variable {cfg : Config} {s s' : State}

theorem TxInv.begin {x : Half} {asked sent : List UInt8} (I : TxInv x none asked sent)
    (data : List UInt8) : TxInv x (some ⟨.start, data⟩) (asked ++ data) sent := by
  obtain ⟨W, hw, hlog⟩ := I
  refine ⟨W, hw, ?_⟩
  rw [hlog]
  simp

theorem RxInv.begin {x : Half} {arrived returned : List UInt8} (I : RxInv x none arrived returned)
    (buflen : Nat) (nonblock : Bool) :
    RxInv x (some ⟨.start, 0, buflen, nonblock⟩) arrived returned := by
  obtain ⟨W, hr, hlog⟩ := I
  refine ⟨W, hr, ?_⟩
  rw [unread, if_neg (by simp)] at hlog ⊢
  exact hlog

theorem Inv.interrupt {ready : Nat} {available : List UInt8} (I : Inv s)
    (hk : (Op.interrupt ready available).keeps s) : Inv (upInterrupt ready available s) := by
  obtain ⟨T, R, hd⟩ := I
  obtain ⟨htx, hrx⟩ := hk
  refine ⟨?_, ?_, hd⟩
  · by_cases hready : 0 < ready
    · simp only [upInterrupt, if_pos hready]
      exact T.interrupt (htx hready)
    · simp only [upInterrupt, if_neg hready, List.append_nil]
      exact T
  · by_cases havail : available = []
    · simp only [upInterrupt, havail, uartRecvchars_nil, List.append_nil]
      exact R
    · simp only [upInterrupt]
      exact R.interrupt available (hrx havail)

theorem Inv.exec {i : Op} (I : Inv s) (hk : i.keeps s) (he : i.exec cfg s = some s') : Inv s' := by
  cases i with
  | beginWrite data =>
    simp only [Op.exec] at he
    split at he
    · rename_i hfree
      cases he
      have T := I.tx
      rw [Option.isNone_iff_eq_none.mp hfree] at T
      exact ⟨T.begin _, I.rx, I.direct⟩
    · cases he
  | write ready =>
    obtain ⟨w, hw, he⟩ := Option.bind_eq_some_iff.mp he
    obtain ⟨r, hr, rfl⟩ := Option.map_eq_some_iff.mp he
    have T := I.tx
    rw [hw] at T
    exact ⟨T.step hr, I.rx, I.direct⟩
  | beginRead buflen nonblock =>
    simp only [Op.exec] at he
    split at he
    · rename_i hfree
      cases he
      have R := I.rx
      rw [Option.isNone_iff_eq_none.mp hfree] at R
      exact ⟨I.tx, R.begin _ _, I.direct⟩
    · cases he
  | read =>
    obtain ⟨r, hr, he⟩ := Option.bind_eq_some_iff.mp he
    obtain ⟨q, hq, rfl⟩ := Option.map_eq_some_iff.mp he
    have R := I.rx
    rw [hr] at R
    exact ⟨I.tx, R.step hq, I.direct⟩
  | interrupt ready available =>
    cases he
    exact I.interrupt hk
  | irqWrite data =>
    cases he
    split
    · refine ⟨I.tx, I.rx, ?_⟩
      simp only [I.direct, uartIrqwrite_of_notMem hk, expand_of_notMem true hk]
    · exact I

theorem Half.Opened.contents {x : Half} (O : x.Opened) : x.contents = [] := by
  rw [Half.contents, O.empty.1, O.empty.2, contents_self]

theorem Half.Opened.wf {x : Half} (O : x.Opened) : x.Wf :=
  ⟨O.empty.1 ▸ O.size, O.empty.2 ▸ O.size⟩

theorem Start.inv (h : Start s) : Inv s := by
  refine ⟨⟨h.xmit.wf, ?_, ?_⟩, ⟨h.recv.wf, ?_, ?_⟩, h.directs.2.trans h.directs.1.symm⟩
  · rw [h.tasks.1]
    exact ⟨h.xmit.calm.1, h.xmit.calm.2⟩
  · rw [h.tasks.1, h.queued.1, h.queued.2, h.xmit.contents]
    rfl
  · rw [h.tasks.2]
    exact ⟨h.recv.calm.1, h.recv.calm.2⟩
  · rw [h.tasks.2, h.received.1, h.received.2, unread, if_neg (by simp), h.recv.contents]
    rfl

theorem Inv.correct (I : Inv s) : Correct s := by
  refine ⟨⟨I.tx.wf.head, I.tx.wf.tail, I.rx.wf.head, I.rx.wf.tail⟩, I.tx.log, I.direct,
    ⟨_, I.rx.log.symm⟩, fun w hw hpc hroom => ?_, fun r hr hpc hdata => ?_⟩
  · have h := I.tx.writer
    simp only [hw, WriterOk, hpc, WriteOk] at h
    obtain ⟨⟨-, -, hfull⟩ | ⟨-, hsem⟩, -⟩ := h
    · exact absurd hfull hroom
    · omega
  · have h := I.rx.reader
    simp only [hr, ReaderOk, hpc, ReadOk] at h
    obtain ⟨-, -, hempty⟩ | ⟨-, hsem⟩ := h
    · exact absurd hempty hdata
    · omega

end

/-- Where interrupts find nothing to do for a source that is not enabled and direct writes
have no end of line, the buffers are right in every state. -/
theorem serial_buffers {s : State}
    (h : Reach (serialMachine cfg) Start (fun s i => i.keeps s) s) : Correct s := by
  have I : Inv s := by
    apply Reach.invariant (I := Inv) (fun _ hs => hs.inv) _ h
    intro s i s' I _ hk he
    exact I.exec hk he
  exact I.correct

def console : Config := ⟨true, false⟩

def opened : State where
  xmit := ⟨2, 0, 0, fun _ => 0, false, 0, false⟩
  recv := ⟨2, 0, 0, fun _ => 0, false, 0, true⟩
  writer := none
  reader := none
  asked := []
  sent := []
  directAsked := []
  direct := []
  arrived := []
  returned := []

theorem opened_start : Start opened :=
  ⟨⟨by decide, ⟨rfl, rfl⟩, rfl, rfl⟩, ⟨by decide, ⟨rfl, rfl⟩, rfl, rfl⟩, ⟨rfl, rfl⟩, ⟨rfl, rfl⟩,
    ⟨rfl, rfl⟩, rfl, rfl⟩

instance (s : State) (i : Op) : Decidable ((serialMachine cfg).valid s i) :=
  match i with
  | .interrupt ready available => inferInstanceAs (Decidable
      ((s.xmit.int = true ∧ 0 < ready) ∨ (s.recv.int = true ∧ available ≠ [])))
  | .beginWrite _ => .isTrue trivial
  | .write _ => .isTrue trivial
  | .beginRead _ _ => .isTrue trivial
  | .read => .isTrue trivial
  | .irqWrite _ => .isTrue trivial

instance (s : State) (i : Op) : Decidable (i.keeps s) :=
  match i with
  | .interrupt ready available => inferInstanceAs (Decidable
      ((0 < ready → s.xmit.int = true) ∧ (available ≠ [] → s.recv.int = true)))
  | .irqWrite data => inferInstanceAs (Decidable (newline ∉ data))
  | .beginWrite _ => .isTrue trivial
  | .write _ => .isTrue trivial
  | .beginRead _ _ => .isTrue trivial
  | .read => .isTrue trivial

/-- A write of two bytes up to where the second finds the buffer full. -/
def toFull : List Op := .beginWrite [65, 66] :: List.replicate 5 (.write 0)

/-- The write waits for room, is woken by the interrupt and goes on, and a byte is read. -/
def writeAndRead : List Op :=
  toFull ++ [.write 0, .write 0, .interrupt 1 [], .write 0, .write 0, .beginRead 3 false,
    .interrupt 0 [7], .read, .read, .read, .write 0, .write 0, .write 0]

theorem serial_buffers_run : ∃ s,
    runAll (serialMachine console) (fun s i => i.keeps s) opened writeAndRead = some s ∧
      s.sent = [65] ∧ s.rest = [] ∧ s.returned = [7] ∧ Correct s := by
  have h : ∃ s,
      runAll (serialMachine console) (fun s i => i.keeps s) opened writeAndRead = some s ∧
        s.sent = [65] ∧ s.rest = [] ∧ s.returned = [7] := by
    decide +kernel
  obtain ⟨s, hs, hsent, hrest, hreturned⟩ := h
  exact ⟨s, hs, hsent, hrest, hreturned, serial_buffers console (.runAll (.init opened_start) hs)⟩

/-- A receive interrupt sends the queued byte while the writer has seen the full buffer and
not yet said that it waits: it blocks with room in the buffer and no post. A new line that
goes directly to the console becomes three bytes. -/
theorem wakeup_lost :
    (∃ s, Reachable (serialMachine console) Start s ∧ s.writer.map Writer.pc = some .wait ∧
      ¬ s.xmit.full ∧ s.xmit.sem = 0 ∧ ¬ Correct s) ∧
    ∃ s, Reachable (serialMachine console) Start s ∧
      s.direct = [carriageReturn, newline, carriageReturn] ∧ ¬ Correct s := by
  have h1 : ∃ s, runAll (serialMachine console) (fun _ _ => True) opened
      (toFull ++ [.interrupt 1 [7], .write 0, .write 0]) = some s ∧
        s.writer.map Writer.pc = some .wait ∧ ¬ s.xmit.full ∧ s.xmit.sem = 0 := by
    decide +kernel
  have h2 : ∃ s, runAll (serialMachine console) (fun _ _ => True) opened
      [.irqWrite [newline]] = some s ∧
        s.direct = [carriageReturn, newline, carriageReturn] ∧
        s.directAsked = [newline, carriageReturn] := by
    decide +kernel
  constructor
  · obtain ⟨s, hs, hpc, hroom, hsem⟩ := h1
    refine ⟨s, .runAll (.init opened_start) hs, hpc, hroom, hsem, fun C => ?_⟩
    obtain ⟨w, hw, hpc⟩ := Option.map_eq_some_iff.mp hpc
    have hpost := C.writer w hw hpc hroom
    omega
  · obtain ⟨s, hs, hdirect, hasked⟩ := h2
    refine ⟨s, .runAll (.init opened_start) hs, hdirect, fun C => ?_⟩
    have he := C.direct
    rw [hdirect, hasked] at he
    exact absurd he (by decide)

end NuttxAvr32.Drivers.Serial
