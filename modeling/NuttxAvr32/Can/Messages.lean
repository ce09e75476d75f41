import Mathlib.Data.List.Sublists
import NuttxAvr32.Can.Fifo
import NuttxAvr32.Lib.Runs

/-! # Messages of a CAN device

`can_open`, `can_close`, `can_read` and `can_write` with the interrupts of the lower half. Each
step is what runs with interrupts disabled, up to the place where the code blocks. No remote
request is pending.
-/

namespace NuttxAvr32.Can

open Overlay Runs
open Function (update update_self update_of_ne)

/-- A caller of `can_write` while it waits. The memory from `buffer` on goes on behind its
`buflen` bytes. `ready` when `sem_wait` returns. -/
structure Writer where
  buffer : Nat → UInt8
  buflen : Nat
  nonblock : Bool
  nsent : Nat
  nexttail : Nat
  ready : Bool

structure Reader where
  buflen : Nat
  ready : Bool

inductive Closing
  | no
  | drain
  | txempty
deriving DecidableEq

/-- `txint`: a message is on its way and its TX-done interrupt is enabled. `up`: the device is
set up and not shut down. The messages that `can_write` queued, `dev_send` got, `can_txdone`
removed, `can_receive` queued and `can_read` returned, in their order. -/
structure Dev where
  cdOcount : Nat
  closing : Closing
  up : Bool
  cdXmit : Fifo
  cdRecv : Fifo
  txint : Bool
  writers : Nat → Option Writer
  readers : Nat → Option Reader
  opens : Nat
  closes : Nat
  queued : List (List UInt8)
  sent : List (List UInt8)
  removed : List (List UInt8)
  arrived : List (List UInt8)
  returned : List (List UInt8)

variable (fifosize : Nat)

/-- The count of a semaphore after `sem_wait` in a loop that ends only when it waits. -/
def semWaitAll (sem : Int) : Int := (if 0 < sem then 0 else sem) - 1

/-- `sem_post` of `cd_xmit.cf_sem`: the waiting task `wake` gets the count. -/
def postXmit (wake : Option Nat) (dev : Dev) : Dev :=
  { dev with
    cdXmit := { dev.cdXmit with cfSem := dev.cdXmit.cfSem + 1 }
    writers := match wake with
      | none => dev.writers
      | some t => update dev.writers t
          ((dev.writers t).map fun w => { w with ready := true }) }

def postRecv (wake : Option Nat) (dev : Dev) : Dev :=
  { dev with
    cdRecv := { dev.cdRecv with cfSem := dev.cdRecv.cfSem + 1 }
    readers := match wake with
      | none => dev.readers
      | some t => update dev.readers t
          ((dev.readers t).map fun r => { r with ready := true }) }

def canXmit (ok : Bool) (dev : Dev) : Bool × Dev :=
  if dev.cdXmit.cfHead ≠ dev.cdXmit.cfTail then
    (ok, { dev with
      sent := dev.sent ++ [dev.cdXmit.msg dev.cdXmit.cfHead]
      txint := ok })
  else (true, { dev with txint := false })

def canTxdone (ok : Bool) (wake : Option Nat) (dev : Dev) : Dev :=
  if dev.cdXmit.cfHead ≠ dev.cdXmit.cfTail then
    let dev := { dev with
      removed := dev.removed ++ [dev.cdXmit.msg dev.cdXmit.cfHead]
      cdXmit := dev.cdXmit.pop fifosize }
    let r := canXmit ok dev
    if r.1 then postXmit wake r.2 else r.2
  else dev

def Writer.left (w : Writer) : Nat := (((w.buflen : Int) - w.nsent) % 4294967296).toNat

def Writer.msg (w : Writer) : List UInt8 :=
  window w.buffer w.nsent (canMsglen (w.buffer (w.nsent + 1)))

def Writer.advance (w : Writer) : Writer := { w with nsent := w.nsent + w.msg.length }

def queueMsg (nexttail : Nat) (w : Writer) (dev : Dev) : Dev :=
  { dev with
    cdXmit := dev.cdXmit.store nexttail w.msg
    queued := dev.queued ++ [w.msg] }

/-- The writer starts the transmission if the FIFO was empty, and waits. -/
def waitRoom (ok : Bool) (t : Nat) (w : Writer) (empty : Bool) (dev : Dev) : Dev :=
  let dev := if empty then (canXmit ok dev).2 else dev
  { dev with
    cdXmit := { dev.cdXmit with cfSem := semWaitAll dev.cdXmit.cfSem }
    writers := update dev.writers t (some { w with ready := false }) }

def eagain : Int := 11

/-- The loop of `can_write` and what it returns, unless it waits. Each turn fills a slot, so
that `fifosize` turns are enough. -/
def writeLoop (ok : Bool) (t : Nat) :
    Nat → Writer → Bool → Dev → Dev × Option Int
  | 0, _, _, dev => (dev, none)
  | fuel + 1, w, empty, dev =>
    if 2 ≤ w.left then
      let nexttail := next fifosize dev.cdXmit.cfTail
      if nexttail = dev.cdXmit.cfHead then
        if w.nonblock then (dev, some (if w.nsent = 0 then -eagain else w.nsent))
        else (waitRoom ok t { w with nexttail := nexttail } empty dev, none)
      else writeLoop ok t fuel w.advance empty (queueMsg nexttail w dev)
    else (if empty then (canXmit ok dev).2 else dev, some w.nsent)

def isEmpty (f : Fifo) : Bool := decide (f.cfHead = f.cfTail)

def canWrite (ok : Bool) (t : Nat) (buffer : Nat → UInt8) (buflen : Nat) (nonblock : Bool)
    (dev : Dev) : Dev × Option Int :=
  writeLoop fifosize ok t (fifosize + 1) ⟨buffer, buflen, nonblock, 0, 0, false⟩
    (isEmpty dev.cdXmit) dev

/-- `sem_wait` of the writer has returned. Its `nexttail` is that from before. -/
def resumeWrite (ok : Bool) (t : Nat) (w : Writer) (dev : Dev) : Dev × Option Int :=
  let dev := { dev with writers := update dev.writers t none }
  let empty := isEmpty dev.cdXmit
  if w.nexttail = dev.cdXmit.cfHead then (waitRoom ok t w empty dev, none)
  else writeLoop fifosize ok t (fifosize + 1) w.advance empty (queueMsg w.nexttail w dev)

/-- The loop of `can_read`, whose test leaves out what it has read so far. -/
def readLoop (buflen : Nat) : Nat → Fifo → List (List UInt8) → Fifo × List (List UInt8)
  | 0, f, msgs => (f, msgs)
  | fuel + 1, f, msgs =>
    if buflen < (f.msg f.cfHead).length then (f, msgs)
    else
      let msgs := msgs ++ [f.msg f.cfHead]
      let f := f.pop fifosize
      if f.cfHead ≠ f.cfTail then readLoop buflen fuel f msgs else (f, msgs)

def canRead (t buflen : Nat) (nonblock : Bool) (dev : Dev) :
    Dev × Option (List (List UInt8)) :=
  let dev := { dev with readers := update dev.readers t none }
  if buflen < 2 then (dev, some [])
  else if isEmpty dev.cdRecv then
    if nonblock then (dev, some [])
    else ({ dev with
      cdRecv := { dev.cdRecv with cfSem := semWaitAll dev.cdRecv.cfSem }
      readers := update dev.readers t (some ⟨buflen, false⟩) }, none)
  else
    let r := readLoop fifosize buflen fifosize dev.cdRecv []
    ({ dev with
      cdRecv := r.1
      returned := dev.returned ++ r.2 }, some r.2)

def interruptRead (t : Nat) (dev : Dev) : Dev :=
  { dev with
    cdRecv := { dev.cdRecv with cfSem := dev.cdRecv.cfSem + 1 }
    readers := update dev.readers t none }

def canReceive (wake : Option Nat) (m : List UInt8) (dev : Dev) : Dev :=
  let nexttail := next fifosize dev.cdRecv.cfTail
  if nexttail ≠ dev.cdRecv.cfHead then
    postRecv wake { dev with
      cdRecv := dev.cdRecv.store nexttail m
      arrived := dev.arrived ++ [m] }
  else dev

/-- `can_open` and whether it succeeds; `ok` when `dev_setup` does. -/
def canOpen (ok : Bool) (dev : Dev) : Dev × Bool :=
  let tmp := (dev.cdOcount + 1) % 256
  if tmp = 0 then (dev, false)
  else if tmp = 1 then
    if ok then
      ({ dev with
        cdXmit := dev.cdXmit.reset
        cdRecv := dev.cdRecv.reset
        cdOcount := tmp
        up := true }, true)
    else (dev, false)
  else (dev, true)

/-- `can_close`, up to the loops that wait for the transmitter. -/
def canClose (dev : Dev) : Dev :=
  if 1 < dev.cdOcount then { dev with cdOcount := dev.cdOcount - 1 }
  else { dev with
    cdOcount := 0
    closing := .drain }

inductive Op
  | open (ok : Bool)
  | close
  | drained
  | shutdown
  | read (t buflen : Nat) (nonblock : Bool)
  | resumeRead (t : Nat)
  | interruptRead (t : Nat)
  | write (ok : Bool) (t : Nat) (buffer : Nat → UInt8) (buflen : Nat) (nonblock : Bool)
  | resumeWrite (ok : Bool) (t : Nat)
  | txdone (ok : Bool) (wake : Option Nat)
  | receive (wake : Option Nat) (m : List UInt8)

namespace Op

def exec : Op → Dev → Option Dev
  | .open ok, dev =>
    let r := canOpen ok dev
    some { r.1 with opens := if r.2 then dev.opens + 1 else dev.opens }
  | close, dev => some { canClose dev with closes := dev.closes + 1 }
  | drained, dev => some { dev with closing := .txempty }
  | shutdown, dev => some { dev with
      closing := .no
      up := false }
  | read t buflen nonblock, dev => some (canRead fifosize t buflen nonblock dev).1
  | resumeRead t, dev =>
    (dev.readers t).map fun r => (canRead fifosize t r.buflen false dev).1
  | .interruptRead t, dev => some (Can.interruptRead t dev)
  | write ok t buffer buflen nonblock, dev =>
    some (canWrite fifosize ok t buffer buflen nonblock dev).1
  | .resumeWrite ok t, dev =>
    (dev.writers t).map fun w => (Can.resumeWrite fifosize ok t w dev).1
  | txdone ok wake, dev => some (canTxdone fifosize ok wake dev)
  | receive wake m, dev => some (canReceive fifosize wake m dev)

def Wakes (sem : Int) (waits : Nat → Bool) : Option Nat → Prop
  | none => 0 ≤ sem
  | some t => sem < 0 ∧ waits t = true

def waitsXmit (dev : Dev) (t : Nat) : Bool := (dev.writers t).any fun w => !w.ready

def waitsRecv (dev : Dev) (t : Nat) : Bool := (dev.readers t).any fun r => !r.ready

/-- Each task is in one call at a time, a call is made on an open descriptor, and each
interrupt has its cause. -/
def valid (dev : Dev) : Op → Prop
  | .open _ => dev.closing = .no
  | close => dev.closing = .no ∧ dev.closes < dev.opens
  | drained => dev.closing = .drain ∧ dev.cdXmit.cfHead = dev.cdXmit.cfTail
  | shutdown => dev.closing = .txempty ∧ dev.txint = false
  | read t _ _ => dev.closes < dev.opens ∧ (dev.readers t).isNone ∧ (dev.writers t).isNone
  | resumeRead t => (dev.readers t).any (·.ready) = true
  | .interruptRead t => waitsRecv dev t = true
  | write _ t _ buflen _ => dev.closes < dev.opens ∧ (dev.readers t).isNone ∧
      (dev.writers t).isNone ∧ buflen < 2147483648
  | .resumeWrite _ t => (dev.writers t).any (·.ready) = true
  | txdone _ wake => dev.txint = true ∧ Wakes dev.cdXmit.cfSem (waitsXmit dev) wake
  | receive wake m => dev.up = true ∧ m.length = canMsglen (m.getD 1 0) ∧
      Wakes dev.cdRecv.cfSem (waitsRecv dev) wake

/-- From `nsent` on the buffer holds messages of at most eight data bytes, and at most one more
byte. -/
def Fits (buffer : Nat → UInt8) (buflen : Nat) : Nat → Nat → Prop
  | 0, _ => True
  | fuel + 1, nsent => nsent + 2 ≤ buflen →
      canMsglen (buffer (nsent + 1)) ≤ 10 ∧ nsent + canMsglen (buffer (nsent + 1)) ≤ buflen ∧
        Fits buffer buflen fuel (nsent + canMsglen (buffer (nsent + 1)))

def messages (buffer : Nat → UInt8) (buflen : Nat) : Nat → Nat → Nat
  | 0, _ => 0
  | fuel + 1, nsent =>
    if nsent + 2 ≤ buflen then
      messages buffer buflen fuel (nsent + canMsglen (buffer (nsent + 1))) + 1
    else 0

/-- The device is opened by one descriptor at a time, with nothing left to send; the bytes of
the messages that each fit a reader's buffer fit it together; a writer's buffer holds whole
messages, and does not fill an idle FIFO with `O_NONBLOCK`; no message was queued while a writer
waited; `dev_send` succeeds, and no message has more than eight data bytes. -/
def keeps (dev : Dev) : Op → Prop
  | .open _ => dev.cdOcount = 0 ∧ dev.cdXmit.cfHead = dev.cdXmit.cfTail
  | read _ buflen _ => ((dev.cdRecv.queue fifosize).takeWhile
      fun m => decide (m.length ≤ buflen)).flatten.length ≤ buflen
  | resumeRead t => ∀ r ∈ dev.readers t, ((dev.cdRecv.queue fifosize).takeWhile
      fun m => decide (m.length ≤ r.buflen)).flatten.length ≤ r.buflen
  | write ok _ buffer buflen nonblock => ok = true ∧ Fits buffer buflen buflen 0 ∧
      (nonblock = true → dev.cdXmit.cfHead = dev.cdXmit.cfTail →
        messages buffer buflen buflen 0 < fifosize)
  | .resumeWrite ok t => ok = true ∧ ∀ w ∈ dev.writers t, w.nexttail ≠ dev.cdXmit.cfHead →
      w.nexttail = next fifosize dev.cdXmit.cfTail
  | txdone ok _ => ok = true
  | receive _ m => m.length ≤ 10
  | _ => True

end Op

def canMachine : Machine Dev Op where
  valid dev i := i.valid dev
  exec dev i := i.exec fifosize dev

structure Start (dev : Dev) : Prop where
  fifosize_pos : 0 < fifosize
  cdOcount : dev.cdOcount = 0
  closing : dev.closing = .no
  up : dev.up = false
  cdXmit : dev.cdXmit.cfHead = 0 ∧ dev.cdXmit.cfTail = 0
  cdRecv : dev.cdRecv.cfHead = 0 ∧ dev.cdRecv.cfTail = 0
  txint : dev.txint = false
  writers : ∀ t, dev.writers t = none
  opens : dev.opens = 0 ∧ dev.closes = 0
  logs : dev.queued = [] ∧ dev.sent = [] ∧ dev.removed = [] ∧ dev.arrived = [] ∧
    dev.returned = []

/-- `order` and `onWay`: what is queued is sent in its order, and what is not removed yet is on
its way or comes after a message that is. -/
structure Correct (dev : Dev) : Prop where
  order : dev.removed <+: dev.sent ∧ dev.sent <+: dev.queued
  onWay : dev.removed ≠ dev.queued → dev.txint = true ∧
    dev.sent.length = dev.removed.length + 1
  arrival : dev.returned.Sublist dev.arrived
  opened : dev.opens = dev.closes + dev.cdOcount
  device : dev.up = true ↔ 0 < dev.cdOcount ∨ dev.closing ≠ .no

/-- The writer queues whole messages from its buffer, and returns the bytes it has taken, or
waits with the rest. -/
def Took (t : Nat) (w : Writer) (dev : Dev) (r : Dev × Option Int) : Prop :=
  ∃ msgs : List (List UInt8), r.1.queued = dev.queued ++ msgs ∧ (∀ m ∈ msgs, IsMsg m) ∧
    window w.buffer w.nsent msgs.flatten.length = msgs.flatten ∧
    w.nsent + msgs.flatten.length ≤ w.buflen ∧
    match r.2 with
    | some n => n = (w.nsent + msgs.flatten.length : Nat) ∨
        n = -eagain ∧ w.nsent + msgs.flatten.length = 0
    | none => ∃ w', r.1.writers t = some w' ∧ w'.buffer = w.buffer ∧ w'.buflen = w.buflen ∧
        w'.nsent = w.nsent + msgs.flatten.length

def Read (buflen : Nat) (dev : Dev) (r : Dev × Option (List (List UInt8))) : Prop :=
  ∀ msgs, r.2 = some msgs → r.1.returned = dev.returned ++ msgs ∧ (∀ m ∈ msgs, IsMsg m) ∧
    msgs.flatten.length ≤ buflen

namespace Op

def Honours (dev : Dev) : Op → Prop
  | read t buflen nonblock => Read buflen dev (canRead fifosize t buflen nonblock dev)
  | resumeRead t => ∀ r ∈ dev.readers t,
      Read r.buflen dev (canRead fifosize t r.buflen false dev)
  | write ok t buffer buflen nonblock => Took t ⟨buffer, buflen, nonblock, 0, 0, false⟩ dev
      (canWrite fifosize ok t buffer buflen nonblock dev)
  | .resumeWrite ok t => ∀ w ∈ dev.writers t, Took t w dev (Can.resumeWrite fifosize ok t w dev)
  | txdone ok wake =>
    (canTxdone fifosize ok wake dev).cdXmit.cfSem = dev.cdXmit.cfSem + 1 ∧
    ∀ t ∈ wake, ((canTxdone fifosize ok wake dev).writers t).any (·.ready) = true
  | _ => True

end Op

/-- `empty` is the flag of `can_write`: the transmission of what is queued was not started. -/
structure Flow (empty : Bool) (dev : Dev) : Prop where
  wf : dev.cdXmit.Wf fifosize
  short : ∀ m ∈ dev.cdXmit.queue fifosize, m.length ≤ 10
  queued : dev.queued = dev.removed ++ dev.cdXmit.queue fifosize
  sent : dev.sent = dev.removed ++ (if empty then [] else (dev.cdXmit.queue fifosize).take 1)
  txint : dev.txint = !empty
  started : empty = false → dev.cdXmit.queue fifosize ≠ []

variable {fifosize} {dev : Dev} {empty : Bool} {w : Writer} {t : Nat}

theorem isEmpty_eq (W : dev.cdXmit.Wf fifosize) :
    isEmpty dev.cdXmit = (dev.cdXmit.queue fifosize).isEmpty := by
  rw [isEmpty, Bool.eq_iff_iff]
  simp [Fifo.queue_eq_nil W]

theorem Flow.settled (F : Flow fifosize false dev) :
    Flow fifosize (isEmpty dev.cdXmit) dev := by
  have hne : isEmpty dev.cdXmit = false := by
    rw [isEmpty_eq F.wf]
    simpa using F.started rfl
  rw [hne]
  exact F

theorem Flow.start (F : Flow fifosize empty dev) : ∃ sent txint,
    (if empty then (canXmit true dev).2 else dev) =
      { dev with
        sent := sent
        txint := txint } ∧
    Flow fifosize (isEmpty dev.cdXmit) { dev with
      sent := sent
      txint := txint } := by
  cases empty with
  | false => exact ⟨dev.sent, dev.txint, rfl, F.settled⟩
  | true =>
    have hs := F.sent
    simp only [if_true, List.append_nil] at hs
    by_cases h : dev.cdXmit.cfHead = dev.cdXmit.cfTail
    · have ht : isEmpty dev.cdXmit = true := by simp [isEmpty, h]
      refine ⟨dev.sent, false, by simp [canXmit, h], ?_⟩
      rw [ht]
      exact { F with txint := rfl }
    · have ht : isEmpty dev.cdXmit = false := by simp [isEmpty, h]
      refine ⟨dev.sent ++ [dev.cdXmit.msg dev.cdXmit.cfHead], true, by simp [canXmit, h], ?_⟩
      rw [ht]
      exact { F with
        sent := by
          rw [Fifo.queue_pop F.wf h, hs]
          rfl
        txint := rfl
        started := fun _ => by
          rw [Fifo.queue_pop F.wf h]
          simp }

theorem Writer.left_eq (h : w.nsent ≤ w.buflen) (hb : w.buflen < 2147483648) :
    w.left = w.buflen - w.nsent := by
  unfold Writer.left
  omega

theorem Writer.isMsg (h : canMsglen (w.buffer (w.nsent + 1)) ≤ 10) : IsMsg w.msg := by
  have h2 := two_le_canMsglen (w.buffer (w.nsent + 1))
  have hg : w.msg.getD 1 0 = w.buffer (w.nsent + 1) := by
    have h1 : 1 < canMsglen (w.buffer (w.nsent + 1)) := by omega
    simp [Writer.msg, window, h1]
  constructor
  · rw [hg]
    exact length_window
  · exact Nat.le_trans (Nat.le_of_eq length_window) h

theorem Flow.queueMsg (F : Flow fifosize empty dev)
    (hroom : next fifosize dev.cdXmit.cfTail ≠ dev.cdXmit.cfHead) (hm : IsMsg w.msg) :
    Flow fifosize empty (queueMsg (next fifosize dev.cdXmit.cfTail) w dev) := by
  have hq := Fifo.queue_store F.wf hroom F.short hm
  exact {
    wf := F.wf.store w.msg
    short := by
      intro m hmem
      simp only [Can.queueMsg, hq, List.mem_append, List.mem_singleton] at hmem
      rcases hmem with hmem | rfl
      · exact F.short m hmem
      · exact hm.2
    queued := by simp only [Can.queueMsg, hq, F.queued, List.append_assoc]
    sent := by
      simp only [Can.queueMsg, hq, F.sent]
      cases empty with
      | true => rfl
      | false =>
        have hne := F.started rfl
        simp only [Bool.false_eq_true, if_false]
        rw [List.take_append_of_le_length]
        exact List.length_pos_iff.mpr hne
    txint := F.txint
    started := fun _ => by
      simp only [Can.queueMsg, hq]
      simp }

/-- A caller that waits has a message to queue, and the rest of its buffer fits. -/
structure Writer.Waits (w : Writer) : Prop where
  nonblock : w.nonblock = false
  more : w.nsent + 2 ≤ w.buflen
  buflen_lt : w.buflen < 2147483648
  fits : ∃ k, w.buflen ≤ w.nsent + k ∧ Op.Fits w.buffer w.buflen k w.nsent

structure Wrote (fifosize : Nat) (t : Nat) (w : Writer) (dev : Dev)
    (r : Dev × Option Int) : Prop where
  took : Took t w dev r
  flow : Flow fifosize (isEmpty r.1.cdXmit) r.1
  frame : ∃ cdXmit sent txint queued writers, r.1 = { dev with
    cdXmit := cdXmit
    sent := sent
    txint := txint
    queued := queued
    writers := writers }
  others : ∀ u, u ≠ t → r.1.writers u = dev.writers u
  waits : r.2 = none → ∃ w', r.1.writers t = some w' ∧ w'.Waits
  returns : r.2 ≠ none → r.1.writers t = dev.writers t

theorem Flow.wrote_end (F : Flow fifosize empty dev) (hle : w.nsent ≤ w.buflen) :
    Wrote fifosize t w dev (if empty then (canXmit true dev).2 else dev, some (w.nsent : Int)) := by
  obtain ⟨sent, txint, he, F'⟩ := F.start
  rw [he]
  exact {
    took := ⟨[], by simp, by simp, by simp [window], by simpa using hle, .inl (by simp)⟩
    flow := F'
    frame := ⟨_, _, _, _, _, rfl⟩
    others := fun _ _ => rfl
    waits := fun h => by cases h
    returns := fun _ => rfl }

theorem Flow.wrote_full (F : Flow fifosize false dev) (hle : w.nsent ≤ w.buflen) :
    Wrote fifosize t w dev (dev, some (if w.nsent = 0 then -eagain else w.nsent)) where
  took := by
    refine ⟨[], by simp, by simp, by simp [window], by simpa using hle, ?_⟩
    dsimp only
    split
    · exact .inr ⟨rfl, by simpa using ‹w.nsent = 0›⟩
    · exact .inl (by simp)
  flow := F.settled
  frame := ⟨_, _, _, _, _, rfl⟩
  others := fun _ _ => rfl
  waits := fun h => by cases h
  returns := fun _ => rfl

theorem Flow.wrote_wait (F : Flow fifosize empty dev) {nexttail : Nat} (hw : w.Waits) :
    Wrote fifosize t w dev
      (waitRoom true t { w with nexttail := nexttail } empty dev, none) := by
  obtain ⟨sent, txint, he, F'⟩ := F.start
  have hle := hw.more
  simp only [waitRoom, he]
  exact {
    took := ⟨[], by simp, by simp, by simp [window], by simp; omega,
      _, update_self .., rfl, rfl, by simp⟩
    flow := { F' with wf := ⟨F'.wf.head, F'.wf.tail⟩ }
    frame := ⟨_, _, _, _, _, rfl⟩
    others := fun u hu => update_of_ne hu ..
    waits := fun _ => ⟨_, update_self .., { hw with }⟩
    returns := fun h => absurd rfl h }

theorem Wrote.queueMsg {nexttail : Nat} {r : Dev × Option Int}
    (hm : IsMsg w.msg) (H : Wrote fifosize t w.advance (queueMsg nexttail w dev) r) :
    Wrote fifosize t w dev r where
  took := by
    obtain ⟨msgs, hq, hms, hwin, hl, hans⟩ := H.took
    refine ⟨w.msg :: msgs, ?_, ?_, ?_, ?_, ?_⟩
    · rw [hq]
      simp [Can.queueMsg]
    · intro m hmem
      rcases List.mem_cons.mp hmem with rfl | hmem
      · exact hm
      · exact hms m hmem
    · have hself : window w.buffer w.nsent w.msg.length = w.msg := by simp [Writer.msg]
      rw [List.flatten_cons, List.length_append, window_append, hself]
      congr 1
    · simp only [List.flatten_cons, List.length_append]
      simp only [Writer.advance] at hl
      omega
    · have hs : w.nsent + (w.msg :: msgs).flatten.length =
          w.advance.nsent + msgs.flatten.length := by
        simp only [List.flatten_cons, List.length_append, Writer.advance]
        omega
      rw [hs]
      exact hans
  flow := H.flow
  frame := by
    obtain ⟨x, s, ti, q, ws, he⟩ := H.frame
    exact ⟨x, s, ti, q, ws, he⟩
  others := H.others
  waits := H.waits
  returns := H.returns

theorem writeLoop_spec (fuel : Nat) {k : Nat} (F : Flow fifosize empty dev)
    (hfuel : fifosize ≤ fuel + dev.cdXmit.count fifosize)
    (hle : w.nsent ≤ w.buflen) (hb : w.buflen < 2147483648) (hk : w.buflen ≤ w.nsent + k)
    (hfit : Op.Fits w.buffer w.buflen k w.nsent)
    (hnb : w.nonblock = true → empty = true →
      Op.messages w.buffer w.buflen k w.nsent + dev.cdXmit.count fifosize < fifosize) :
    Wrote fifosize t w dev (writeLoop fifosize true t fuel w empty dev) := by
  induction fuel generalizing w dev k with
  | zero =>
    have hlt := Fifo.count_lt F.wf
    omega
  | succ fuel ih =>
    rw [writeLoop]
    have hleft := Writer.left_eq hle hb
    by_cases h2 : 2 ≤ w.left
    · rw [if_pos h2]
      have hmore : w.nsent + 2 ≤ w.buflen := by omega
      have hk0 : k ≠ 0 := by omega
      obtain ⟨k, rfl⟩ := Nat.exists_eq_succ_of_ne_zero hk0
      obtain ⟨hten, hin, hfit'⟩ := hfit hmore
      have hmsg : IsMsg w.msg := Writer.isMsg hten
      have hlen : w.msg.length = canMsglen (w.buffer (w.nsent + 1)) := length_window
      have htwo := two_le_canMsglen (w.buffer (w.nsent + 1))
      dsimp only
      by_cases hfull : next fifosize dev.cdXmit.cfTail = dev.cdXmit.cfHead
      · rw [if_pos hfull]
        by_cases hn : w.nonblock = true
        · rw [if_pos hn]
          have hempty : empty = false := by
            by_contra he
            have hcount := hnb hn (by simpa using he)
            rw [Op.messages, if_pos hmore] at hcount
            have := (Fifo.next_tail_eq F.wf).1 hfull
            omega
          subst hempty
          exact F.wrote_full hle
        · rw [if_neg hn]
          exact F.wrote_wait ⟨by simpa using hn, hmore, hb, k + 1, hk, hfit⟩
      · rw [if_neg hfull]
        have F' := F.queueMsg hfull hmsg
        have hc : (queueMsg (next fifosize dev.cdXmit.cfTail) w dev).cdXmit.count fifosize =
            dev.cdXmit.count fifosize + 1 := by
          have hq := congrArg List.length (Fifo.queue_store F.wf hfull F.short hmsg)
          rw [Fifo.length_queue, List.length_append, Fifo.length_queue] at hq
          exact hq
        apply Wrote.queueMsg hmsg
        apply ih (k := k) F'
        · omega
        · simp only [Writer.advance]
          omega
        · exact hb
        · simp only [Writer.advance]
          omega
        · simp only [Writer.advance, hlen]
          exact hfit'
        · intro hn he
          have hcount := hnb hn he
          rw [Op.messages, if_pos hmore] at hcount
          simp only [Writer.advance, hlen, hc]
          omega
    · rw [if_neg h2]
      exact F.wrote_end hle

variable (fifosize) in
/-- `arrival`: what came before the messages in the receive FIFO was returned or dropped by
`can_open`. -/
structure Inv (dev : Dev) : Prop where
  flow : Flow fifosize (isEmpty dev.cdXmit) dev
  recv : dev.cdRecv.Wf fifosize
  whole : ∀ m ∈ dev.cdRecv.queue fifosize, IsMsg m
  arrival : ∃ before, dev.arrived = before ++ dev.cdRecv.queue fifosize ∧
    dev.returned.Sublist before
  writers : ∀ t w, dev.writers t = some w → w.Waits
  opened : dev.opens = dev.closes + dev.cdOcount
  single : dev.cdOcount ≤ 1
  device : dev.up = true ↔ 0 < dev.cdOcount ∨ dev.closing ≠ .no
  closed : dev.closing ≠ .no → dev.cdOcount = 0

theorem Inv.correct (I : Inv fifosize dev) : Correct dev where
  order := by
    have hs := I.flow.sent
    have hq := I.flow.queued
    constructor
    · rw [hs]
      exact List.prefix_append _ _
    · rw [hs, hq, List.prefix_append_right_inj]
      split
      · exact List.nil_prefix
      · exact List.take_prefix _ _
  onWay h := by
    have hne : dev.cdXmit.queue fifosize ≠ [] := by
      intro he
      rw [I.flow.queued, he, List.append_nil] at h
      exact h rfl
    have he : isEmpty dev.cdXmit = false := by
      rw [isEmpty_eq I.flow.wf]
      simpa using hne
    have ht := I.flow.txint
    have hs := I.flow.sent
    rw [he] at ht hs
    refine ⟨ht, ?_⟩
    have hlen := List.length_pos_iff.mpr hne
    rw [hs, List.length_append]
    simp
    simp only [Fifo.length_queue] at hlen
    omega
  arrival := by
    obtain ⟨before, ha, hs⟩ := I.arrival
    rw [ha]
    exact hs.trans (List.sublist_append_left _ _)
  opened := I.opened
  device := I.device

theorem Wrote.inv (writers : Nat → Option Writer) {r : Dev × Option Int} (I : Inv fifosize dev)
    (hw : ∀ u w, writers u = some w → w.Waits)
    (H : Wrote fifosize t w { dev with writers := writers } r) : Inv fifosize r.1 := by
  have hws : ∀ u w', r.1.writers u = some w' → w'.Waits := by
    intro u w' hu
    by_cases hut : u = t
    · subst hut
      by_cases hr : r.2 = none
      · obtain ⟨w'', hw'', hok⟩ := H.waits hr
        rw [hw''] at hu
        exact Option.some.inj hu ▸ hok
      · rw [H.returns hr] at hu
        exact hw u w' hu
    · rw [H.others u hut] at hu
      exact hw u w' hu
  have hflow := H.flow
  obtain ⟨x, s, ti, q, ws, he⟩ := H.frame
  rw [he] at hws hflow ⊢
  exact { I with
    flow := hflow
    writers := hws }

theorem Inv.write (I : Inv fifosize dev) {buffer : Nat → UInt8} {buflen : Nat} {nonblock : Bool}
    (hb : buflen < 2147483648) (hfit : Op.Fits buffer buflen buflen 0)
    (hnb : nonblock = true → dev.cdXmit.cfHead = dev.cdXmit.cfTail →
      Op.messages buffer buflen buflen 0 < fifosize) :
    Wrote fifosize t ⟨buffer, buflen, nonblock, 0, 0, false⟩ dev
      (canWrite fifosize true t buffer buflen nonblock dev) := by
  apply writeLoop_spec (k := buflen) (fifosize + 1) I.flow
  · omega
  · exact Nat.zero_le _
  · exact hb
  · simp
  · exact hfit
  · intro hn he
    have hh : dev.cdXmit.cfHead = dev.cdXmit.cfTail := by simpa [isEmpty] using he
    have hq := (Fifo.queue_eq_nil I.flow.wf).2 hh
    have hc : dev.cdXmit.count fifosize = 0 := by
      rw [← Fifo.length_queue, hq]
      rfl
    rw [hc]
    exact hnb hn hh

theorem Inv.resumeWrite (I : Inv fifosize dev) (hw : w.Waits)
    (hnext : w.nexttail ≠ dev.cdXmit.cfHead →
      w.nexttail = next fifosize dev.cdXmit.cfTail) :
    Wrote fifosize t w { dev with writers := update dev.writers t none }
      (Can.resumeWrite fifosize true t w dev) := by
  have F : Flow fifosize (isEmpty dev.cdXmit)
      { dev with writers := update dev.writers t none } := { I.flow with }
  unfold Can.resumeWrite
  dsimp only
  split
  · exact F.wrote_wait hw
  · rename_i hroom
    obtain ⟨k, hk, hfit⟩ := hw.fits
    have hmore := hw.more
    have hleft := Writer.left_eq (w := w) (by omega) hw.buflen_lt
    have H := writeLoop_spec (t := t) (fifosize + 2) F (by omega) (by omega) hw.buflen_lt hk hfit
      (fun hn => by simp [hw.nonblock] at hn)
    rw [writeLoop, if_pos (by omega)] at H
    dsimp only at H
    have hnx := hnext hroom
    rw [hnx] at hroom ⊢
    rwa [if_neg hroom] at H

theorem readLoop_spec (fuel buflen : Nat) {f : Fifo} (msgs : List (List UInt8))
    (W : f.Wf fifosize) (hne : f.cfHead ≠ f.cfTail) (hfuel : f.count fifosize ≤ fuel) :
    ∃ f', f'.Wf fifosize ∧ readLoop fifosize buflen fuel f msgs =
        (f', msgs ++ (f.queue fifosize).takeWhile fun m => decide (m.length ≤ buflen)) ∧
      f.queue fifosize =
        ((f.queue fifosize).takeWhile fun m => decide (m.length ≤ buflen)) ++
          f'.queue fifosize := by
  induction fuel generalizing f msgs with
  | zero =>
    have hnil : f.queue fifosize = [] := by
      rw [← List.length_eq_zero_iff, Fifo.length_queue]
      omega
    exact absurd ((Fifo.queue_eq_nil W).1 hnil) hne
  | succ fuel ih =>
    have hq := Fifo.queue_pop W hne
    rw [readLoop]
    by_cases hlong : buflen < (f.msg f.cfHead).length
    · refine ⟨f, W, ?_, ?_⟩
      · rw [if_pos hlong, hq, List.takeWhile_cons_of_neg (by simpa using hlong), List.append_nil]
      · rw [hq, List.takeWhile_cons_of_neg (by simpa using hlong), List.nil_append]
    · have htake : ∀ l, (f.msg f.cfHead :: l).takeWhile (fun m => decide (m.length ≤ buflen)) =
          f.msg f.cfHead :: l.takeWhile fun m => decide (m.length ≤ buflen) := by
        intro l
        rw [List.takeWhile_cons, if_pos (by simpa using hlong)]
      rw [if_neg hlong, hq, htake]
      dsimp only
      by_cases hmore : (f.pop fifosize).cfHead ≠ (f.pop fifosize).cfTail
      · have hc := congrArg List.length hq
        rw [Fifo.length_queue, List.length_cons, Fifo.length_queue] at hc
        obtain ⟨f', W', hr, hs⟩ := ih (msgs ++ [f.msg f.cfHead]) W.pop hmore (by omega)
        refine ⟨f', W', ?_, ?_⟩
        · rw [if_pos hmore, hr, List.append_assoc, List.singleton_append]
        · rw [List.cons_append, ← hs]
      · have hnil := (Fifo.queue_eq_nil W.pop).2 (not_not.mp hmore)
        refine ⟨f.pop fifosize, W.pop, ?_, ?_⟩
        · rw [if_neg hmore, hnil, List.takeWhile_nil]
        · rw [hnil]
          simp

theorem Inv.read (I : Inv fifosize dev) (t buflen : Nat) (nonblock : Bool)
    (hk : ((dev.cdRecv.queue fifosize).takeWhile
      fun m => decide (m.length ≤ buflen)).flatten.length ≤ buflen) :
    Read buflen dev (canRead fifosize t buflen nonblock dev) ∧
      Inv fifosize (canRead fifosize t buflen nonblock dev).1 := by
  have J : ∀ readers, Inv fifosize { dev with readers := readers } :=
    fun _ => { I with flow := { I.flow with } }
  have hnil : Read buflen dev
      ({ dev with readers := update dev.readers t none }, some []) := by
    intro msgs hm
    cases hm
    exact ⟨by simp, by simp, by simp⟩
  unfold canRead
  dsimp only
  split
  · exact ⟨hnil, J _⟩
  · by_cases he : isEmpty dev.cdRecv = true
    · rw [if_pos he]
      split
      · exact ⟨hnil, J _⟩
      · constructor
        · intro msgs hm
          cases hm
        · exact { I with
            flow := { I.flow with }
            recv := ⟨I.recv.head, I.recv.tail⟩ }
    · rw [if_neg he]
      have hne : dev.cdRecv.cfHead ≠ dev.cdRecv.cfTail := by simpa [isEmpty] using he
      obtain ⟨f', W', hr, hs⟩ := readLoop_spec fifosize buflen [] I.recv hne
        (Nat.le_of_lt (Fifo.count_lt I.recv))
      rw [hr, List.nil_append]
      generalize (dev.cdRecv.queue fifosize).takeWhile
        (fun m => decide (m.length ≤ buflen)) = msgs at hk hs ⊢
      have hwhole := I.whole
      rw [hs] at hwhole
      constructor
      · intro ms hm
        cases hm
        exact ⟨rfl, fun m hmem => hwhole m (List.mem_append_left _ hmem), hk⟩
      · obtain ⟨before, ha, hsub⟩ := I.arrival
        exact { I with
          flow := { I.flow with }
          recv := W'
          whole := fun m hmem => hwhole m (List.mem_append_right _ hmem)
          arrival := ⟨before ++ msgs, by rw [ha, hs, List.append_assoc],
            hsub.append (List.Sublist.refl msgs)⟩ }

theorem Inv.post (I : Inv fifosize dev) (wake : Option Nat) :
    Inv fifosize (postXmit wake dev) := by
  have hw : ∀ u w, (postXmit wake dev).writers u = some w → w.Waits := by
    intro u w hu
    cases wake with
    | none => exact I.writers u w hu
    | some t =>
      by_cases hut : u = t
      · subst hut
        simp only [postXmit, update_self, Option.map_eq_some_iff] at hu
        obtain ⟨w', hw', rfl⟩ := hu
        exact { I.writers u w' hw' with }
      · simp only [postXmit, update_of_ne hut] at hu
        exact I.writers u w hu
  exact { I with
    flow := { I.flow with wf := ⟨I.flow.wf.head, I.flow.wf.tail⟩ }
    writers := hw }

theorem Inv.txdone (I : Inv fifosize dev) (wake : Option Nat) (ht : dev.txint = true) :
    ∃ s, Inv fifosize s ∧ canTxdone fifosize true wake dev = postXmit wake s ∧
      s.cdXmit.cfSem = dev.cdXmit.cfSem ∧ s.writers = dev.writers := by
  have hne : dev.cdXmit.cfHead ≠ dev.cdXmit.cfTail := by
    have h := I.flow.txint
    rw [ht] at h
    simpa [isEmpty] using h
  have hq := Fifo.queue_pop I.flow.wf hne
  have hflow := I.flow
  have hne' : isEmpty dev.cdXmit = false := by simpa [isEmpty] using hne
  rw [hne'] at hflow
  have F : Flow fifosize true { dev with
      removed := dev.removed ++ [dev.cdXmit.msg dev.cdXmit.cfHead]
      cdXmit := dev.cdXmit.pop fifosize
      txint := false } :=
    { wf := hflow.wf.pop
      short := fun m hmem => hflow.short m (by rw [hq]; exact List.mem_cons_of_mem _ hmem)
      queued := by
        have h := hflow.queued
        rw [hq] at h
        simpa using h
      sent := by
        have h := hflow.sent
        rw [hq] at h
        simpa using h
      txint := rfl
      started := fun h => by cases h }
  obtain ⟨sent, txint, he, F'⟩ := F.start
  have hx : (canXmit true { dev with
      removed := dev.removed ++ [dev.cdXmit.msg dev.cdXmit.cfHead]
      cdXmit := dev.cdXmit.pop fifosize }).2 = _ :=
    Eq.trans (by unfold canXmit; split <;> rfl) he
  refine ⟨{ dev with
      removed := dev.removed ++ [dev.cdXmit.msg dev.cdXmit.cfHead]
      cdXmit := dev.cdXmit.pop fifosize
      sent := sent
      txint := txint }, { I with flow := F' }, ?_, rfl, rfl⟩
  have h1 : ∀ d : Dev, (canXmit true d).1 = true := by
    intro d
    unfold canXmit
    split <;> rfl
  rw [canTxdone, if_pos hne]
  dsimp only
  rw [h1, if_pos rfl, hx]

theorem Inv.receive (I : Inv fifosize dev) (wake : Option Nat) {m : List UInt8} (hm : IsMsg m) :
    Inv fifosize (canReceive fifosize wake m dev) := by
  unfold canReceive
  dsimp only
  split
  · rename_i hroom
    have hq := Fifo.queue_store I.recv hroom (fun x hx => (I.whole x hx).2) hm
    obtain ⟨before, ha, hsub⟩ := I.arrival
    have W := I.recv.store m
    have J : ∀ sem readers, Inv fifosize { dev with
        cdRecv := { dev.cdRecv.store (next fifosize dev.cdRecv.cfTail) m with cfSem := sem }
        arrived := dev.arrived ++ [m]
        readers := readers } := by
      intro sem readers
      have hq' : ({ dev.cdRecv.store (next fifosize dev.cdRecv.cfTail) m with
          cfSem := sem } : Fifo).queue fifosize = dev.cdRecv.queue fifosize ++ [m] := hq
      exact { I with
        flow := { I.flow with }
        recv := ⟨W.head, W.tail⟩
        whole := by
          intro x hx
          dsimp only at hx
          rw [hq', List.mem_append, List.mem_singleton] at hx
          rcases hx with hx | rfl
          · exact I.whole x hx
          · exact hm
        arrival := ⟨before, by
          dsimp only
          rw [hq', ha, List.append_assoc], hsub⟩ }
    exact J _ _
  · exact I

theorem Inv.open (I : Inv fifosize dev) (ok : Bool) (hc : dev.closing = .no)
    (h0 : dev.cdOcount = 0) (he : dev.cdXmit.cfHead = dev.cdXmit.cfTail) :
    Inv fifosize { (canOpen ok dev).1 with
      opens := if (canOpen ok dev).2 then dev.opens + 1 else dev.opens } := by
  cases ok with
  | false =>
    have hr : canOpen false dev = (dev, false) := by simp [canOpen, h0]
    rw [hr]
    exact { I with flow := { I.flow with } }
  | true =>
    have hr : canOpen true dev = ({ dev with
        cdXmit := dev.cdXmit.reset
        cdRecv := dev.cdRecv.reset
        cdOcount := 1
        up := true }, true) := by simp [canOpen, h0]
    have hflow := I.flow
    have hempty : isEmpty dev.cdXmit = true := by simp [isEmpty, he]
    have hq := (Fifo.queue_eq_nil hflow.wf).2 he
    have hopens := I.opened
    rw [hempty] at hflow
    obtain ⟨before, ha, hsub⟩ := I.arrival
    rw [hr]
    exact { I with
      flow :=
        { wf := hflow.wf.reset
          short := by simp
          queued := by
            have h := hflow.queued
            rw [hq] at h
            simpa using h
          sent := hflow.sent
          txint := hflow.txint
          started := fun h => by simp [isEmpty, Fifo.reset] at h }
      recv := I.recv.reset
      whole := by simp
      arrival := ⟨dev.arrived, by simp, by
        rw [ha]
        exact hsub.trans (List.sublist_append_left _ _)⟩
      opened := by
        simp only [if_true]
        omega
      single := Nat.le_refl 1
      device := by simp
      closed := fun h => absurd hc h }

theorem Inv.close (I : Inv fifosize dev) (hlt : dev.closes < dev.opens) :
    Inv fifosize { canClose dev with closes := dev.closes + 1 } := by
  have hopens := I.opened
  have hone := I.single
  have h1 : dev.cdOcount = 1 := by omega
  have hr : canClose dev = { dev with
      cdOcount := 0
      closing := .drain } := by simp [canClose, h1]
  have hup : dev.up = true := I.device.2 (.inl (by omega))
  rw [hr]
  exact { I with
    flow := { I.flow with }
    opened := by
      dsimp only
      omega
    single := Nat.zero_le 1
    device := by simp [hup]
    closed := fun _ => rfl }

theorem Inv.step (I : Inv fifosize dev) {i : Op} {dev' : Dev} (hv : i.valid dev)
    (hk : i.keeps fifosize dev) (h : i.exec fifosize dev = some dev') :
    Inv fifosize dev' := by
  cases i with
  | «open» ok => exact Option.some.inj h ▸ I.open ok hv hk.1 hk.2
  | close => exact Option.some.inj h ▸ I.close hv.2
  | drained =>
    have J : Inv fifosize { dev with closing := .txempty } :=
      { I with
        flow := { I.flow with }
        device := by simp [I.device, hv.1]
        closed := fun _ => I.closed (by simp [hv.1]) }
    exact Option.some.inj h ▸ J
  | shutdown =>
    have J : Inv fifosize { dev with
        closing := .no
        up := false } :=
      { I with
        flow := { I.flow with }
        device := by simp [I.closed (by simp [hv.1])]
        closed := fun hn => absurd rfl hn }
    exact Option.some.inj h ▸ J
  | read t buflen nonblock => exact Option.some.inj h ▸ (I.read t buflen nonblock hk).2
  | resumeRead t =>
    obtain ⟨r, hr, rfl⟩ := Option.map_eq_some_iff.mp h
    exact (I.read t r.buflen false (hk r hr)).2
  | interruptRead t =>
    have J : Inv fifosize (Can.interruptRead t dev) :=
      { I with
        flow := { I.flow with }
        recv := ⟨I.recv.head, I.recv.tail⟩ }
    exact Option.some.inj h ▸ J
  | write ok t buffer buflen nonblock =>
    obtain ⟨rfl, hfit, hnb⟩ := hk
    have H := I.write (t := t) hv.2.2.2 hfit hnb
    have J := Wrote.inv dev.writers I I.writers H
    exact Option.some.inj h ▸ J
  | resumeWrite ok t =>
    obtain ⟨rfl, hnext⟩ := hk
    obtain ⟨w, hw, rfl⟩ := Option.map_eq_some_iff.mp h
    refine (I.resumeWrite (I.writers t w hw) (hnext w hw)).inv _ I ?_
    intro u w' hu
    by_cases hut : u = t
    · subst hut
      simp at hu
    · rw [update_of_ne hut] at hu
      exact I.writers u w' hu
  | txdone ok wake =>
    obtain ⟨s, J, he, -⟩ := I.txdone wake hv.1
    rw [show ok = true from hk] at h
    simp only [Op.exec, he, Option.some.injEq] at h
    exact h ▸ J.post wake
  | receive wake m => exact Option.some.inj h ▸ I.receive wake ⟨hv.2.1, hk⟩

theorem Inv.honours (I : Inv fifosize dev) {i : Op} (hv : i.valid dev)
    (hk : i.keeps fifosize dev) : i.Honours fifosize dev := by
  cases i with
  | read t buflen nonblock => exact (I.read t buflen nonblock hk).1
  | resumeRead t => exact fun r hr => (I.read t r.buflen false (hk r hr)).1
  | write ok t buffer buflen nonblock =>
    obtain ⟨rfl, hfit, hnb⟩ := hk
    exact (I.write hv.2.2.2 hfit hnb).took
  | resumeWrite ok t =>
    obtain ⟨rfl, hnext⟩ := hk
    exact fun w hw => (I.resumeWrite (I.writers t w hw) (hnext w hw)).took
  | txdone ok wake =>
    obtain ⟨s, -, he, hsem, hws⟩ := I.txdone wake hv.1
    rw [show ok = true from hk, Op.Honours, he]
    refine ⟨by simp [postXmit, hsem], ?_⟩
    rintro t rfl
    have hwait := hv.2.2
    simp only [Op.waitsXmit] at hwait
    cases hw : dev.writers t with
    | none => simp [hw] at hwait
    | some w => simp [postXmit, hws, hw]
  | _ => trivial

theorem Start.inv (h : Start fifosize dev) : Inv fifosize dev := by
  have hx : dev.cdXmit.cfHead = dev.cdXmit.cfTail := h.cdXmit.1.trans h.cdXmit.2.symm
  have hpos := h.fifosize_pos
  have W : dev.cdXmit.Wf fifosize := ⟨by rw [h.cdXmit.1]; exact hpos, by
    rw [h.cdXmit.2]
    exact hpos⟩
  have Wr : dev.cdRecv.Wf fifosize := ⟨by rw [h.cdRecv.1]; exact hpos, by
    rw [h.cdRecv.2]
    exact hpos⟩
  have hqx := (Fifo.queue_eq_nil W).2 hx
  have hqr := (Fifo.queue_eq_nil Wr).2 (h.cdRecv.1.trans h.cdRecv.2.symm)
  have hempty : isEmpty dev.cdXmit = true := by simp [isEmpty, hx]
  obtain ⟨h1, h2, h3, h4, h5⟩ := h.logs
  exact {
    flow :=
      { wf := W
        short := by simp [hqx]
        queued := by simp [h1, h3, hqx]
        sent := by simp [h2, h3, hempty]
        txint := by simp [h.txint, hempty]
        started := fun hf => by simp [hempty] at hf }
    recv := Wr
    whole := by simp [hqr]
    arrival := ⟨[], by simp [h4, hqr], by simp [h5]⟩
    writers := fun t w hw => by simp [h.writers t] at hw
    opened := by simp [h.opens.1, h.opens.2, h.cdOcount]
    single := by simp [h.cdOcount]
    device := by simp [h.up, h.cdOcount, h.closing]
    closed := fun _ => h.cdOcount }

/-- In every run whose calls keep to what the FIFOs can do, messages go through in order and
whole, and the device is open while it is used. -/
theorem can_messages
    (h : Reach (canMachine fifosize) (Start fifosize) (fun dev i => i.keeps fifosize dev) dev) :
    Correct dev ∧
      ∀ i : Op, i.valid dev → i.keeps fifosize dev → i.Honours fifosize dev := by
  have I : Inv fifosize dev :=
    h.invariant (fun _ h0 => h0.inv) fun _ _ _ I hv hk he => I.step hv hk he
  exact ⟨I.correct, fun _ hv hk => I.honours hv hk⟩

instance decidableFits (buffer : Nat → UInt8) (buflen : Nat) :
    (fuel nsent : Nat) → Decidable (Op.Fits buffer buflen fuel nsent)
  | 0, _ => isTrue trivial
  | fuel + 1, nsent =>
    have := decidableFits buffer buflen fuel (nsent + canMsglen (buffer (nsent + 1)))
    inferInstanceAs (Decidable (nsent + 2 ≤ buflen →
      canMsglen (buffer (nsent + 1)) ≤ 10 ∧ nsent + canMsglen (buffer (nsent + 1)) ≤ buflen ∧
        Op.Fits buffer buflen fuel (nsent + canMsglen (buffer (nsent + 1)))))

instance decidableWakes (sem : Int) (waits : Nat → Bool) (wake : Option Nat) :
    Decidable (Op.Wakes sem waits wake) :=
  match wake with
  | none => inferInstanceAs (Decidable (0 ≤ sem))
  | some t => inferInstanceAs (Decidable (sem < 0 ∧ waits t = true))

instance decidableCanValid (fifosize : Nat) (dev : Dev) (i : Op) :
    Decidable ((canMachine fifosize).valid dev i) :=
  match i with
  | .open _ => inferInstanceAs (Decidable (dev.closing = .no))
  | .close => inferInstanceAs (Decidable (dev.closing = .no ∧ dev.closes < dev.opens))
  | .drained => inferInstanceAs (Decidable (dev.closing = .drain ∧
      dev.cdXmit.cfHead = dev.cdXmit.cfTail))
  | .shutdown => inferInstanceAs (Decidable (dev.closing = .txempty ∧ dev.txint = false))
  | .read t _ _ => inferInstanceAs (Decidable (dev.closes < dev.opens ∧
      (dev.readers t).isNone ∧ (dev.writers t).isNone))
  | .resumeRead t => inferInstanceAs (Decidable ((dev.readers t).any (·.ready) = true))
  | .interruptRead t => inferInstanceAs (Decidable (Op.waitsRecv dev t = true))
  | .write _ t _ buflen _ => inferInstanceAs (Decidable (dev.closes < dev.opens ∧
      (dev.readers t).isNone ∧ (dev.writers t).isNone ∧ buflen < 2147483648))
  | .resumeWrite _ t => inferInstanceAs (Decidable ((dev.writers t).any (·.ready) = true))
  | .txdone _ wake => inferInstanceAs (Decidable (dev.txint = true ∧
      Op.Wakes dev.cdXmit.cfSem (Op.waitsXmit dev) wake))
  | .receive wake m => inferInstanceAs (Decidable (dev.up = true ∧
      m.length = canMsglen (m.getD 1 0) ∧ Op.Wakes dev.cdRecv.cfSem (Op.waitsRecv dev) wake))

instance decidableCanKeeps (fifosize : Nat) (dev : Dev) (i : Op) :
    Decidable (i.keeps fifosize dev) :=
  match i with
  | .open _ => inferInstanceAs (Decidable (dev.cdOcount = 0 ∧
      dev.cdXmit.cfHead = dev.cdXmit.cfTail))
  | .read _ buflen _ => inferInstanceAs (Decidable (((dev.cdRecv.queue fifosize).takeWhile
      fun m => decide (m.length ≤ buflen)).flatten.length ≤ buflen))
  | .resumeRead t => inferInstanceAs (Decidable (∀ r ∈ dev.readers t,
      ((dev.cdRecv.queue fifosize).takeWhile
        fun m => decide (m.length ≤ r.buflen)).flatten.length ≤ r.buflen))
  | .write ok _ buffer buflen nonblock => inferInstanceAs (Decidable (ok = true ∧
      Op.Fits buffer buflen buflen 0 ∧
      (nonblock = true → dev.cdXmit.cfHead = dev.cdXmit.cfTail →
        Op.messages buffer buflen buflen 0 < fifosize)))
  | .resumeWrite ok t => inferInstanceAs (Decidable (ok = true ∧ ∀ w ∈ dev.writers t,
      w.nexttail ≠ dev.cdXmit.cfHead → w.nexttail = next fifosize dev.cdXmit.cfTail))
  | .txdone ok _ => inferInstanceAs (Decidable (ok = true))
  | .receive _ m => inferInstanceAs (Decidable (m.length ≤ 10))
  | .close => inferInstanceAs (Decidable True)
  | .drained => inferInstanceAs (Decidable True)
  | .shutdown => inferInstanceAs (Decidable True)
  | .interruptRead _ => inferInstanceAs (Decidable True)

def registered : Dev where
  cdOcount := 0
  closing := .no
  up := false
  cdXmit := ⟨0, 0, 0, fun _ => 0⟩
  cdRecv := ⟨0, 0, 0, fun _ => 0⟩
  txint := false
  writers _ := none
  readers _ := none
  opens := 0
  closes := 0
  queued := []
  sent := []
  removed := []
  arrived := []
  returned := []

theorem registered_start : Start 3 registered :=
  ⟨by decide, rfl, rfl, rfl, ⟨rfl, rfl⟩, ⟨rfl, rfl⟩, rfl, fun _ => rfl, ⟨rfl, rfl⟩,
    ⟨rfl, rfl, rfl, rfl, rfl⟩⟩

/-- Three messages of one, none and one data bytes. -/
def threeMessages (k : Nat) : UInt8 := [0, 1, 7, 0, 0, 0, 1, 9].getD k 0

def canRun : List Op :=
  [.open true, .write true 1 threeMessages 8 false, .read 2 10 false, .txdone true (some 1),
    .resumeWrite true 1, .receive (some 2) [0, 2, 5, 6], .resumeRead 2, .txdone true none, .close,
    .txdone true none, .drained, .shutdown]

theorem can_messages_run : ∃ dev, runAll (canMachine 3) (fun dev i => i.keeps 3 dev) registered
      canRun = some dev ∧
      (dev.removed = [[0, 1, 7], [0, 0], [0, 1, 9]] ∧ dev.returned = [[0, 2, 5, 6]]) ∧
    (Correct dev ∧ ∀ i : Op, i.valid dev → i.keeps 3 dev → i.Honours 3 dev) :=
  have h : ∃ dev, runAll (canMachine 3) (fun dev i => i.keeps 3 dev) registered canRun =
      some dev ∧
      (dev.removed = [[0, 1, 7], [0, 0], [0, 1, 9]] ∧ dev.returned = [[0, 2, 5, 6]]) := by
    decide +kernel
  h.elim fun dev hs => ⟨dev, hs.1, hs.2, can_messages (.runAll (.init registered_start) hs.1)⟩

/-- The second of two descriptors is not counted. -/
theorem second_open_uncounted : ¬ ∀ dev : Dev, Reachable (canMachine 3) (Start 3) dev →
    Correct dev := by
  intro hall
  have hr : ∃ dev, runAll (canMachine 3) (fun _ _ => True) registered
      [.open true, .open true] = some dev ∧ dev.opens = 2 ∧ dev.closes = 0 ∧
      dev.cdOcount = 1 := by
    decide +kernel
  obtain ⟨dev, hs, h1, h2, h3⟩ := hr
  have hc := (hall dev (.runAll (.init registered_start) hs)).opened
  omega

end NuttxAvr32.Can
