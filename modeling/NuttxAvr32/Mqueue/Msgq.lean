import NuttxAvr32.Sched.Tcb

/-! # Message queues: opening, closing, unlinking

Queues, descriptors and tasks are named by their addresses; `NULL` and a failed
call are zero. An address that `kmalloc` returns is an argument, zero where it has
no memory. Messages are not modelled here: what these functions do does not depend
on them.
-/

namespace NuttxAvr32.Mqueue

open Function (update)

abbrev oCreat : Nat := 0x04
abbrev oExcl : Nat := 0x08
abbrev mqMaxMsgs : Int := 16
abbrev numMsgDescriptors : Nat := 24

def wrapInt16 (x : Int) : Int := Int.bmod x (2 ^ 16)

structure Msgq where
  name : String
  maxmsgs : Int
  maxmsgsize : Int
  nconnect : Int
  unlinked : Bool
  ntmqdes : Nat
  ntpid : Nat
  ntsigno : Nat
  ntvalue : Nat
deriving Repr

structure MqDes where
  msgq : Nat
  oflags : Nat
deriving Repr

structure MqAttr where
  maxmsg : Int
  msgsize : Int

/-- The lists of the system and what is at the addresses. `memory` holds the queues
that `kzmalloc` has given and `sched_free` has not taken back. -/
structure Queues where
  gMsgqueues : List Nat
  gDesfree : List Nat
  gDesalloc : List Nat
  memory : List Nat
  msgq : Nat → Msgq
  des : Nat → MqDes
  msgdesq : Nat → List Nat

def blockDes (base : Nat) : List Nat := List.range' base numMsgDescriptors

def mqDesblockalloc (base : Nat) (s : Queues) : Queues :=
  if base ≠ 0 then
    { s with gDesalloc := s.gDesalloc ++ [base], gDesfree := s.gDesfree ++ blockDes base }
  else s

def mqInitialize (base : Nat) : Queues :=
  mqDesblockalloc base
    { gMsgqueues := []
      gDesfree := []
      gDesalloc := []
      memory := []
      msgq _ := ⟨"", 0, 0, 0, false, 0, 0, 0, 0⟩
      des _ := ⟨0, 0⟩
      msgdesq _ := [] }

def mqFindnamed (mqName : String) (s : Queues) : Nat :=
  (s.gMsgqueues.find? fun q => (s.msgq q).name = mqName).getD 0

/-- `base` is the memory for another block, where one is needed. -/
def mqDesalloc (base : Nat) (s : Queues) : Queues × Nat :=
  let s := if s.gDesfree = [] then mqDesblockalloc base s else s
  match s.gDesfree with
  | [] => (s, 0)
  | mqdes :: free => ({ s with gDesfree := free }, mqdes)

def mqDescreate (mtcb msgq oflags base : Nat) (s : Queues) : Queues × Nat :=
  let r := mqDesalloc base s
  if r.2 ≠ 0 then
    ({ r.1 with
      des := update r.1.des r.2 ⟨msgq, oflags⟩
      msgdesq := update r.1.msgdesq mtcb (r.1.msgdesq mtcb ++ [r.2]) }, r.2)
  else (r.1, 0)

/-- A queue as `mq_open` creates it; `maxBytes` is `MQ_MAX_BYTES`. -/
def newMsgq (maxBytes : Int) (mqName : String) (attr : Option MqAttr) : Msgq where
  name := mqName
  maxmsgs :=
    match attr with
    | some a => wrapInt16 a.maxmsg
    | none => mqMaxMsgs
  maxmsgsize :=
    match attr with
    | some a => if a.msgsize ≤ maxBytes then wrapInt16 a.msgsize else maxBytes
    | none => maxBytes
  nconnect := 1
  unlinked := false
  ntmqdes := 0
  ntpid := 0
  ntsigno := 0
  ntvalue := 0

/-- `mem` is the memory that `kzmalloc` has for a new queue. -/
def mqOpen (maxBytes : Int) (rtcb : Nat) (mqName : String) (oflags : Nat) (attr : Option MqAttr)
    (mem base : Nat) (s : Queues) : Queues × Nat :=
  if mqName.length = 0 then (s, 0)
  else
    let msgq := mqFindnamed mqName s
    if msgq ≠ 0 then
      if oflags &&& oCreat = 0 ∨ oflags &&& oExcl = 0 then
        let r := mqDescreate rtcb msgq oflags base s
        if r.2 ≠ 0 then
          let q := r.1.msgq msgq
          ({ r.1 with
            msgq := update r.1.msgq msgq
              { q with nconnect := wrapInt16 (q.nconnect + 1) } }, r.2)
        else r
      else (s, 0)
    else if oflags &&& oCreat ≠ 0 ∧ mem ≠ 0 then
      let r := mqDescreate rtcb mem oflags base s
      if r.2 ≠ 0 then
        ({ r.1 with
          msgq := update r.1.msgq mem (newMsgq maxBytes mqName attr)
          memory := mem :: r.1.memory
          gMsgqueues := r.1.gMsgqueues ++ [mem] }, r.2)
      else r
    else (s, 0)

/-- Takes a queue off the list; then `mq_msgqfree` frees it. -/
def mqRemove (msgq : Nat) (s : Queues) : Queues :=
  { s with gMsgqueues := s.gMsgqueues.erase msgq, memory := s.memory.erase msgq }

def Msgq.disconnect (mqdes : Nat) (q : Msgq) : Msgq :=
  let q :=
    if q.ntmqdes = mqdes then { q with ntpid := 0, ntsigno := 0, ntvalue := 0, ntmqdes := 0 } else q
  if q.nconnect ≠ 0 then { q with nconnect := wrapInt16 (q.nconnect - 1) } else q

def mqClose (rtcb mqdes : Nat) (s : Queues) : Queues :=
  if mqdes = 0 then s
  else
    let s := { s with msgdesq := update s.msgdesq rtcb ((s.msgdesq rtcb).erase mqdes) }
    let msgq := (s.des mqdes).msgq
    let q := (s.msgq msgq).disconnect mqdes
    let s := { s with msgq := update s.msgq msgq q }
    let s := if q.nconnect = 0 ∧ q.unlinked = true then mqRemove msgq s else s
    { s with gDesfree := s.gDesfree ++ [mqdes] }

/-- Returns whether there was a queue of this name. -/
def mqUnlink (mqName : String) (s : Queues) : Queues × Bool :=
  let msgq := mqFindnamed mqName s
  if msgq ≠ 0 then
    if (s.msgq msgq).nconnect = 0 then (mqRemove msgq s, true)
    else
      ({ s with msgq := update s.msgq msgq { s.msgq msgq with unlinked := true } }, true)
  else (s, false)

/-! ## Tasks

A task starts with a TCB that is filled with zeros. Neither `task_deletecurrent`
nor `task_delete` looks at `msgdesq`: `sched_releasetcb` frees the TCB with it. -/

def taskCreate (tcb : Nat) (s : Queues) : Queues :=
  { s with msgdesq := update s.msgdesq tcb [] }

def schedReleasetcb (tcb : Nat) (s : Queues) : Queues :=
  { s with msgdesq := update s.msgdesq tcb [] }

end NuttxAvr32.Mqueue
