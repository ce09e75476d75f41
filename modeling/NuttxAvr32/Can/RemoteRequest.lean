import NuttxAvr32.Lib.Runs

/-! # Remote requests on a CAN device

`can_rtrread`, the part of `can_receive` that answers it, and the slots in `cd_rtr`. The data of
a message is a memory that starts at `cm_data`, since `CAN_DLC` can exceed its eight bytes.
-/

namespace NuttxAvr32.Can.Rtr

open Runs

def canId (hdr : UInt16) : UInt16 := hdr >>> 5

def canDlc (hdr : UInt16) : Nat := (hdr &&& 15).toNat

structure CanMsg where
  cmHdr : UInt16
  cmData : Nat → UInt8

/-- `*dest++ = *data++` for each byte that `CAN_DLC` counts. -/
def CanMsg.receive (hdr : UInt16) (data : Nat → UInt8) (cursor : Nat) (old : CanMsg) : CanMsg :=
  ⟨hdr, fun k => if k < canDlc hdr then data (cursor + k) else old.cmData k⟩

structure RtrWait where
  crSem : Nat
  crId : UInt16
  crMsg : Option Nat
deriving DecidableEq

structure CanioctlRtr where
  ciId : UInt16
  ciMsg : Option Nat

/-- `msgs` are the messages of the callers by their address, and `waiting` the tasks in
`sem_wait(&wait->cr_sem)` with the index of their slot. -/
structure Dev where
  cdNpendrtr : Nat
  cdRtr : List RtrWait
  cfHead : Nat
  cfTail : Nat
  cfSem : Nat
  cfBuffer : Nat → CanMsg
  msgs : Nat → CanMsg
  waiting : List (Nat × Nat)

def enomem : Int := 12

namespace Dev

def semPost (i : Nat) (dev : Dev) : Dev :=
  match dev.waiting.find? fun w => w.2 = i with
  | some w => { dev with waiting := dev.waiting.erase w }
  | none => { dev with cdRtr := dev.cdRtr.modify i fun w => { w with crSem := w.crSem + 1 } }

/-- `sem_wait(&wait->cr_sem)` of task `t`: its result, or none if it waits. -/
def semWait (t i : Nat) (dev : Dev) : Option Int × Dev :=
  match dev.cdRtr[i]? with
  | some w =>
    if 0 < w.crSem then
      (some 0, { dev with cdRtr := dev.cdRtr.modify i fun w => { w with crSem := w.crSem - 1 } })
    else (none, { dev with waiting := dev.waiting ++ [(t, i)] })
  | none => (none, dev)

end Dev

def findSlot (rtr : CanioctlRtr) : Nat → List RtrWait → Option Nat
  | _, [] => none
  | i, _ :: slots => if rtr.ciMsg = none then some i else findSlot rtr (i + 1) slots

def canRtrread (t : Nat) (rtr : CanioctlRtr) (ret : Int) (dev : Dev) : Option Int × Dev :=
  match findSlot rtr 0 dev.cdRtr with
  | none => (some (-enomem), dev)
  | some i =>
    let dev := { dev with
      cdRtr := dev.cdRtr.modify i fun w => { w with
        crId := rtr.ciId
        crMsg := rtr.ciMsg }
      cdNpendrtr := (dev.cdNpendrtr + 1) % 256 }
    if ret = 0 then dev.semWait t i else (some ret, dev)

def interrupt (t : Nat) (dev : Dev) : Dev :=
  { dev with waiting := dev.waiting.filter fun w => w.1 ≠ t }

/-- The loop of `can_receive` over the slots. The copy uses the same index, and moves `data`
on. -/
def rtrLoop (hdr : UInt16) (data : Nat → UInt8) : Nat → Nat → Nat → Dev → Nat × Dev
  | 0, _, cursor, dev => (cursor, dev)
  | fuel + 1, i, cursor, dev =>
    match dev.cdRtr[i]? with
    | none => (cursor, dev)
    | some rtr =>
      match rtr.crMsg with
      | none => rtrLoop hdr data fuel (i + 1) cursor dev
      | some m =>
        if canId hdr = rtr.crId then
          let dev := { dev with
            msgs := fun x => if x = m then (dev.msgs m).receive hdr data cursor else dev.msgs x
            cdRtr := dev.cdRtr.modify i fun w => { w with crMsg := none } }
          rtrLoop hdr data fuel (canDlc hdr + 1) (cursor + canDlc hdr) (dev.semPost i)
        else rtrLoop hdr data fuel (i + 1) cursor dev

/-- `can_receive`. Each match frees a slot, so that the loop ends within the given turns. -/
def canReceive (fifosize : Nat) (hdr : UInt16) (data : Nat → UInt8) (dev : Dev) : Int × Dev :=
  let nexttail := if fifosize ≤ dev.cfTail + 1 then 0 else dev.cfTail + 1
  let n := dev.cdRtr.length
  let r := if 0 < dev.cdNpendrtr then rtrLoop hdr data ((n + 1) * (n + 1)) 0 0 dev else (0, dev)
  let dev := r.2
  if nexttail ≠ dev.cfHead then
    (0, { dev with
      cfBuffer := fun x =>
        if x = dev.cfTail then (dev.cfBuffer x).receive hdr data r.1 else dev.cfBuffer x
      cfTail := nexttail
      cfSem := dev.cfSem + 1 })
  else (-enomem, dev)

/-- The loop of `can_register` over the `n` slots of a device that is all zero. -/
def canRegister : Nat → Dev → Dev
  | 0, dev => dev
  | n + 1, dev => canRegister n { dev with
      cdRtr := dev.cdRtr ++ [⟨0, 0, none⟩]
      cdNpendrtr := (dev.cdNpendrtr + 255) % 256 }

inductive Op
  | rtrread (t : Nat) (rtr : CanioctlRtr) (ret : Int)
  | interrupt (t : Nat)
  | receive (hdr : UInt16) (data : Nat → UInt8)

namespace Op

def exec (fifosize : Nat) : Op → Dev → Dev
  | rtrread t rtr ret, dev => (canRtrread t rtr ret dev).2
  | interrupt t, dev => Rtr.interrupt t dev
  | receive hdr data, dev => (canReceive fifosize hdr data dev).2

/-- A task that waits calls nothing, and `ci_msg` is not null. -/
def valid (dev : Dev) : Op → Prop
  | rtrread t rtr _ => rtr.ciMsg ≠ none ∧ ∀ w ∈ dev.waiting, w.1 ≠ t
  | _ => True

end Op

def rtrMachine (fifosize : Nat) : Machine Dev Op where
  valid dev i := i.valid dev
  exec dev i := some (i.exec fifosize dev)

/-- `can_register` has run on a device with all fields zero. -/
def Start (npendingrtr : Nat) (dev : Dev) : Prop :=
  ∃ zero : Dev, zero.cdNpendrtr = 0 ∧ zero.cdRtr = [] ∧ zero.waiting = [] ∧
    dev = canRegister npendingrtr zero

def pending (dev : Dev) : Nat := dev.cdRtr.countP fun w => w.crMsg.isSome

structure Correct (fifosize : Nat) (dev : Dev) : Prop where
  owner : ∀ i w, dev.cdRtr[i]? = some w → w.crMsg.isSome →
    dev.waiting.countP (fun x => x.2 = i) = 1
  npendrtr : dev.cdNpendrtr = pending dev
  enomem : ∀ t rtr ret, rtr.ciMsg ≠ none → (canRtrread t rtr ret dev).1 = some (-enomem) →
    ret = -Rtr.enomem ∨ pending dev = dev.cdRtr.length
  answered : ∀ hdr data i w m, dev.cdRtr[i]? = some w → w.crMsg = some m → canId hdr = w.crId →
    ((canReceive fifosize hdr data dev).2.msgs m).cmHdr = hdr ∧
    (∀ k < canDlc hdr, ((canReceive fifosize hdr data dev).2.msgs m).cmData k = data k) ∧
    (canReceive fifosize hdr data dev).2.waiting.countP (fun x => x.2 = i) = 0
  returned : ∀ hdr data m, (∀ w ∈ dev.cdRtr, w.crMsg ≠ some m) →
    (canReceive fifosize hdr data dev).2.msgs m = dev.msgs m
  queued : ∀ hdr data, (canReceive fifosize hdr data dev).1 = 0 →
    ((canReceive fifosize hdr data dev).2.cfBuffer dev.cfTail).cmHdr = hdr ∧
    ∀ k < canDlc hdr,
      ((canReceive fifosize hdr data dev).2.cfBuffer dev.cfTail).cmData k = data k

/-- All slots are free, and the count is what `can_register` made of zero. -/
structure Idle (npendingrtr : Nat) (dev : Dev) : Prop where
  slots : dev.cdRtr.length = npendingrtr
  free : ∀ w ∈ dev.cdRtr, w.crMsg = none
  npendrtr : dev.cdNpendrtr = (256 - npendingrtr) % 256

variable {npendingrtr fifosize : Nat} {dev : Dev}

theorem canRegister_idle {n k : Nat} {dev : Dev} (hn : n + k ≤ 255) (I : Idle k dev) :
    Idle (k + n) (canRegister n dev) := by
  induction n generalizing k dev with
  | zero => exact I
  | succ n ih =>
    have he : k + (n + 1) = k + 1 + n := by omega
    rw [canRegister, he]
    apply ih (by omega)
    constructor
    · rw [List.length_append, I.slots]
      rfl
    · intro w hw
      rcases List.mem_append.mp hw with h | h
      · exact I.free w h
      · rw [List.mem_singleton.mp h]
    · simp only [I.npendrtr]
      omega

theorem Start.idle (hn : npendingrtr ≤ 255) (S : Start npendingrtr dev) :
    Idle npendingrtr dev := by
  obtain ⟨zero, h0, h1, -, rfl⟩ := S
  have I : Idle 0 zero := by
    constructor
    · rw [h1]
      rfl
    · intro w hw
      rw [h1] at hw
      cases hw
    · rw [h0]
  have h := canRegister_idle (by omega : npendingrtr + 0 ≤ 255) I
  rw [Nat.zero_add] at h
  exact h

theorem findSlot_none {rtr : CanioctlRtr} (h : rtr.ciMsg ≠ none) (i : Nat)
    (slots : List RtrWait) : findSlot rtr i slots = none := by
  induction slots generalizing i with
  | nil => rfl
  | cons w slots ih => rw [findSlot, if_neg h, ih]

/-- The test of `can_rtrread` looks at the caller's pointer, so that every request fails. -/
theorem canRtrread_fails {t : Nat} {rtr : CanioctlRtr} {ret : Int} (h : rtr.ciMsg ≠ none)
    (dev : Dev) : canRtrread t rtr ret dev = (some (-enomem), dev) := by
  rw [canRtrread, findSlot_none h]

theorem rtrLoop_free (hdr : UInt16) (data : Nat → UInt8) {fuel i cursor : Nat}
    (h : ∀ w ∈ dev.cdRtr, w.crMsg = none) :
    rtrLoop hdr data fuel i cursor dev = (cursor, dev) := by
  induction fuel generalizing i with
  | zero => rfl
  | succ fuel ih =>
    rw [rtrLoop]
    split
    · rfl
    · rename_i w hw
      rw [h w (List.mem_of_getElem? hw)]
      exact ih

theorem canReceive_slots (fifosize : Nat) (hdr : UInt16) (data : Nat → UInt8)
    (h : ∀ w ∈ dev.cdRtr, w.crMsg = none) :
    (canReceive fifosize hdr data dev).2.cdRtr = dev.cdRtr ∧
      (canReceive fifosize hdr data dev).2.cdNpendrtr = dev.cdNpendrtr := by
  simp only [canReceive, rtrLoop_free hdr data h, ite_self]
  generalize (if fifosize ≤ dev.cfTail + 1 then 0 else dev.cfTail + 1) = nexttail
  by_cases hfull : nexttail ≠ dev.cfHead
  · rw [if_pos hfull]
    exact ⟨rfl, rfl⟩
  · rw [if_neg hfull]
    exact ⟨rfl, rfl⟩

theorem Idle.step {i : Op} (I : Idle npendingrtr dev) (hv : i.valid dev) :
    Idle npendingrtr (i.exec fifosize dev) := by
  cases i with
  | rtrread t rtr ret =>
    rw [Op.exec, canRtrread_fails hv.1]
    exact I
  | interrupt t => exact ⟨I.slots, I.free, I.npendrtr⟩
  | receive hdr data =>
    obtain ⟨h1, h2⟩ := canReceive_slots fifosize hdr data I.free
    rw [Op.exec]
    constructor
    · rw [h1]
      exact I.slots
    · rw [h1]
      exact I.free
    · rw [h2]
      exact I.npendrtr

theorem Idle.pending (I : Idle npendingrtr dev) : pending dev = 0 := by
  apply List.countP_eq_zero.mpr
  intro w hw
  rw [I.free w hw]
  exact Bool.false_ne_true

/-- `cd_npendrtr` is never the number of the slots in use, and every request is refused though
all slots are free. -/
theorem remote_requests_never_correct (hpos : 0 < npendingrtr) (hn : npendingrtr ≤ 255)
    (h : Reachable (rtrMachine fifosize) (Start npendingrtr) dev) :
    ¬ Correct fifosize dev ∧ dev.cdNpendrtr ≠ pending dev ∧
      ∀ t rtr ret, rtr.ciMsg ≠ none →
        (canRtrread t rtr ret dev).1 = some (-enomem) ∧ pending dev < dev.cdRtr.length := by
  have I : Idle npendingrtr dev := by
    apply h.invariant fun _ S => Start.idle hn S
    rintro s i s' I hv - he
    cases he
    exact I.step hv
  have hne : dev.cdNpendrtr ≠ pending dev := by
    rw [I.pending, I.npendrtr]
    omega
  refine ⟨fun C => hne C.npendrtr, hne, ?_⟩
  intro t rtr ret hm
  rw [canRtrread_fails hm, I.pending, I.slots]
  exact ⟨rfl, hpos⟩

def zeroMsg : CanMsg := ⟨0, fun _ => 0⟩

def zeroDev : Dev := ⟨0, [], 0, 0, 0, fun _ => zeroMsg, fun _ => zeroMsg, []⟩

theorem zeroDev_start : Start 4 (canRegister 4 zeroDev) := ⟨zeroDev, rfl, rfl, rfl, rfl⟩

theorem remote_requests_never_correct_registered :
    ¬ Correct 8 (canRegister 4 zeroDev) ∧
      (canRegister 4 zeroDev).cdNpendrtr ≠ pending (canRegister 4 zeroDev) ∧
      ∀ t rtr ret, rtr.ciMsg ≠ none →
        (canRtrread t rtr ret (canRegister 4 zeroDev)).1 = some (-enomem) ∧
          pending (canRegister 4 zeroDev) < (canRegister 4 zeroDev).cdRtr.length :=
  remote_requests_never_correct (by decide) (by decide) (.init zeroDev_start)

/-- A device that was just registered counts 252 pending requests. -/
theorem registered_not_correct : ¬ ∀ dev : Dev,
    Reachable (rtrMachine 8) (Start 4) dev → Correct 8 dev := by
  intro hall
  have h := (hall _ (.init zeroDev_start)).npendrtr
  exact absurd h (by decide)

end NuttxAvr32.Can.Rtr
