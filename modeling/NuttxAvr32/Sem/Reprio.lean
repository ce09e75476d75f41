import NuttxAvr32.Sched.Kernel
import NuttxAvr32.Sem.Holders

/-! # Priority inheritance with nested boosts

`sem_wait`, `sem_post` and `sem_waitirq` with the priorities of the holders, for
`CONFIG_SEM_NNESTPRIO > 0`. A boost below the current priority of a holder is kept in
`pend_reprios`; one of the two places that append to it looks at its size.
-/

namespace NuttxAvr32.Sem

open Sched Runs
open Function (update update_self update_of_ne)

structure HolderLinks where
  semholder : Container Nat → Semholder
  flink : Container Nat → Option (Container Nat)
  gFreeholders : Option (Container Nat)

namespace HolderLinks

variable (h : HolderLinks)

def set (c : Container Nat) (x : Semholder) : HolderLinks :=
  { h with semholder := update h.semholder c x }

def setFlink (c : Container Nat) (p : Option (Container Nat)) : HolderLinks :=
  { h with flink := update h.flink c p }

def semAllocholder (sem : Nat) : Option (Container Nat × HolderLinks) :=
  if (h.semholder (.hlist sem)).holder = none then
    some (.hlist sem, h.set (.hlist sem) { h.semholder (.hlist sem) with counts := 0 })
  else
    match h.gFreeholders with
    | none => none
    | some pholder =>
      let h' := { h with gFreeholders := h.flink pholder }
      let h' := h'.setFlink pholder (h'.flink (.hlist sem))
      let h' := h'.setFlink (.hlist sem) (some pholder)
      some (pholder, h'.set pholder { h.semholder pholder with counts := 0 })

/-- The loop of `sem_findholder`; no result where the list is longer than the bound. -/
def findFrom (htcb : Nat) : Nat → Option (Container Nat) → Option (Option (Container Nat))
  | 0, _ => none
  | _ + 1, none => some none
  | n + 1, some c =>
    if (h.semholder c).holder = some htcb then some (some c) else findFrom htcb n (h.flink c)

def semFindholder (bound sem htcb : Nat) : Option (Option (Container Nat)) :=
  h.findFrom htcb bound (some (.hlist sem))

def prevOf (pholder : Container Nat) : Nat → Container Nat → Option (Option (Container Nat))
  | 0, _ => none
  | n + 1, prev =>
    match h.flink prev with
    | none => some none
    | some curr => if curr = pholder then some (some prev) else prevOf pholder n curr

def semFreeholder (bound sem : Nat) (pholder : Container Nat) : Option HolderLinks :=
  let h := h.set pholder ⟨none, 0⟩
  if pholder = .hlist sem then some h
  else
    match h.prevOf pholder bound (.hlist sem) with
    | none => none
    | some none => some h
    | some (some prev) =>
      let h := h.setFlink prev (h.flink pholder)
      let h := h.setFlink pholder h.gFreeholders
      some { h with gFreeholders := some pholder }

def semAddholder (bound rtcb sem : Nat) : Option HolderLinks :=
  match h.semFindholder bound sem rtcb with
  | none => none
  | some (some c) => some (h.set c ⟨some rtcb, (h.semholder c).counts + 1⟩)
  | some none =>
    match h.semAllocholder sem with
    | some (c, h) => some (h.set c ⟨some rtcb, (h.semholder c).counts + 1⟩)
    | none => some h

def semReleaseholder (bound rtcb sem : Nat) : Option HolderLinks :=
  match h.semFindholder bound sem rtcb with
  | none => none
  | some (some c) =>
    if 0 < (h.semholder c).counts then
      some (h.set c { h.semholder c with counts := (h.semholder c).counts - 1 })
    else some h
  | some none => some h

def freeUncounted (bound rtcb sem : Nat) : Option HolderLinks :=
  match h.semFindholder bound sem rtcb with
  | none => none
  | some (some c) =>
    if (h.semholder c).counts ≤ 0 then h.semFreeholder bound sem c else some h
  | some none => some h

end HolderLinks

/-- What is left of a call. `next` is the container that `sem_foreachholder` visits next. -/
inductive Frame
  | boosting (rtcb sem : Nat) (next : Option (Container Nat))
  | blocked (sem : Nat)
  | restoringA (stcb sem : Nat) (next : Option (Container Nat))
  | restoringB (stcb sem : Nat) (next : Option (Container Nat))
  | releasing (sem : Nat)
  | canceling (wtcb sem : Nat) (next : Option (Container Nat))
  | reprioritizing (tcb priority : Nat)
deriving DecidableEq

/-- `calls` has the frames of each task, and of the interrupt handler under `none`. `used`
holds the indices into `pend_reprios` that were used. -/
structure PrioSys where
  kernel : Kernel
  semcount : Nat → Int
  holders : HolderLinks
  calls : Option Nat → List Frame
  used : List Nat

/-- `npend_reprio` is a `uint8_t`. -/
abbrev npendLimit : Nat := 256

/-- The index of the first greatest element, as the loop over `i` and `j` finds it. -/
def maxIndex (l : List Nat) : Nat :=
  (List.range l.length).foldl (fun j i => if (l[j]?).getD 0 < (l[i]?).getD 0 then i else j) 0

/-- Entry `i` gets the last one, and the last one goes. -/
def dropEntry (l : List Nat) (i : Nat) : List Nat :=
  let j := l.length - 1
  (if 0 < j then l.set i ((l[j]?).getD 0) else l).take j

namespace PrioSys

variable (s : PrioSys)

abbrev tcb (t : Nat) : Tcb := s.kernel.tcb t

/-- Who runs: a handler, or the task at the head. -/
def owner : Option Nat := if s.calls none = [] then some s.kernel.head else none

def inHandler : Bool := decide (s.calls none ≠ [])

def setFrames (o : Option Nat) (l : List Frame) : PrioSys :=
  { s with calls := update s.calls o l }

def push (o : Option Nat) (f : Frame) : PrioSys := s.setFrames o (f :: s.calls o)

def withKernel (k : Kernel) : PrioSys := { s with kernel := k }

def modify (t : Nat) (f : Tcb → Tcb) : PrioSys := s.withKernel (s.kernel.modify t f)

def count (sem : Nat) (d : Int) : PrioSys :=
  { s with semcount := update s.semcount sem (s.semcount sem + d) }

def setpriority (htcb priority : Nat) : Option (PrioSys × Bool) :=
  (schedSetpriority s.inHandler htcb priority s.kernel).map fun r => (s.withKernel r.1, r.2)

/-- `pend_reprios[npend_reprio] = priority; npend_reprio++;` -/
def pendReprio (htcb priority : Nat) : PrioSys :=
  let l := (s.tcb htcb).pendReprios
  { s.modify htcb fun c => { c with
      pendReprios := if l.length + 1 < npendLimit then l ++ [priority] else [] } with
    used := l.length :: s.used }

def semBoostholderprio (cfg : Config) (bound rtcb sem : Nat) (pholder : Container Nat) :
    Option PrioSys :=
  match (s.holders.semholder pholder).holder with
  | none => some s
  | some htcb =>
    if schedVerifytcb cfg s.kernel.toTasks htcb = false then
      (s.holders.semFreeholder bound sem pholder).map fun h => { s with holders := h }
    else if (s.tcb htcb).basePriority < (s.tcb rtcb).schedPriority then
      if (s.tcb htcb).schedPriority < (s.tcb rtcb).schedPriority then
        let s' :=
          if (s.tcb htcb).basePriority < (s.tcb htcb).schedPriority ∧
              (s.tcb htcb).pendReprios.length < cfg.nnestprio then
            s.pendReprio htcb (s.tcb htcb).schedPriority
          else s
        (s'.setpriority htcb (s.tcb rtcb).schedPriority).map Prod.fst
      else some (s.pendReprio htcb (s.tcb rtcb).schedPriority)
    else some s

/-- `sem_restoreholderprio` of a holder; `o` runs it. -/
def semRestoreholderprio (cfg : Config) (bound stcb sem : Nat) (pholder : Container Nat)
    (o : Option Nat) : Option PrioSys :=
  match (s.holders.semholder pholder).holder with
  | none => some s
  | some htcb =>
    let l := (s.tcb htcb).pendReprios
    let put (l' : List Nat) (used : List Nat) : PrioSys :=
      { s.modify htcb fun c => { c with pendReprios := l' } with used := used ++ s.used }
    if schedVerifytcb cfg s.kernel.toTasks htcb = false then
      (s.holders.semFreeholder bound sem pholder).map fun h => { s with holders := h }
    else if (s.tcb htcb).schedPriority ≠ (s.tcb htcb).basePriority then
      if l.length < 1 then
        -- `sched_reprioritize` goes on when its caller runs again
        (s.setpriority htcb (s.tcb htcb).basePriority).map fun r =>
          if r.2 then r.1.push o (.reprioritizing htcb (s.tcb htcb).basePriority) else r.1
      else if (s.tcb htcb).schedPriority ≤ (s.tcb stcb).schedPriority then
        ((put (dropEntry l (maxIndex l)) (List.range l.length)).setpriority htcb
          ((l[maxIndex l]?).getD 0)).map Prod.fst
      else
        match l.findIdx? fun p => p = (s.tcb stcb).schedPriority with
        | some i => some (put (dropEntry l i) (List.range l.length))
        | none => some (put l (List.range l.length))
    else some s

def semWait (bound sem : Nat) : Option PrioSys :=
  let rtcb := s.kernel.head
  let s := s.withKernel (setErrno false .einval s.kernel)
  if 0 < s.semcount sem then
    (s.holders.semAddholder bound rtcb sem).map fun h =>
      ({ s.count sem (-1) with holders := h }).modify rtcb fun c => { c with waitsem := 0 }
  else if (s.tcb rtcb).waitsem ≠ 0 then none
  else
    let s := (s.count sem (-1)).modify rtcb fun c => { c with waitsem := sem }
    (schedLock false s.kernel).map fun k =>
      (s.withKernel k).push (some rtcb) (.boosting rtcb sem (some (.hlist sem)))

def semPost (cfg : Config) (bound : Nat) (irq : Bool) (sem : Nat) : Option PrioSys :=
  let rtcb := s.kernel.head
  let o := if irq then none else some rtcb
  if s.semcount sem < (0x7fff : Int) then
    (s.holders.semReleaseholder bound rtcb sem).bind fun h =>
    let s := { s.count sem 1 with holders := h }
    (schedLock irq s.kernel).bind fun k =>
    let s := s.withKernel k
    if s.semcount sem ≤ (0 : Int) then
      match (k.list .waitingforsemaphore).find? fun t => (s.tcb t).waitsem = sem with
      | some stcb =>
        let s := s.modify stcb fun c => { c with waitsem := 0 }
        let s := s.push o (.restoringA stcb sem (some (.hlist sem)))
        (upUnblockTask cfg stcb s.kernel).map s.withKernel
      | none => some (s.push o (.releasing sem))
    else some (s.push o (.releasing sem))
  else none

def semWaitirq (irq : Bool) (wtcb : Nat) : Option PrioSys :=
  if (s.tcb wtcb).taskState = .waitSem then
    let sem := (s.tcb wtcb).waitsem
    some (s.push (if irq then none else some s.kernel.head)
      (.canceling wtcb sem (some (.hlist sem))))
  else some s

/-- A frame goes on; `rest` are the frames under it. -/
def runFrame (cfg : Config) (bound : Nat) (o : Option Nat) (rest : List Frame) :
    Frame → Option PrioSys
  | .boosting rtcb sem (some pholder) =>
    let next := s.holders.flink pholder
    (s.setFrames o (.boosting rtcb sem next :: rest)).semBoostholderprio cfg bound rtcb sem
      pholder
  | .boosting rtcb sem none =>
    let s := s.setFrames o (.blocked sem :: rest)
    (upBlockTask rtcb .waitSem (setErrno false .ok s.kernel)).map s.withKernel
  | .blocked sem =>
    let rtcb := s.kernel.head
    let s := s.setFrames o rest
    let unlocked (s : PrioSys) : PrioSys := s.withKernel (schedUnlock false s.kernel)
    if (s.tcb rtcb).pterrno ≠ .eintr then
      (s.holders.semAddholder bound rtcb sem).map fun h => unlocked { s with holders := h }
    else some (unlocked s)
  | .restoringA stcb sem (some pholder) =>
    let next := s.holders.flink pholder
    let s' := s.setFrames o (.restoringA stcb sem next :: rest)
    if (s.holders.semholder pholder).holder ≠ some s.kernel.head then
      s'.semRestoreholderprio cfg bound stcb sem pholder o
    else some s'
  | .restoringA stcb sem none =>
    some (s.setFrames o (.restoringB stcb sem (some (.hlist sem)) :: rest))
  | .restoringB stcb sem (some pholder) =>
    if (s.holders.semholder pholder).holder = some s.kernel.head then
      (s.setFrames o (.releasing sem :: rest)).semRestoreholderprio cfg bound stcb sem pholder o
    else some (s.setFrames o (.restoringB stcb sem (s.holders.flink pholder) :: rest))
  | .restoringB _ sem none => some (s.setFrames o (.releasing sem :: rest))
  | .releasing sem =>
    (s.holders.freeUncounted bound s.kernel.head sem).map fun h =>
      let s := ({ s with holders := h }).setFrames o rest
      s.withKernel (schedUnlock (decide (o = none)) s.kernel)
  | .canceling wtcb sem (some pholder) =>
    let next := s.holders.flink pholder
    (s.setFrames o (.canceling wtcb sem next :: rest)).semRestoreholderprio cfg bound wtcb sem
      pholder o
  | .canceling wtcb sem none =>
    let s := ((s.setFrames o rest).count sem 1).modify wtcb fun c =>
      { c with waitsem := 0, pterrno := .eintr }
    (upUnblockTask cfg wtcb s.kernel).map s.withKernel
  | .reprioritizing tcb priority =>
    some ((s.setFrames o rest).modify tcb fun c =>
      { c with basePriority := priority, pendReprios := [] })

def step (cfg : Config) (bound : Nat) : Option PrioSys :=
  match s.calls s.owner with
  | [] => none
  | f :: rest => s.runFrame cfg bound s.owner rest f

end PrioSys

/-- `step` is the next piece of the call that whoever runs has begun. -/
inductive PrioOp
  | wait (sem : Nat)
  | post (irq : Bool) (sem : Nat)
  | waitirq (irq : Bool) (wtcb : Nat)
  | step
deriving DecidableEq

namespace PrioOp

def exec (cfg : Config) (bound : Nat) : PrioOp → PrioSys → Option PrioSys
  | wait sem, s => s.semWait bound sem
  | post irq sem, s => s.semPost cfg bound irq sem
  | waitirq irq wtcb, s => s.semWaitirq irq wtcb
  | step, s => s.step cfg bound

/-- Interrupts are off in the calls, so that a new one begins when no other goes on. -/
def idle (s : PrioSys) : Prop := s.calls s.owner = []

instance decidableIdle (s : PrioSys) : Decidable (idle s) := inferInstanceAs (Decidable (_ = _))

def valid (s : PrioSys) : PrioOp → Prop
  | wait sem => idle s ∧ sem ≠ 0 ∧ s.kernel.head ≠ gIdletcb
  | post _ sem => idle s ∧ sem ≠ 0
  | waitirq _ _ => idle s
  | step => True

instance decidablePrioValid (s : PrioSys) (i : PrioOp) : Decidable (i.valid s) :=
  match i with
  | wait _ => inferInstanceAs (Decidable (_ ∧ _ ∧ _))
  | post _ _ => inferInstanceAs (Decidable (_ ∧ _))
  | waitirq _ _ => decidableIdle s
  | step => .isTrue trivial

/-- The boost that is next does not stay below the priority of a live holder whose
`pend_reprios` are full. -/
def roomy (cfg : Config) (s : PrioSys) : Frame → Prop
  | .boosting rtcb _ (some pholder) => ∀ htcb ∈ (s.holders.semholder pholder).holder,
      schedVerifytcb cfg s.kernel.toTasks htcb = true →
      (s.tcb htcb).basePriority < (s.tcb rtcb).schedPriority →
      (s.tcb rtcb).schedPriority ≤ (s.tcb htcb).schedPriority →
      (s.tcb htcb).pendReprios.length < cfg.nnestprio
  | _ => True

instance decidableRoomy (cfg : Config) (s : PrioSys) (f : Frame) : Decidable (roomy cfg s f) :=
  match f with
  | .boosting _ _ (some _) => inferInstanceAs (Decidable (∀ _ ∈ _, _ → _ → _ → _))
  | .boosting _ _ none | .blocked _ | .restoringA .. | .restoringB .. | .releasing _
  | .canceling .. | .reprioritizing .. => .isTrue trivial

def keeps (cfg : Config) (s : PrioSys) : PrioOp → Prop
  | step => ∀ f ∈ (s.calls s.owner).head?, roomy cfg s f
  | _ => True

instance decidablePrioKeeps (cfg : Config) (s : PrioSys) (i : PrioOp) :
    Decidable (i.keeps cfg s) :=
  match i with
  | step => inferInstanceAs (Decidable (∀ f ∈ (s.calls s.owner).head?, roomy cfg s f))
  | wait _ | post _ _ | waitirq _ _ => .isTrue trivial

end PrioOp

def prioMachine (cfg : Config) (bound : Nat) : Machine PrioSys PrioOp where
  valid s i := i.valid s
  exec s i := i.exec cfg bound s

instance decidablePrioMachine (cfg : Config) (bound : Nat) (s : PrioSys) (i : PrioOp) :
    Decidable ((prioMachine cfg bound).valid s i) := inferInstanceAs (Decidable (i.valid s))

structure PrioStart (s : PrioSys) : Prop where
  pend : ∀ t, (s.tcb t).pendReprios = []
  calls : s.calls = fun _ => []
  used : s.used = []

/-- No array is overfull, and all indices that were used lie within it. -/
structure InBounds (n : Nat) (s : PrioSys) : Prop where
  pend : ∀ t, (s.tcb t).pendReprios.length ≤ n
  used : ∀ i ∈ s.used, i < n

def SamePend (k k' : Kernel) : Prop := ∀ t, (k'.tcb t).pendReprios = (k.tcb t).pendReprios

section

variable {cfg : Config} {k k' k'' : Kernel} {t p : Nat} {irq : Bool} {f : Tcb → Tcb}
  {i : TaskList} {l : List Nat} {st : TaskState}

theorem SamePend.refl (k : Kernel) : SamePend k k := fun _ => rfl

theorem SamePend.trans (h : SamePend k k') (h' : SamePend k' k'') : SamePend k k'' :=
  fun t => (h' t).trans (h t)

theorem samePend_modify (hf : ∀ c : Tcb, (f c).pendReprios = c.pendReprios) :
    SamePend k (k.modify t f) := by
  intro u
  by_cases h : u = t
  · subst h
    show (update k.tcb u _ u).pendReprios = _
    rw [update_self, hf]
  · show (update k.tcb t _ u).pendReprios = _
    rw [update_of_ne h]

theorem samePend_setList : SamePend k (k.setList i l) := .refl k

theorem samePend_setState : SamePend k (k.setState t st) := samePend_modify fun _ => rfl

theorem samePend_setErrno (irq : Bool) (e : Errno) : SamePend k (setErrno irq e k) := by
  unfold setErrno
  split
  · exact samePend_modify fun _ => rfl
  · exact .refl k

theorem samePend_addreadytorun : SamePend k (schedAddreadytorun t k).1 := by
  unfold schedAddreadytorun
  dsimp only
  split
  · exact samePend_setList.trans samePend_setState
  · split
    · exact (samePend_setList.trans samePend_setState).trans samePend_setState
    · exact samePend_setList.trans samePend_setState

theorem samePend_addblocked : SamePend k (schedAddblocked t st k) := by
  unfold schedAddblocked
  split
  · exact .refl k
  · exact samePend_setList.trans samePend_setState

theorem samePend_mergepending : SamePend k (schedMergepending k).1 := fun _ => rfl

theorem samePend_mergeIfPending : SamePend k (mergeIfPending k) := by
  unfold mergeIfPending
  split
  · exact samePend_mergepending
  · exact .refl k

theorem samePend_removeblocked : SamePend k (schedRemoveblocked t k) := by
  unfold schedRemoveblocked
  split
  · exact .refl k
  · exact samePend_setList.trans samePend_setState

theorem samePend_removereadytorun : SamePend k (schedRemovereadytorun t k).1 := by
  unfold schedRemovereadytorun
  dsimp only
  split
  · exact (samePend_setList.trans samePend_setState).trans samePend_setState
  · exact samePend_setList.trans samePend_setState

theorem samePend_lock (h : schedLock irq k = some k') : SamePend k k' := by
  unfold schedLock at h
  split at h
  · cases h
    exact .refl k
  · split at h
    · cases h
      exact samePend_modify fun _ => rfl
    · cases h

theorem samePend_unlock : SamePend k (schedUnlock irq k) := by
  have hdrop : SamePend k (k.modify k.head fun c => { c with lockcount := c.lockcount - 1 }) :=
    samePend_modify fun _ => rfl
  unfold schedUnlock
  split
  · exact .refl k
  · dsimp only
    split
    · exact hdrop.trans samePend_mergepending
    · exact hdrop

theorem samePend_block (h : upBlockTask t st k = some k') : SamePend k k' := by
  unfold upBlockTask at h
  split at h
  · cases h
    exact (samePend_removereadytorun.trans samePend_addblocked).trans samePend_mergeIfPending
  · cases h

theorem samePend_unblock (h : upUnblockTask cfg t k = some k') : SamePend k k' := by
  unfold upUnblockTask at h
  split at h
  · dsimp only at h
    split at h
    · rename_i ticks _
      cases h
      have hslice : SamePend (schedRemoveblocked t k) ((schedRemoveblocked t k).modify t
          fun c => { c with timeslice := ticks }) := samePend_modify fun _ => rfl
      exact (samePend_removeblocked.trans hslice).trans samePend_addreadytorun
    · cases h
      exact samePend_removeblocked.trans samePend_addreadytorun
  · cases h

theorem samePend_reprioritizeRtr (h : upReprioritizeRtr t p k = some k') : SamePend k k' := by
  unfold upReprioritizeRtr at h
  split at h
  · have hset : SamePend k ((schedRemovereadytorun t k).1.modify t
        fun c => { c with schedPriority := p }) :=
      samePend_removereadytorun.trans (samePend_modify fun _ => rfl)
    dsimp only at h
    split at h
    · cases h
      exact (hset.trans samePend_addreadytorun).trans samePend_mergeIfPending
    · cases h
      exact hset.trans samePend_addreadytorun
  · cases h

theorem samePend_setpriority {r : Kernel × Bool} (h : schedSetpriority irq t p k = some r) :
    SamePend k r.1 := by
  have hset : ∀ k : Kernel, SamePend k (k.modify t fun c => { c with schedPriority := p }) :=
    fun _ => samePend_modify fun _ => rfl
  have hrtr : ∀ r, (upReprioritizeRtr t p k).map (·, true) = some r → SamePend k r.1 := by
    intro r hr
    obtain ⟨k', hk, rfl⟩ := Option.map_eq_some_iff.mp hr
    exact samePend_reprioritizeRtr hk
  unfold schedSetpriority at h
  split at h
  · cases h
    exact samePend_setErrno _ _
  · dsimp only at h
    split at h
    · split at h
      · exact hrtr r h
      · cases h
        exact hset k
    · split at h
      · exact hrtr r h
      · cases h
        exact (samePend_removereadytorun.trans (hset _)).trans samePend_addreadytorun
    · split at h
      · split at h
        · cases h
        · cases h
          exact (samePend_setList.trans (hset _)).trans samePend_setList
      · cases h
        exact hset k

end

section

variable {cfg : Config} {bound n sem htcb rtcb stcb p t : Nat} {s s' : PrioSys} {k : Kernel}
  {o : Option Nat} {rest : List Frame} {c : Container Nat}

theorem InBounds.withKernel (B : InBounds n s) (hk : SamePend s.kernel k) :
    InBounds n (s.withKernel k) := by
  refine ⟨fun t => ?_, B.used⟩
  show (k.tcb t).pendReprios.length ≤ n
  rw [hk t]
  exact B.pend t

theorem InBounds.modify {f : Tcb → Tcb} (B : InBounds n s)
    (hf : ∀ c : Tcb, (f c).pendReprios = c.pendReprios) : InBounds n (s.modify t f) :=
  B.withKernel (samePend_modify hf)

theorem InBounds.setFrames (B : InBounds n s) (l : List Frame) : InBounds n (s.setFrames o l) :=
  ⟨B.pend, B.used⟩

theorem InBounds.setHolders (B : InBounds n s) (h : HolderLinks) :
    InBounds n { s with holders := h } := ⟨B.pend, B.used⟩

theorem InBounds.count (B : InBounds n s) (sem : Nat) (d : Int) : InBounds n (s.count sem d) :=
  ⟨B.pend, B.used⟩

theorem InBounds.setpriority {r : PrioSys × Bool} (B : InBounds n s)
    (h : s.setpriority t p = some r) : InBounds n r.1 := by
  obtain ⟨q, hq, rfl⟩ := Option.map_eq_some_iff.mp h
  exact B.withKernel (samePend_setpriority hq)

theorem InBounds.unblock (B : InBounds n s)
    (h : (upUnblockTask cfg t s.kernel).map s.withKernel = some s') : InBounds n s' := by
  obtain ⟨k, hk, rfl⟩ := Option.map_eq_some_iff.mp h
  exact B.withKernel (samePend_unblock hk)

theorem InBounds.replace {l' : List Nat} (used : List Nat) (B : InBounds n s) (hl : l'.length ≤ n)
    (hused : ∀ i ∈ used, i < n) : InBounds n
      { s.modify t fun c => { c with pendReprios := l' } with used := used ++ s.used } := by
  refine ⟨fun u => ?_, fun i hi => ?_⟩
  · show (update s.kernel.tcb t { s.kernel.tcb t with pendReprios := l' }
      u).pendReprios.length ≤ n
    by_cases h : u = t
    · subst h
      rw [update_self]
      exact hl
    · rw [update_of_ne h]
      exact B.pend u
  · rcases List.mem_append.mp hi with hi | hi
    · exact hused i hi
    · exact B.used i hi

theorem InBounds.pendReprio (B : InBounds n s) (hroom : (s.tcb htcb).pendReprios.length < n) :
    InBounds n (s.pendReprio htcb p) := by
  have hlen : (if (s.tcb htcb).pendReprios.length + 1 < npendLimit then
      (s.tcb htcb).pendReprios ++ [p] else []).length ≤ n := by
    split
    · rw [List.length_append, List.length_singleton]
      exact hroom
    · exact Nat.zero_le n
  exact B.replace [(s.tcb htcb).pendReprios.length] hlen (by simpa using hroom)

theorem dropEntry_length (l : List Nat) (i : Nat) : (dropEntry l i).length ≤ l.length := by
  unfold dropEntry
  rw [List.length_take]
  split
  · rw [List.length_set]
    omega
  · omega

theorem boost_inBounds (B : InBounds cfg.nnestprio s)
    (hroom : PrioOp.roomy cfg s (.boosting rtcb sem (some c)))
    (he : s.semBoostholderprio cfg bound rtcb sem c = some s') : InBounds cfg.nnestprio s' := by
  unfold PrioSys.semBoostholderprio at he
  split at he
  · cases he
    exact B
  · rename_i htcb hholder
    split at he
    · obtain ⟨h, -, rfl⟩ := Option.map_eq_some_iff.mp he
      exact B.setHolders h
    · rename_i hverify
      split at he
      · rename_i hbase
        split at he
        · obtain ⟨r, hr, rfl⟩ := Option.map_eq_some_iff.mp he
          refine InBounds.setpriority ?_ hr
          split
          · rename_i hpush
            exact B.pendReprio hpush.2
          · exact B
        · rename_i hle
          cases he
          apply B.pendReprio
          exact hroom htcb hholder (by simpa using hverify) hbase (Nat.le_of_not_lt hle)
      · cases he
        exact B

theorem boost_overruns (hfull : ¬ PrioOp.roomy cfg s (.boosting rtcb sem (some c)))
    (he : s.semBoostholderprio cfg bound rtcb sem c = some s') :
    ¬ InBounds cfg.nnestprio s' := by
  simp only [PrioOp.roomy, not_forall] at hfull
  obtain ⟨htcb, hholder, hverify, hbase, hle, hlen⟩ := hfull
  unfold PrioSys.semBoostholderprio at he
  rw [hholder] at he
  dsimp only at he
  rw [if_neg (by simpa using hverify), if_pos hbase, if_neg (Nat.not_lt.mpr hle)] at he
  cases he
  intro B
  exact hlen (B.used _ List.mem_cons_self)

theorem InBounds.restore (B : InBounds n s)
    (he : s.semRestoreholderprio cfg bound stcb sem c o = some s') : InBounds n s' := by
  unfold PrioSys.semRestoreholderprio at he
  split at he
  · cases he
    exact B
  · rename_i htcb hholder
    have hlen := B.pend htcb
    have hused : ∀ i ∈ List.range (s.tcb htcb).pendReprios.length, i < n := by
      intro i hi
      exact Nat.lt_of_lt_of_le (List.mem_range.mp hi) hlen
    dsimp only at he
    split at he
    · obtain ⟨h, -, rfl⟩ := Option.map_eq_some_iff.mp he
      exact B.setHolders h
    · split at he
      · split at he
        · obtain ⟨r, hr, rfl⟩ := Option.map_eq_some_iff.mp he
          have B' := B.setpriority hr
          split
          · exact B'.setFrames _
          · exact B'
        · split at he
          · obtain ⟨r, hr, rfl⟩ := Option.map_eq_some_iff.mp he
            exact (B.replace _ ((dropEntry_length _ _).trans hlen) hused).setpriority hr
          · split at he
            · cases he
              exact B.replace _ ((dropEntry_length _ _).trans hlen) hused
            · cases he
              exact B.replace _ hlen hused
      · cases he
        exact B

theorem InBounds.runFrame {f : Frame} (B : InBounds cfg.nnestprio s)
    (hroom : PrioOp.roomy cfg s f) (he : s.runFrame cfg bound o rest f = some s') :
    InBounds cfg.nnestprio s' := by
  cases f with
  | boosting rtcb sem next =>
    cases next with
    | none =>
      obtain ⟨k, hk, rfl⟩ := Option.map_eq_some_iff.mp he
      exact (B.setFrames _).withKernel ((samePend_setErrno _ _).trans (samePend_block hk))
    | some pholder => exact boost_inBounds (B.setFrames _) hroom he
  | blocked sem =>
    simp only [PrioSys.runFrame] at he
    split at he
    · obtain ⟨h, -, rfl⟩ := Option.map_eq_some_iff.mp he
      exact ((B.setFrames rest).setHolders h).withKernel samePend_unlock
    · cases he
      exact (B.setFrames rest).withKernel samePend_unlock
  | restoringA stcb sem next =>
    cases next with
    | none =>
      cases he
      exact B.setFrames _
    | some pholder =>
      simp only [PrioSys.runFrame] at he
      split at he
      · exact (B.setFrames _).restore he
      · cases he
        exact B.setFrames _
  | restoringB stcb sem next =>
    cases next with
    | none =>
      cases he
      exact B.setFrames _
    | some pholder =>
      simp only [PrioSys.runFrame] at he
      split at he
      · exact (B.setFrames _).restore he
      · cases he
        exact B.setFrames _
  | releasing sem =>
    obtain ⟨h, -, rfl⟩ := Option.map_eq_some_iff.mp he
    exact ((B.setHolders h).setFrames rest).withKernel samePend_unlock
  | canceling wtcb sem next =>
    cases next with
    | none =>
      have B' := ((B.setFrames (o := o) rest).count sem 1).modify (t := wtcb)
        (f := fun c => { c with waitsem := 0, pterrno := .eintr }) fun _ => rfl
      exact B'.unblock he
    | some pholder => exact (B.setFrames _).restore he
  | reprioritizing tcb priority =>
    cases he
    have hz : ([] : List Nat).length ≤ cfg.nnestprio := Nat.zero_le _
    have B' := (B.setFrames (o := o) rest).replace (t := tcb) [] hz (by simp)
    have B'' := B'.modify (t := tcb) (f := fun c => { c with basePriority := priority })
      fun _ => rfl
    refine ⟨fun u => ?_, B''.used⟩
    have hu := B''.pend u
    simp only [PrioSys.tcb, PrioSys.modify, PrioSys.withKernel, Kernel.modify] at hu ⊢
    by_cases h : u = tcb
    · subst h
      simp
    · simpa [h] using hu

theorem InBounds.exec {i : PrioOp} (B : InBounds cfg.nnestprio s) (hk : i.keeps cfg s)
    (he : i.exec cfg bound s = some s') : InBounds cfg.nnestprio s' := by
  cases i with
  | wait sem =>
    simp only [PrioOp.exec, PrioSys.semWait] at he
    have B' := B.withKernel (samePend_setErrno (k := s.kernel) false .einval)
    split at he
    · obtain ⟨h, -, rfl⟩ := Option.map_eq_some_iff.mp he
      exact ((B'.count sem (-1)).setHolders h).modify fun _ => rfl
    · split at he
      · cases he
      · obtain ⟨k, hk, rfl⟩ := Option.map_eq_some_iff.mp he
        have B₂ := (B'.count sem (-1)).modify (t := s.kernel.head)
          (f := fun c => { c with waitsem := sem }) fun _ => rfl
        exact (B₂.withKernel (samePend_lock hk)).setFrames _
  | post irq sem =>
    simp only [PrioOp.exec, PrioSys.semPost] at he
    split at he
    · obtain ⟨h, -, he⟩ := Option.bind_eq_some_iff.mp he
      obtain ⟨k, hk, he⟩ := Option.bind_eq_some_iff.mp he
      have B' := ((B.count sem 1).setHolders h).withKernel (samePend_lock hk)
      split at he
      · split at he
        · rename_i stcb _
          exact (((B'.modify (t := stcb) (f := fun c => { c with waitsem := 0 })
            fun _ => rfl).setFrames _).unblock he)
        · cases he
          exact B'.setFrames _
      · cases he
        exact B'.setFrames _
    · cases he
  | waitirq irq wtcb =>
    simp only [PrioOp.exec, PrioSys.semWaitirq] at he
    split at he
    · cases he
      exact B.setFrames _
    · cases he
      exact B
  | step =>
    simp only [PrioOp.exec, PrioSys.step] at he
    split at he
    · cases he
    · rename_i f rest hcalls
      refine B.runFrame (hk f ?_) he
      rw [hcalls]
      rfl

theorem exec_overruns {i : PrioOp} (hk : ¬ i.keeps cfg s) (he : i.exec cfg bound s = some s') :
    ¬ InBounds cfg.nnestprio s' := by
  cases i with
  | wait sem => exact absurd trivial hk
  | post irq sem => exact absurd trivial hk
  | waitirq irq wtcb => exact absurd trivial hk
  | step =>
    simp only [PrioOp.exec, PrioSys.step] at he
    split at he
    · cases he
    · rename_i f rest hcalls
      have hfull : ¬ PrioOp.roomy cfg s f := by
        intro hf
        apply hk
        intro g hg
        rw [hcalls] at hg
        cases hg
        exact hf
      cases f with
      | boosting rtcb sem next =>
        cases next with
        | none => exact absurd trivial hfull
        | some pholder =>
          have he' : (s.setFrames s.owner (.boosting rtcb sem (s.holders.flink pholder) ::
              rest)).semBoostholderprio cfg bound rtcb sem pholder = some s' := he
          have hfull' : ¬ PrioOp.roomy cfg (s.setFrames s.owner
              (.boosting rtcb sem (s.holders.flink pholder) :: rest))
              (.boosting rtcb sem (some pholder)) := hfull
          exact boost_overruns hfull' he'
      | _ => exact absurd trivial hfull

end

theorem prioStart_inBounds {n : Nat} {s : PrioSys} (h : PrioStart s) : InBounds n s := by
  refine ⟨fun t => ?_, fun i hi => ?_⟩
  · rw [h.pend t]
    exact Nat.zero_le n
  · rw [h.used] at hi
    cases hi

/-- As long as no boost goes to a full array all of them stay within their bounds, and the
first one that does leaves it. -/
theorem pend_reprios_in_bounds {cfg : Config} {bound : Nat} {s : PrioSys}
    (h : Reach (prioMachine cfg bound) PrioStart (fun s i => i.keeps cfg s) s) :
    InBounds cfg.nnestprio s ∧ ∀ (i : PrioOp) (s' : PrioSys), i.valid s →
      i.exec cfg bound s = some s' → (InBounds cfg.nnestprio s' ↔ i.keeps cfg s) := by
  have B : InBounds cfg.nnestprio s :=
    h.invariant (fun _ => prioStart_inBounds) fun _ _ _ B _ hk he => B.exec hk he
  refine ⟨B, fun i s' _ he => ⟨fun B' => ?_, fun hk => B.exec hk he⟩⟩
  by_contra hk
  exact exec_overruns hk he B'

def oneEntry : Config := ⟨8, none, true, 1, 0⟩

def fourTasks : PrioSys where
  kernel :=
    { tcb := fun t => { Tcb.zero with
        pid := if t = gIdletcb then 0 else t
        taskState := if t = 3 then .running else if t ≤ 5 then .readytorun else .invalid
        schedPriority := (([0, 0, 50, 200, 150, 120] : List Nat)[t]?).getD 0
        basePriority := (([0, 0, 50, 200, 150, 120] : List Nat)[t]?).getD 0 }
      gPidhash := fun i =>
        (([⟨1, 0⟩, ⟨0, 0⟩, ⟨2, 2⟩, ⟨3, 3⟩, ⟨4, 4⟩, ⟨5, 5⟩] : List Pidhash)[i]?).getD ⟨0, 0⟩
      gLastpid := 5
      list := fun i => if i = .readytorun then [3, 4, 5, 2, 1] else [] }
  semcount := fun sem => if sem = 10 then 1 else 0
  holders := ⟨fun _ => ⟨none, 0⟩, fun _ => none, none⟩
  calls := fun _ => []
  used := []

theorem fourTasks_start : PrioStart fourTasks := ⟨fun _ => rfl, rfl, rfl⟩

def blockOps (sem : Nat) : List PrioOp := [.wait sem, .step, .step]

/-- An interrupt posts semaphore 11, and the task that it wakes goes on. -/
def wakeOps : List PrioOp :=
  [.post true 11, .step, .step, .step, .step, .step, .step]

def nestedOps : List PrioOp :=
  blockOps 11 ++ blockOps 11 ++ blockOps 11 ++ [.wait 10] ++ wakeOps ++ blockOps 10 ++
    blockOps 12 ++ wakeOps ++ blockOps 10

theorem pend_reprios_in_bounds_run : ∃ s,
    runAll (prioMachine oneEntry 2) (fun s i => i.keeps oneEntry s) fourTasks nestedOps = some s ∧
    (s.tcb 2).pendReprios = [150] ∧ (s.tcb 2).schedPriority = 200 ∧
    (InBounds oneEntry.nnestprio s ∧ ∀ (i : PrioOp) (s' : PrioSys), i.valid s →
      i.exec oneEntry 2 s = some s' → (InBounds oneEntry.nnestprio s' ↔ i.keeps oneEntry s)) :=
  have h : ∃ s, runAll (prioMachine oneEntry 2) (fun s i => i.keeps oneEntry s) fourTasks
      nestedOps = some s ∧ (s.tcb 2).pendReprios = [150] ∧ (s.tcb 2).schedPriority = 200 := by
    decide +kernel
  h.elim fun s hs => ⟨s, hs.1, hs.2.1, hs.2.2,
    pend_reprios_in_bounds (.runAll (.init fourTasks_start) hs.1)⟩

/-- Task 5 boosts it still less, and there is no room left. -/
theorem pend_reprios_overrun : ¬ ∀ (cfg : Config) (bound : Nat) (s : PrioSys),
    0 < cfg.nnestprio → Reachable (prioMachine cfg bound) PrioStart s →
      InBounds cfg.nnestprio s := by
  intro hall
  have h : ∃ s, runAll (prioMachine oneEntry 2) (fun _ _ => True) fourTasks
      (nestedOps ++ wakeOps ++ [.wait 10, .step]) = some s ∧
      (s.tcb 2).pendReprios = [150, 120] := by decide +kernel
  obtain ⟨s, hs, hpend⟩ := h
  have hb := hall oneEntry 2 s (by decide) (.runAll (.init fourTasks_start) hs)
  have h2 := hb.pend 2
  rw [hpend] at h2
  exact absurd h2 (by decide)

end NuttxAvr32.Sem
