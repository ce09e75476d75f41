import Mathlib.Data.List.Nodup
import Mathlib.Data.List.Perm.Basic
import NuttxAvr32.Lib.Runs

/-! # The heap lock and deferred frees

Each step of a thread is one access to what `mm_sem.c` shares. A task that exits goes on as a
thread of its own after it has left `g_readytorun`, with interrupts disabled, and `getpid` then
names the task at the head of that list.
-/

namespace NuttxAvr32.Mm.Lock

open Runs
open Function (update update_of_ne)

/-- A thread of control: a task by its pid, or the task that is exiting. -/
inductive Thread
  | task (p : Nat)
  | exit
deriving DecidableEq

/-- Where a thread is. `trySem` tells whether `sched_free` waits for the result. -/
inductive Pc
  | idle
  | takeSem
  | waiting
  | trySem (free : Bool)
  | defer
  | got
  | gotHolder
  | inc
  | giveDec
  | giveClear
  | giveCount
  | givePost
deriving DecidableEq

/-- `depth` counts the takes minus the gives of a thread, `jobs` are the blocks that threads are
about to free, `passed` and `freed` what `sched_free` was given and what was freed. -/
structure Heap where
  semcount : Int
  semWaiters : List Thread
  gHolder : Option Nat
  gCountsHeld : Int
  head : Nat
  exiting : Bool
  alive : Nat → Bool
  pc : Thread → Pc
  depth : Thread → Nat
  delayed : List Nat
  jobs : List (Thread × Nat)
  passed : List Nat
  freed : List Nat

namespace Heap

def getpid (t : Thread) (s : Heap) : Nat :=
  match t with
  | .task p => p
  | .exit => s.head

def goto (t : Thread) (pc : Pc) (s : Heap) : Heap := { s with pc := update s.pc t pc }

def setDepth (t : Thread) (d : Nat) (s : Heap) : Heap :=
  { s with depth := update s.depth t d }

end Heap

def mmTakesemaphore (t : Thread) (s : Heap) : Heap :=
  if s.gHolder = some (s.getpid t) then s.goto t .inc else s.goto t .takeSem

def mmTrysemaphore (t : Thread) (free : Bool) (s : Heap) : Heap :=
  if s.gHolder = some (s.getpid t) then s.goto t .inc else s.goto t (.trySem free)

/-- The assertion and the test of `mm_givesemaphore`. -/
def mmGivesemaphore (t : Thread) (s : Heap) : Option Heap :=
  if s.gHolder = some (s.getpid t) then
    some (if 1 < s.gCountsHeld then s.goto t .giveDec else s.goto t .giveClear)
  else none

def semPost (s : Heap) : Heap :=
  let s := { s with semcount := s.semcount + 1 }
  if s.semcount ≤ 0 then
    match s.semWaiters with
    | [] => s
    | w :: ws => { s with semWaiters := ws }.goto w .got
  else s

def advance (t : Thread) (s : Heap) : Heap :=
  match s.pc t with
  | .idle => s
  | .waiting => s
  | .takeSem =>
    if 0 < s.semcount then { s with semcount := s.semcount - 1 }.goto t .got
    else { s with
      semcount := s.semcount - 1
      semWaiters := s.semWaiters ++ [t] }.goto t .waiting
  | .trySem free =>
    if 0 < s.semcount then { s with semcount := s.semcount - 1 }.goto t .got
    else s.goto t (if free then .defer else .idle)
  | .defer =>
    { s with
      delayed := s.delayed ++ (s.jobs.filter fun j : Thread × Nat => decide (j.1 = t)).map Prod.snd
      jobs := s.jobs.filter fun j : Thread × Nat => !decide (j.1 = t) }.goto t .idle
  | .got => { s with gHolder := some (s.getpid t) }.goto t .gotHolder
  | .gotHolder => ({ s with gCountsHeld := 1 }.setDepth t 1).goto t .idle
  | .inc => ({ s with gCountsHeld := s.gCountsHeld + 1 }.setDepth t (s.depth t + 1)).goto t .idle
  | .giveDec =>
    ({ s with gCountsHeld := s.gCountsHeld - 1 }.setDepth t (s.depth t - 1)).goto t .idle
  | .giveClear => { s with gHolder := none }.goto t .giveCount
  | .giveCount => { s with gCountsHeld := 0 }.goto t .givePost
  | .givePost => semPost ((s.setDepth t 0).goto t .idle)

def interrupt (t : Thread) (s : Heap) : Heap :=
  { s with
    semcount := s.semcount + 1
    semWaiters := s.semWaiters.erase t }.goto t .takeSem

/-- `sched_free` of a thread, up to the test of `mm_trysemaphore`. -/
def schedFree (t : Thread) (a : Nat) (s : Heap) : Heap :=
  mmTrysemaphore t true { s with
    jobs := (t, a) :: s.jobs
    passed := a :: s.passed }

def schedFreeIrq (a : Nat) (s : Heap) : Heap :=
  { s with
    delayed := s.delayed ++ [a]
    passed := a :: s.passed }

def collect (t : Thread) (s : Heap) : Heap :=
  match s.delayed with
  | [] => s
  | a :: delayed => { s with
      delayed := delayed
      jobs := (t, a) :: s.jobs }

def free (t : Thread) (s : Heap) : Heap :=
  { s with
    freed := (s.jobs.filter fun j : Thread × Nat => decide (j.1 = t)).map Prod.snd ++ s.freed
    jobs := s.jobs.filter fun j : Thread × Nat => !decide (j.1 = t) }

inductive Op
  | take (t : Thread)
  | try (t : Thread)
  | give (t : Thread)
  | advance (t : Thread)
  | interrupt (t : Thread)
  | schedFree (t : Thread) (a : Nat)
  | schedFreeIrq (a : Nat)
  | collect (t : Thread)
  | free (t : Thread)
  | switch (p : Nat)
  | exit (next : Nat)
  | exitDone
  | create (p : Nat)
  | delete (p : Nat)

namespace Op

def exec : Op → Heap → Option Heap
  | take t, s => some (mmTakesemaphore t s)
  | .try t, s => some (mmTrysemaphore t false s)
  | give t, s => mmGivesemaphore t s
  | advance t, s => some (Lock.advance t s)
  | interrupt t, s => some (Lock.interrupt t s)
  | schedFree t a, s => some (Lock.schedFree t a s)
  | schedFreeIrq a, s => some (Lock.schedFreeIrq a s)
  | collect t, s => some (Lock.collect t s)
  | free t, s => some (Lock.free t s)
  | switch p, s => some { s with head := p }
  | exit next, s => some { s with
      alive := update s.alive s.head false
      head := next
      exiting := true }
  | exitDone, s => some { s with exiting := false }
  | create p, s => some { s with alive := update s.alive p true }
  | delete p, s => some { s with
      alive := update s.alive p false
      pc := update s.pc (.task p) .idle
      semWaiters := s.semWaiters.erase (.task p) }

def Runs (s : Heap) : Thread → Prop
  | .task p => s.exiting = false ∧ s.head = p ∧ s.alive p = true
  | .exit => s.exiting = true

/-- The thread is in no function of the lock, and has no block to free. -/
def Outside (s : Heap) (t : Thread) : Prop :=
  (s.pc t = .idle ∨ s.pc t = .waiting) ∧ s.depth t = 0 ∧ ∀ j ∈ s.jobs, j.1 ≠ t

/-- Calls begin where none is going on, and only who has taken the lock gives it or frees. The
exiting thread enters the heap through `sched_free` only. A task leaves only from outside. -/
def valid (s : Heap) : Op → Prop
  | take t => Runs s t ∧ s.pc t = .idle ∧ (t = .exit → 0 < s.depth t)
  | .try t => Runs s t ∧ s.pc t = .idle ∧ (t = .exit → 0 < s.depth t)
  | give t => Runs s t ∧ s.pc t = .idle ∧ 0 < s.depth t
  | advance t => Runs s t ∧ s.pc t ≠ .idle ∧ s.pc t ≠ .waiting
  | interrupt t => s.exiting = false ∧ s.pc t = .waiting
  | schedFree t _ => Runs s t ∧ s.pc t = .idle ∧ ∀ j ∈ s.jobs, j.1 ≠ t
  | schedFreeIrq _ => True
  | collect t => Runs s t ∧ t ≠ .exit ∧ s.pc t = .idle ∧ ∀ j ∈ s.jobs, j.1 ≠ t
  | free t => Runs s t ∧ s.pc t = .idle ∧ 0 < s.depth t
  | switch p => s.exiting = false ∧ s.alive p = true
  | exit next => s.exiting = false ∧ s.alive s.head = true ∧ s.pc (.task s.head) = .idle ∧
      Outside s (.task s.head) ∧ s.alive next = true ∧ next ≠ s.head
  | exitDone => s.exiting = true ∧ Outside s .exit ∧ s.pc .exit = .idle
  | create p => s.alive p = false
  | delete p => p ≠ s.head ∧ s.alive p = true ∧ Outside s (.task p)

/-- The task that is at the head of `g_readytorun` when an exiting task calls `sched_free` was
not preempted while it is the recorded holder. -/
def keeps (s : Heap) : Op → Prop
  | schedFree t _ => t = .exit → s.depth t = 0 → s.gHolder ≠ some s.head
  | _ => True

end Op

def heapMachine : Machine Heap Op where
  valid s i := i.valid s
  exec s i := i.exec s

structure Start (s : Heap) : Prop where
  semcount : s.semcount = 1
  semWaiters : s.semWaiters = []
  gHolder : s.gHolder = none
  exiting : s.exiting = false
  pc : ∀ t, s.pc t = .idle
  depth : ∀ t, s.depth t = 0
  delayed : s.delayed = []
  jobs : s.jobs = []
  passed : s.passed = []
  freed : s.freed = []

def Inside (s : Heap) (t : Thread) : Prop :=
  0 < s.depth t ∨ s.pc t = .got ∨ s.pc t = .gotHolder

/-- `held`: what is recorded of a thread in the heap between its calls. `last`: the path of
`mm_givesemaphore` that posts is that of the last give. `blocks`: each block passed to
`sched_free` was freed once, or it waits for its one free. -/
structure Correct (s : Heap) : Prop where
  mutex : ∀ t t', Inside s t → Inside s t' → t = t'
  held : ∀ t, 0 < s.depth t → s.pc t = .idle →
    s.gHolder = some (s.getpid t) ∧ s.gCountsHeld = s.depth t
  last : ∀ t, s.pc t = .giveClear ∨ s.pc t = .giveCount ∨ s.pc t = .givePost → s.depth t = 1
  more : ∀ t, s.pc t = .giveDec → 1 < s.depth t
  blocks : s.passed.Perm (s.freed ++ (s.delayed ++ s.jobs.map Prod.snd))

def Local (mine : Prop) (me : Nat) (gHolder : Option Nat) (counts : Int) (depth : Nat) :
    Pc → Prop
  | .idle => (mine ↔ 0 < depth) ∧ (mine → gHolder = some me ∧ counts = depth)
  | .takeSem => ¬ mine ∧ depth = 0
  | .waiting => ¬ mine ∧ depth = 0
  | .trySem _ => ¬ mine ∧ depth = 0
  | .defer => ¬ mine ∧ depth = 0
  | .got => mine ∧ depth = 0 ∧ gHolder = none
  | .gotHolder => mine ∧ depth = 0 ∧ gHolder = some me
  | .inc => mine ∧ 0 < depth ∧ gHolder = some me ∧ counts = depth
  | .giveDec => mine ∧ 1 < depth ∧ gHolder = some me ∧ counts = depth
  | .giveClear => mine ∧ depth = 1 ∧ gHolder = some me ∧ counts = depth
  | .giveCount => mine ∧ depth = 1 ∧ gHolder = none
  | .givePost => mine ∧ depth = 1 ∧ gHolder = none

theorem Local.other {mine mine' : Prop} {me me' : Nat} {h h' : Option Nat} {c c' : Int}
    {d : Nat} {pc : Pc} (H : Local mine me h c d pc) (hm : ¬ mine) (hm' : ¬ mine') :
    Local mine' me' h' c' d pc := by
  cases pc <;> simp_all [Local]

theorem Local.mine {mine : Prop} {me : Nat} {h : Option Nat} {c : Int} {d : Nat} {pc : Pc}
    (H : Local mine me h c d pc) (hi : 0 < d ∨ pc = .got ∨ pc = .gotHolder) : mine := by
  cases pc <;> simp_all [Local]

structure Inv (owner : Option Thread) (s : Heap) : Prop where
  threads : ∀ t, Local (owner = some t) (s.getpid t) s.gHolder s.gCountsHeld (s.depth t) (s.pc t)
  unheld : owner = none → s.gHolder = none
  sem : s.semcount + s.semWaiters.length + owner.toList.length ≤ 1
  nodup : s.semWaiters.Nodup
  waiting : ∀ t, t ∈ s.semWaiters ↔ s.pc t = .waiting
  exiting : s.exiting = false → s.pc .exit = .idle ∧ s.depth .exit = 0
  blocks : s.passed.Perm (s.freed ++ (s.delayed ++ s.jobs.map Prod.snd))

variable {owner owner' : Option Thread} {s s' : Heap}

/-- A step of one thread. What is recorded changes only where no other thread is in the heap. -/
theorem Inv.move (I : Inv owner s) (t : Thread) (pc : Pc) (d : Nat)
    (hpc : s'.pc = update s.pc t pc) (hd : s'.depth = update s.depth t d)
    (hhead : s'.head = s.head) (hexit : s'.exiting = s.exiting)
    (hrun : t = .exit → s.exiting = true)
    (hown : ∀ u, u ≠ t → (owner' = some u ↔ owner = some u))
    (hrec : (∀ u, u ≠ t → owner ≠ some u) ∨
      s'.gHolder = s.gHolder ∧ s'.gCountsHeld = s.gCountsHeld)
    (hl : Local (owner' = some t) (s.getpid t) s'.gHolder s'.gCountsHeld d pc)
    (hu : owner' = none → s'.gHolder = none)
    (hsem : s'.semcount + s'.semWaiters.length + owner'.toList.length ≤ 1)
    (hnodup : s'.semWaiters.Nodup)
    (hw : ∀ u, u ∈ s'.semWaiters ↔ s'.pc u = .waiting)
    (hb : s'.passed.Perm (s'.freed ++ (s'.delayed ++ s'.jobs.map Prod.snd))) :
    Inv owner' s' where
  threads u := by
    have hpid : s'.getpid u = s.getpid u := by cases u <;> simp [Heap.getpid, hhead]
    rw [hpid]
    by_cases hut : u = t
    · subst hut
      simpa [hpc, hd] using hl
    · have H := I.threads u
      simp only [hpc, hd, update_of_ne hut]
      by_cases ho : owner = some u
      · rcases hrec with h | ⟨h, h'⟩
        · exact absurd ho (h u hut)
        · simpa only [h, h', hown u hut] using H
      · exact H.other ho (fun h => ho ((hown u hut).1 h))
  unheld := hu
  sem := hsem
  nodup := hnodup
  waiting := hw
  exiting h := by
    rw [hexit] at h
    have hne : Thread.exit ≠ t := by
      intro e
      rw [hrun e.symm] at h
      cases h
    simpa [hpc, hd, update_of_ne hne] using I.exiting h
  blocks := hb

theorem Inv.waiting_update (I : Inv owner s) {t : Thread} {pc : Pc} (h : s.pc t ≠ .waiting)
    (h' : pc ≠ .waiting) (u : Thread) :
    u ∈ s.semWaiters ↔ update s.pc t pc u = .waiting := by
  rw [I.waiting u]
  by_cases hut : u = t
  · subst hut
    simp [h, h']
  · simp [update_of_ne hut]

theorem Inv.goto (I : Inv owner s) {t : Thread} {pc : Pc} (hrun : t = .exit → s.exiting = true)
    (h : s.pc t ≠ .waiting) (h' : pc ≠ .waiting)
    (hl : Local (owner = some t) (s.getpid t) s.gHolder s.gCountsHeld (s.depth t) pc) :
    Inv owner (s.goto t pc) :=
  I.move t pc (s.depth t) rfl (by simp [Heap.goto]) rfl rfl hrun
    (fun _ _ => Iff.rfl) (.inr ⟨rfl, rfl⟩) hl I.unheld I.sem I.nodup
    (I.waiting_update h h') I.blocks

theorem Inv.record (I : Inv owner s) {t : Thread} {holder : Option Nat} {counts : Int}
    {depth : Thread → Nat} (d : Nat) (pc : Pc) (hd : depth = update s.depth t d)
    (hrun : t = .exit → s.exiting = true) (hmine : owner = some t) (h : s.pc t ≠ .waiting)
    (h' : pc ≠ .waiting) (hl : Local True (s.getpid t) holder counts d pc) :
    Inv owner ({ s with
      gHolder := holder
      gCountsHeld := counts
      depth := depth }.goto t pc) :=
  I.move t pc d rfl hd rfl rfl hrun (fun _ _ => Iff.rfl)
    (.inl fun u hu e => hu (Option.some.inj (e.symm.trans hmine)))
    (by simpa [Heap.goto, hmine] using hl)
    (fun e => by simp [e] at hmine) I.sem I.nodup (I.waiting_update h h') I.blocks

theorem Inv.enter (I : Inv none s) {t : Thread} {semcount : Int} (ws : List Thread)
    (hrun : t = .exit → s.exiting = true) (hl : s.depth t = 0)
    (hsem : semcount + ws.length + 1 ≤ 1) (hnodup : ws.Nodup)
    (hw : ∀ u, u ∈ ws ↔ update s.pc t .got u = .waiting) :
    Inv (some t) ({ s with semcount := semcount, semWaiters := ws }.goto t .got) :=
  I.move t .got (s.depth t) rfl (by simp [Heap.goto]) rfl rfl hrun
    (fun u hu => by simp [Ne.symm hu]) (.inl fun _ _ e => by cases e)
    (by simpa [Local, Heap.goto] using ⟨hl, I.unheld rfl⟩) (fun e => by cases e)
    (by simpa [Heap.goto] using hsem) hnodup hw I.blocks

/-- A thread that is in no call, or gives up the count, leaves the semaphore to the first one
that waits. -/
theorem Inv.semPost (I : Inv none s) (hsem : s.semcount + s.semWaiters.length + 1 ≤ 1) :
    ∃ owner', Inv owner' (Lock.semPost s) := by
  have I' : Inv none { s with semcount := s.semcount + 1 } :=
    { I with sem := by simp; omega }
  unfold Lock.semPost
  dsimp only
  split
  · cases hws : s.semWaiters with
    | nil =>
      rw [hws] at I'
      exact ⟨none, I'⟩
    | cons w ws =>
      have hwait : s.pc w = .waiting := (I.waiting w).1 (by simp [hws])
      have hnd := I.nodup
      rw [hws] at hnd
      refine ⟨some w, I'.enter ws (t := w) ?_ ?_ ?_ (List.nodup_cons.mp hnd).2 ?_⟩
      · rintro rfl
        cases he : s.exiting with
        | true => rfl
        | false =>
          rw [(I.exiting he).1] at hwait
          cases hwait
      · have H := I.threads w
        rw [hwait] at H
        exact H.2
      · rw [hws, List.length_cons] at hsem
        push_cast at hsem
        omega
      · intro u
        by_cases huw : u = w
        · subst huw
          simp [(List.nodup_cons.mp hnd).1]
        · have := I.waiting u
          rw [hws, List.mem_cons] at this
          simpa [huw, update_of_ne huw] using this
  · exact ⟨none, I'⟩

/-- What is kept of a thread says that the lock is free to be taken where its count is. -/
theorem Inv.free_of_pos (I : Inv owner s) (h : 0 < s.semcount) :
    owner = none ∧ s.semWaiters = [] := by
  have hs := I.sem
  constructor
  · cases owner with
    | none => rfl
    | some u => simp at hs; omega
  · rw [← List.length_eq_zero_iff]
    omega

theorem Inv.trySuccess (I : Inv owner s) {t : Thread} (hrun : t = .exit → s.exiting = true)
    (hpc : s.pc t ≠ .waiting) (hl : s.depth t = 0) (h : 0 < s.semcount) :
    ∃ owner', Inv owner' ({ s with semcount := s.semcount - 1 }.goto t .got) := by
  obtain ⟨rfl, hws⟩ := I.free_of_pos h
  have hs := I.sem
  simp only [hws, List.length_nil, Option.toList_none] at hs
  refine ⟨some t, I.enter s.semWaiters hrun hl ?_ I.nodup ?_⟩
  · rw [hws]
    simp
    omega
  · exact I.waiting_update hpc (by simp)

theorem perm_jobs (s : Heap) (t : Thread) :
    (s.delayed ++ s.jobs.map Prod.snd).Perm
      (s.delayed ++ (s.jobs.filter fun j => decide (j.1 = t)).map Prod.snd ++
        (s.jobs.filter fun j => !decide (j.1 = t)).map Prod.snd) := by
  rw [List.append_assoc, ← List.map_append]
  exact ((List.filter_append_perm (fun j => decide (j.1 = t)) s.jobs).symm.map _).append_left _

theorem perm_cons_jobs {freed delayed jobs : List Nat} (a : Nat) :
    (a :: (freed ++ (delayed ++ jobs))).Perm (freed ++ (delayed ++ a :: jobs)) := by
  rw [← List.append_assoc, ← List.append_assoc]
  exact List.perm_middle.symm

theorem Inv.advance (I : Inv owner s) {t : Thread} (hrun : t = .exit → s.exiting = true) :
    ∃ owner', Inv owner' (Lock.advance t s) := by
  have H := I.threads t
  unfold Lock.advance
  cases hpc : s.pc t with
  | idle => exact ⟨owner, I⟩
  | waiting => exact ⟨owner, I⟩
  | takeSem =>
    rw [hpc] at H
    have hne : s.pc t ≠ .waiting := by simp [hpc]
    dsimp only
    split
    · exact I.trySuccess hrun hne H.2 ‹_›
    · have hs := I.sem
      have hnot : t ∉ s.semWaiters := fun hm => hne ((I.waiting t).1 hm)
      refine ⟨owner, I.move t .waiting (s.depth t) rfl
        (by simp [Heap.goto]) rfl rfl hrun (fun _ _ => Iff.rfl) (.inr ⟨rfl, rfl⟩) H I.unheld
        ?_ ?_ ?_ I.blocks⟩
      · simp only [Heap.goto, List.length_append, List.length_singleton]
        push_cast
        omega
      · exact List.Nodup.append I.nodup (List.nodup_singleton t)
          (List.disjoint_singleton.mpr hnot)
      · intro u
        by_cases hut : u = t
        · subst hut
          simp [Heap.goto]
        · simp [Heap.goto, hut, I.waiting u]
  | trySem free =>
    rw [hpc] at H
    have hne : s.pc t ≠ .waiting := by simp [hpc]
    dsimp only
    split
    · exact I.trySuccess hrun hne H.2 ‹_›
    · refine ⟨owner, I.goto hrun hne ?_ ?_⟩
      · cases free <;> simp
      · cases free
        · simp [Local, H.1, H.2]
        · exact H
  | defer =>
    rw [hpc] at H
    have hb := I.blocks
    refine ⟨owner, I.move t .idle (s.depth t) rfl (by simp [Heap.goto])
      rfl rfl hrun (fun _ _ => Iff.rfl) (.inr ⟨rfl, rfl⟩) ?_ I.unheld I.sem I.nodup
      (I.waiting_update (by simp [hpc]) (by simp)) ?_⟩
    · simp [Local, H.1, H.2]
    · exact hb.trans ((perm_jobs s t).append_left _)
  | got =>
    rw [hpc] at H
    exact ⟨owner, I.record 0 .gotHolder (by simp [← H.2.1]) hrun H.1 (by simp [hpc])
      (by simp) ⟨trivial, rfl, rfl⟩⟩
  | gotHolder =>
    rw [hpc] at H
    exact ⟨owner, I.record 1 .idle rfl hrun H.1 (by simp [hpc]) (by simp)
      ⟨by simp, fun _ => ⟨H.2.2, rfl⟩⟩⟩
  | inc =>
    rw [hpc] at H
    obtain ⟨hm, -, hh, hc⟩ := H
    exact ⟨owner, I.record (s.depth t + 1) .idle rfl hrun hm (by simp [hpc]) (by simp)
      ⟨by simp, fun _ => ⟨hh, by rw [hc]; simp⟩⟩⟩
  | giveDec =>
    rw [hpc] at H
    obtain ⟨hm, hd, hh, hc⟩ := H
    have hc' : s.gCountsHeld - 1 = (s.depth t - 1 : Nat) := by omega
    exact ⟨owner, I.record (s.depth t - 1) .idle rfl hrun hm (by simp [hpc]) (by simp)
      ⟨by simp; omega, fun _ => ⟨hh, hc'⟩⟩⟩
  | giveClear =>
    rw [hpc] at H
    exact ⟨owner, I.record 1 .giveCount (by simp [← H.2.1]) hrun H.1 (by simp [hpc])
      (by simp) ⟨trivial, rfl, rfl⟩⟩
  | giveCount =>
    rw [hpc] at H
    exact ⟨owner, I.record 1 .givePost (by simp [← H.2.1]) hrun H.1 (by simp [hpc])
      (by simp) ⟨trivial, rfl, H.2.2⟩⟩
  | givePost =>
    rw [hpc] at H
    obtain ⟨hm, -, hh⟩ := H
    subst hm
    have hs := I.sem
    have hne : s.pc t ≠ .waiting := by simp [hpc]
    have J : Inv none ((s.setDepth t 0).goto t .idle) :=
      I.move t .idle 0 rfl rfl rfl rfl hrun
        (fun u hu => by simp [Ne.symm hu])
        (.inl fun u hu e => hu (Option.some.inj e).symm)
        (by simp [Local]) (fun _ => hh)
        (by
          simp only [Heap.goto, Heap.setDepth, Option.toList_none, List.length_nil]
          simp only [Option.toList_some, List.length_singleton] at hs
          omega)
        I.nodup (I.waiting_update hne (by simp)) I.blocks
    exact J.semPost (by simpa [Heap.goto, Heap.setDepth] using hs)

theorem Local.holder {me x : Nat} {h : Option Nat} {c : Int} {d : Nat} {pc : Pc}
    (H : Local True me h c d pc) (hx : h = some x) : me = x := by
  cases pc <;> simp_all [Local]

theorem Inv.owner_of_holder (I : Inv owner s) {t : Thread} (hr : Op.Runs s t)
    (hx : t = .exit → s.depth t = 0 → s.gHolder ≠ some s.head)
    (h : s.gHolder = some (s.getpid t)) : owner = some t := by
  cases ho : owner with
  | none =>
    rw [I.unheld ho] at h
    cases h
  | some u =>
    have H := I.threads u
    simp only [ho] at H
    have hpid := H.holder h
    cases t with
    | exit =>
      by_cases hd : s.depth .exit = 0
      · exact absurd h (hx rfl hd)
      · rw [← ho]
        exact (I.threads .exit).mine (.inl (Nat.pos_of_ne_zero hd))
    | task p =>
      cases u with
      | task q =>
        have hqp : q = p := hpid
        rw [hqp]
      | exit =>
        obtain ⟨hi, hd⟩ := I.exiting hr.1
        rw [hi, hd] at H
        simp [Local] at H

theorem Op.Runs.exiting {t : Thread} (hr : Op.Runs s t) : t = .exit → s.exiting = true := by
  rintro rfl
  exact hr

theorem Inv.test (I : Inv owner s) {t : Thread} (pc : Pc) (hr : Op.Runs s t)
    (hpc : s.pc t = .idle) (hx : t = .exit → s.depth t = 0 → s.gHolder ≠ some s.head)
    (hp : pc ≠ .waiting)
    (hl : ∀ mine me h c, ¬ mine → Local mine me h c 0 pc) :
    Inv owner (if s.gHolder = some (s.getpid t) then s.goto t .inc else s.goto t pc) := by
  have H := I.threads t
  rw [hpc] at H
  have hrun := hr.exiting
  have hne : s.pc t ≠ .waiting := by simp [hpc]
  split
  · rename_i hh
    have hm := I.owner_of_holder hr hx hh
    exact I.goto hrun hne (by simp) ⟨hm, H.1.1 hm, H.2 hm⟩
  · rename_i hh
    have hm : ¬ owner = some t := fun hm => hh (H.2 hm).1
    have hd : s.depth t = 0 := Nat.eq_zero_of_not_pos fun h => hm (H.1.2 h)
    refine I.goto hrun hne hp ?_
    rw [hd]
    exact hl _ _ _ _ hm

theorem Inv.give (I : Inv owner s) {t : Thread} (hr : Op.Runs s t) (hpc : s.pc t = .idle)
    (hd : 0 < s.depth t) : ∃ s', mmGivesemaphore t s = some s' ∧ Inv owner s' := by
  have H := I.threads t
  rw [hpc] at H
  have hrun := hr.exiting
  have hm := H.1.2 hd
  obtain ⟨hh, hc⟩ := H.2 hm
  refine ⟨_, if_pos hh, ?_⟩
  split
  · exact I.goto hrun (by simp [hpc]) (by simp) ⟨hm, by omega, hh, hc⟩
  · exact I.goto hrun (by simp [hpc]) (by simp) ⟨hm, by omega, hh, hc⟩

theorem Inv.unwait (I : Inv owner s) {t : Thread} (semcount : Int) (pc : Pc)
    (alive : Nat → Bool) (hrun : t = .exit → s.exiting = true) (hpc : pc ≠ .waiting)
    (hl : Local (owner = some t) (s.getpid t) s.gHolder s.gCountsHeld (s.depth t) pc)
    (hsem : semcount + (s.semWaiters.erase t).length + owner.toList.length ≤ 1) :
    Inv owner ({ s with
      semcount := semcount
      alive := alive
      semWaiters := s.semWaiters.erase t }.goto t pc) :=
  I.move t pc (s.depth t) rfl (by simp [Heap.goto]) rfl rfl hrun
    (fun _ _ => Iff.rfl) (.inr ⟨rfl, rfl⟩) hl I.unheld hsem (I.nodup.erase t)
    (by
      intro u
      simp only [Heap.goto, I.nodup.mem_erase_iff, I.waiting u]
      by_cases hut : u = t
      · subst hut
        simp [hpc]
      · simp [hut])
    I.blocks

theorem Inv.interrupt (I : Inv owner s) {t : Thread} (hpc : s.pc t = .waiting) :
    Inv owner (Lock.interrupt t s) := by
  have H := I.threads t
  rw [hpc] at H
  have hmem := (I.waiting t).2 hpc
  have hlen := List.length_pos_of_mem hmem
  have hs := I.sem
  refine I.unwait (t := t) (s.semcount + 1) .takeSem s.alive ?_ (by simp) H ?_
  · rintro rfl
    cases he : s.exiting with
    | true => rfl
    | false =>
      rw [(I.exiting he).1] at hpc
      cases hpc
  · rw [List.length_erase_of_mem hmem]
    omega

theorem Inv.switch (I : Inv owner s) (he : s.exiting = false) (p : Nat) (alive : Nat → Bool)
    (exiting : Bool) :
    Inv owner { s with head := p, alive := alive, exiting := exiting } :=
  { I with
    threads := by
      intro t
      cases t with
      | task q => exact I.threads (.task q)
      | exit =>
        obtain ⟨hi, hd⟩ := I.exiting he
        have H := I.threads .exit
        rw [hi, hd] at H
        have hm : ¬ owner = some .exit := fun hm => absurd (H.1.1 hm) (Nat.lt_irrefl 0)
        simp only [hi, hd]
        exact H.other hm hm
    exiting := fun _ => I.exiting he }

theorem Inv.step (I : Inv owner s) {i : Op} (hv : i.valid s) (hk : i.keeps s)
    (h : i.exec s = some s') : ∃ owner', Inv owner' s' := by
  cases i with
  | take t =>
    obtain ⟨hr, hpc, hx⟩ := hv
    have J := I.test .takeSem hr hpc (fun e hd => absurd (hx e) (by omega)) (by simp)
      (fun _ _ _ _ hm => ⟨hm, rfl⟩)
    exact ⟨owner, Option.some.inj h ▸ J⟩
  | «try» t =>
    obtain ⟨hr, hpc, hx⟩ := hv
    have J := I.test (.trySem false) hr hpc (fun e hd => absurd (hx e) (by omega))
      (by simp) (fun _ _ _ _ hm => ⟨hm, rfl⟩)
    exact ⟨owner, Option.some.inj h ▸ J⟩
  | give t =>
    obtain ⟨hr, hpc, hd⟩ := hv
    obtain ⟨s'', he, J⟩ := I.give hr hpc hd
    rw [Op.exec, he] at h
    exact ⟨owner, Option.some.inj h ▸ J⟩
  | advance t =>
    obtain ⟨owner', J⟩ := I.advance (t := t) hv.1.exiting
    exact ⟨owner', Option.some.inj h ▸ J⟩
  | interrupt t => exact ⟨owner, Option.some.inj h ▸ I.interrupt hv.2⟩
  | schedFree t a =>
    obtain ⟨hr, hpc, -⟩ := hv
    have I' : Inv owner { s with
        jobs := (t, a) :: s.jobs
        passed := a :: s.passed } :=
      { I with blocks := (I.blocks.cons a).trans (perm_cons_jobs a) }
    have J := I'.test (.trySem true) (t := t) hr hpc hk (by simp)
      (fun _ _ _ _ hm => ⟨hm, rfl⟩)
    exact ⟨owner, Option.some.inj h ▸ J⟩
  | schedFreeIrq a =>
    have J : Inv owner (schedFreeIrq a s) :=
      { I with
        blocks := by
          refine (I.blocks.cons a).trans ((perm_cons_jobs a).trans ?_)
          simp [schedFreeIrq] }
    exact ⟨owner, Option.some.inj h ▸ J⟩
  | collect t =>
    have J : Inv owner (Lock.collect t s) := by
      unfold Lock.collect
      cases hd : s.delayed with
      | nil => exact I
      | cons a delayed =>
        refine { I with blocks := ?_ }
        have hb := I.blocks
        rw [hd] at hb
        refine hb.trans (List.Perm.append_left _ ?_)
        exact List.perm_middle.symm
    exact ⟨owner, Option.some.inj h ▸ J⟩
  | free t =>
    have J : Inv owner (Lock.free t s) := by
      refine { I with blocks := ?_ }
      refine I.blocks.trans (((perm_jobs s t).append_left _).trans ?_)
      simp only [Lock.free, List.append_assoc]
      rw [← List.append_assoc s.freed s.delayed, ← List.append_assoc s.freed s.delayed]
      refine List.perm_append_comm_assoc _ _ _
    exact ⟨owner, Option.some.inj h ▸ J⟩
  | switch p => exact ⟨owner, Option.some.inj h ▸ I.switch hv.1 p s.alive s.exiting⟩
  | exit next => exact ⟨owner, Option.some.inj h ▸ I.switch hv.1 next _ true⟩
  | exitDone =>
    have J : Inv owner { s with exiting := false } :=
      { I with exiting := fun _ => ⟨hv.2.2, hv.2.1.2.1⟩ }
    exact ⟨owner, Option.some.inj h ▸ J⟩
  | create p =>
    have J : Inv owner { s with alive := update s.alive p true } := { I with }
    exact ⟨owner, Option.some.inj h ▸ J⟩
  | delete p =>
    obtain ⟨-, -, hpc, hd, -⟩ := hv
    have hm : ¬ owner = some (.task p) := by
      have H := I.threads (.task p)
      rw [hd] at H
      rcases hpc with hpc | hpc
      · rw [hpc] at H
        exact fun hm => absurd (H.1.1 hm) (Nat.lt_irrefl 0)
      · rw [hpc] at H
        exact H.1
    have hs := I.sem
    have hle := List.length_erase_le (a := Thread.task p) (l := s.semWaiters)
    have J := I.unwait (t := .task p) s.semcount .idle
      (update s.alive p false) (fun e => by cases e) (by simp)
      ⟨⟨fun e => absurd e hm, fun e => by omega⟩, fun e => absurd e hm⟩ (by omega)
    exact ⟨owner, Option.some.inj h ▸ J⟩

theorem Start.inv (h : Start s) : Inv none s where
  threads t := by simp [h.pc t, h.depth t, Local]
  unheld _ := h.gHolder
  sem := by simp [h.semcount, h.semWaiters]
  nodup := by simp [h.semWaiters]
  waiting t := by simp [h.semWaiters, h.pc t]
  exiting _ := ⟨h.pc .exit, h.depth .exit⟩
  blocks := by simp [h.passed, h.freed, h.delayed, h.jobs]

theorem Inv.correct (I : Inv owner s) : Correct s where
  mutex t t' h h' :=
    Option.some.inj (((I.threads t).mine h).symm.trans ((I.threads t').mine h'))
  held t hd hpc := by
    have H := I.threads t
    rw [hpc] at H
    exact H.2 (H.1.2 hd)
  last t hpc := by
    have H := I.threads t
    rcases hpc with hpc | hpc | hpc
    · rw [hpc] at H
      exact H.2.1
    · rw [hpc] at H
      exact H.2.1
    · rw [hpc] at H
      exact H.2.1
  more t hpc := by
    have H := I.threads t
    rw [hpc] at H
    exact H.2.1
  blocks := I.blocks

/-- In every run in which no exiting task frees while the task at the head of `g_readytorun` is
the recorded holder, the lock is held by one thread and no block is lost or freed twice. -/
theorem heap_lock {s : Heap} (h : Reach heapMachine Start (fun s i => i.keeps s) s) :
    Correct s := by
  have I : ∃ owner, Inv owner s := by
    apply h.invariant
    · intro s h0
      exact ⟨none, h0.inv⟩
    · rintro s i s' ⟨owner, I⟩ hv hk he
      exact I.step hv hk he
  exact I.elim fun _ I => I.correct

instance decidableRuns (s : Heap) (t : Thread) : Decidable (Op.Runs s t) :=
  match t with
  | .task p => inferInstanceAs (Decidable (s.exiting = false ∧ s.head = p ∧ s.alive p = true))
  | .exit => inferInstanceAs (Decidable (s.exiting = true))

instance decidableOutside (s : Heap) (t : Thread) : Decidable (Op.Outside s t) :=
  inferInstanceAs (Decidable ((s.pc t = .idle ∨ s.pc t = .waiting) ∧ s.depth t = 0 ∧
    ∀ j ∈ s.jobs, j.1 ≠ t))

instance decidableLockValid (s : Heap) (i : Op) : Decidable (heapMachine.valid s i) :=
  match i with
  | .take t => inferInstanceAs (Decidable (Op.Runs s t ∧ s.pc t = .idle ∧
      (t = .exit → 0 < s.depth t)))
  | .try t => inferInstanceAs (Decidable (Op.Runs s t ∧ s.pc t = .idle ∧
      (t = .exit → 0 < s.depth t)))
  | .give t => inferInstanceAs (Decidable (Op.Runs s t ∧ s.pc t = .idle ∧ 0 < s.depth t))
  | .advance t => inferInstanceAs (Decidable (Op.Runs s t ∧ s.pc t ≠ .idle ∧ s.pc t ≠ .waiting))
  | .interrupt t => inferInstanceAs (Decidable (s.exiting = false ∧ s.pc t = .waiting))
  | .schedFree t _ => inferInstanceAs (Decidable (Op.Runs s t ∧ s.pc t = .idle ∧
      ∀ j ∈ s.jobs, j.1 ≠ t))
  | .schedFreeIrq _ => inferInstanceAs (Decidable True)
  | .collect t => inferInstanceAs (Decidable (Op.Runs s t ∧ t ≠ .exit ∧ s.pc t = .idle ∧
      ∀ j ∈ s.jobs, j.1 ≠ t))
  | .free t => inferInstanceAs (Decidable (Op.Runs s t ∧ s.pc t = .idle ∧ 0 < s.depth t))
  | .switch p => inferInstanceAs (Decidable (s.exiting = false ∧ s.alive p = true))
  | .exit next => inferInstanceAs (Decidable (s.exiting = false ∧ s.alive s.head = true ∧
      s.pc (.task s.head) = .idle ∧ Op.Outside s (.task s.head) ∧ s.alive next = true ∧
      next ≠ s.head))
  | .exitDone => inferInstanceAs (Decidable (s.exiting = true ∧ Op.Outside s .exit ∧
      s.pc .exit = .idle))
  | .create p => inferInstanceAs (Decidable (s.alive p = false))
  | .delete p => inferInstanceAs (Decidable (p ≠ s.head ∧ s.alive p = true ∧
      Op.Outside s (.task p)))

instance decidableLockKeeps (s : Heap) (i : Op) : Decidable (i.keeps s) :=
  match i with
  | .schedFree t _ => inferInstanceAs (Decidable (t = .exit → s.depth t = 0 →
      s.gHolder ≠ some s.head))
  | .take _ => inferInstanceAs (Decidable True)
  | .try _ => inferInstanceAs (Decidable True)
  | .give _ => inferInstanceAs (Decidable True)
  | .advance _ => inferInstanceAs (Decidable True)
  | .interrupt _ => inferInstanceAs (Decidable True)
  | .schedFreeIrq _ => inferInstanceAs (Decidable True)
  | .collect _ => inferInstanceAs (Decidable True)
  | .free _ => inferInstanceAs (Decidable True)
  | .switch _ => inferInstanceAs (Decidable True)
  | .exit _ => inferInstanceAs (Decidable True)
  | .exitDone => inferInstanceAs (Decidable True)
  | .create _ => inferInstanceAs (Decidable True)
  | .delete _ => inferInstanceAs (Decidable True)

def threeTasks : Heap where
  semcount := 1
  semWaiters := []
  gHolder := none
  gCountsHeld := 0
  head := 1
  exiting := false
  alive p := decide (p < 4)
  pc _ := .idle
  depth _ := 0
  delayed := []
  jobs := []
  passed := []
  freed := []

theorem threeTasks_start : Start threeTasks :=
  ⟨rfl, rfl, rfl, rfl, fun _ => rfl, fun _ => rfl, rfl, rfl, rfl, rfl⟩

/-- Task 1 takes the lock and is preempted, task 2 waits and is interrupted, task 3 exits and
defers a block, which task 1 collects and frees. -/
def lockRun : List Op :=
  [.take (.task 1), .advance (.task 1), .advance (.task 1), .advance (.task 1), .switch 2,
    .take (.task 2), .advance (.task 2), .interrupt (.task 2), .advance (.task 2), .switch 3,
    .exit 2, .schedFree .exit 30, .advance .exit, .advance .exit, .exitDone, .switch 1,
    .collect (.task 1), .take (.task 1), .advance (.task 1), .free (.task 1), .give (.task 1),
    .advance (.task 1), .give (.task 1), .advance (.task 1), .advance (.task 1),
    .advance (.task 1), .schedFreeIrq 40]

theorem heap_lock_run : ∃ s, runAll heapMachine (fun s i => i.keeps s) threeTasks lockRun =
    some s ∧ (s.freed = [30] ∧ s.pc (.task 2) = .got) ∧ Correct s :=
  have h : ∃ s, runAll heapMachine (fun s i => i.keeps s) threeTasks lockRun = some s ∧
      (s.freed = [30] ∧ s.pc (.task 2) = .got) := by
    decide +kernel
  h.elim fun s hs => ⟨s, hs.1, hs.2, heap_lock (.runAll (.init threeTasks_start) hs.1)⟩

/-- Task 1 is preempted in the heap; task 2 exits, and its `sched_free` enters as task 1. -/
theorem exit_enters_heap : ¬ ∀ s : Heap, Reachable heapMachine Start s → Correct s := by
  intro hall
  have hr : ∃ s, runAll heapMachine (fun _ _ => True) threeTasks
      [.take (.task 1), .advance (.task 1), .advance (.task 1), .advance (.task 1), .switch 2,
        .exit 1, .schedFree .exit 30, .advance .exit] = some s ∧
      0 < s.depth (.task 1) ∧ 0 < s.depth .exit := by
    decide +kernel
  obtain ⟨s, hs, h1, h2⟩ := hr
  have hc := (hall s (.runAll (.init threeTasks_start) hs)).mutex (.task 1) .exit (.inl h1)
    (.inl h2)
  cases hc

end NuttxAvr32.Mm.Lock
