import NuttxAvr32.Sched.Runs
import Mathlib.Data.List.Rotate

/-! # Round robin

The time slices of tasks of one priority, in runs made of timer ticks and calls of the preemption
lock. A turn is the time that a task is at the head of `g_readytorun`.
-/

namespace NuttxAvr32.Sched

open Keyed Runs

/-- The tasks in the order of their turns, and the ticks since the first one came to the head. -/
structure Turn where
  order : List Nat
  ticks : Nat
deriving DecidableEq

/-- A turn ends with the last tick of the slice, or with the first one after it at which the
running task yields. -/
def Turn.tick (slice : Nat) (yields : Bool) (s : Turn) : Turn :=
  if yields = true ∧ slice ≤ s.ticks + 1 then ⟨s.order.rotate 1, 0⟩ else ⟨s.order, s.ticks + 1⟩

/-- Whether the running task is a round robin task without a lock. -/
def Kernel.yields (k : Kernel) : Bool :=
  (k.tcb k.head).roundRobin && decide ((k.tcb k.head).lockcount = 0)

def Turn.next (slice : Nat) (k : Kernel) (s : Turn) : Op → Turn
  | .timeslice => s.tick slice k.yields
  | _ => s

/-- Timer ticks and calls of the lock; no unlock makes a pending task ready. -/
def quiet (k : Kernel) : Op → Prop
  | .timeslice | .lock _ => True
  | .unlock irq => irq = false → (k.tcb k.head).lockcount ≤ 1 → k.pending = []
  | _ => False

instance (k : Kernel) : (i : Op) → Decidable (quiet k i)
  | .timeslice | .lock _ => .isTrue trivial
  | .unlock irq => inferInstanceAs
      (Decidable (irq = false → (k.tcb k.head).lockcount ≤ 1 → k.pending = []))
  | .create _ _ | .activate _ | .block _ _ | .unblock _ | .setpriority _ _ _ | .releasePending
  | .delete _ _ | .deletecurrent => .isFalse id

def turnMachine (cfg : Config) (slice : Nat) : Machine (Kernel × Turn) Op where
  valid s i := quiet s.1 i
  exec s i := (i.exec cfg s.1).map fun k => (k, s.2.next slice s.1 i)

instance (cfg : Config) (slice : Nat) (s : Kernel × Turn) (i : Op) :
    Decidable ((turnMachine cfg slice).valid s i) := inferInstanceAs (Decidable (quiet s.1 i))

/-- Two or more tasks of one priority in front of all others; those with round robin scheduling have
full slices. -/
structure Slices (cfg : Config) (slice : Nat) (tasks lower : List Nat) (k : Kernel) : Prop where
  ok : Ok k
  config : cfg.timeslice = some slice
  pos : 0 < slice
  two : 2 ≤ tasks.length
  ready : k.ready = tasks ++ lower
  prio : ∃ p, (∀ t ∈ tasks, k.prio t = p) ∧ ∀ t ∈ lower, k.prio t < p
  full : ∀ t ∈ tasks, (k.tcb t).roundRobin = true → (k.tcb t).timeslice = slice

/-- What holds of the scheduler and its turns; `rr` are the round robin tasks. -/
structure Round (slice : Nat) (tasks lower : List Nat) (rr : Nat → Bool) (k : Kernel) (s : Turn) :
    Prop where
  ok : Ok k
  ready : k.ready = s.order ++ lower
  order : ∃ r, s.order = tasks.rotate r
  prio : ∃ p, (∀ t ∈ tasks, k.prio t = p) ∧ ∀ t ∈ lower, k.prio t < p
  roundRobin : ∀ t, (k.tcb t).roundRobin = rr t
  timeslice : ∀ t ∈ tasks, rr t = true →
    (k.tcb t).timeslice = if t = k.head then max 1 (slice - s.ticks) else slice

section

variable {cfg : Config} {slice : Nat} {tasks lower : List Nat} {k k' : Kernel} {s : Turn}

theorem insertKeyed_between {key : Nat → Nat} {x : Nat} {l₁ l₂ : List Nat}
    (h₁ : ∀ y ∈ l₁, key x ≤ key y) (h₂ : ∀ y ∈ l₂, key y < key x) :
    insertKeyed key x (l₁ ++ l₂) = l₁ ++ x :: l₂ := by
  induction l₁ with
  | nil =>
    refine head?_insertKeyed_of_lt fun y hy => h₂ y (List.mem_of_mem_head? hy)
  | cons y l₁ ih =>
    have hy : ¬ key y < key x := not_lt.mpr (h₁ y List.mem_cons_self)
    rw [List.cons_append, insertKeyed_cons, if_neg hy,
      ih fun z hz => h₁ z (List.mem_cons_of_mem _ hz)]
    rfl

/-- The running task, given its own priority again, goes behind all tasks of that priority. -/
theorem Ok.rotate (O : Ok k) {h n : Nat} {peers : List Nat} (hpend : k.pending = [])
    (hready : k.ready = h :: n :: (peers ++ lower)) (hn : k.prio n = k.prio h)
    (hpeers : ∀ t ∈ peers, k.prio t = k.prio h) (hlower : ∀ t ∈ lower, k.prio t < k.prio h) :
    ∃ k', upReprioritizeRtr h (k.prio h) k = some k' ∧ Ok k' ∧ SetPrio h (k.prio h) k k' ∧
      k'.ready = n :: (peers ++ h :: lower) := by
  have hhead : k.head = h := head_eq (by rw [hready]; rfl)
  have hmem : h ∈ k.ready := hhead ▸ O.wf.head_mem
  have hidle : h ≠ gIdletcb := by
    intro he
    have htail := O.wf.tail_idle (hhead.trans he)
    rw [hready] at htail
    cases htail
  have hp := O.wf.prio .readytorun h hmem hidle
  obtain ⟨k', hk', O', P', -, -⟩ := O.reprioritize hmem hidle hp
  refine ⟨k', hk', O', P', ?_⟩
  obtain ⟨k₁, hk₁, W₁, R₁, P₁, hnot, L₁, B₁, hhead₁⟩ := O.removed (p := k.prio h) hmem hidle
  have hprio : k₁.prio = k.prio := by
    rw [P₁.prio, Function.update_eq_self]
  have hready₁ : k₁.ready = n :: (peers ++ lower) := by
    rw [hk₁]
    show (schedRemovereadytorun h k).1.list .readytorun = _
    rw [removereadytorun_list, setList_list_same, hready, List.erase_cons_head]
  have hle : k₁.prio h ≤ k₁.prio k₁.head := by
    rw [head_eq (k := k₁) (by rw [hready₁]; rfl), hprio, hn]
  have hpend₁ : k₁.pending = [] := (B₁ .pendingtasks (by decide)).trans hpend
  have hins : insertKeyed k₁.prio h k₁.ready = n :: (peers ++ h :: lower) := by
    have hlist : n :: (peers ++ lower) = (n :: peers) ++ lower := rfl
    rw [hready₁, hprio, hlist, insertKeyed_between]
    · rfl
    · intro y hy
      rcases List.mem_cons.mp hy with rfl | hy
      · exact hn.ge
      · exact (hpeers y hy).ge
    · exact hlower
  have A := W₁.added hnot
  unfold upReprioritizeRtr at hk'
  rw [if_pos ⟨isReady_of_ready O.wf hmem, hp⟩] at hk'
  dsimp only at hk'
  rw [← hk₁, removereadytorun_eq O.wf hidle, if_pos hhead.symm] at hk'
  generalize schedAddreadytorun h k₁ = r at A hk'
  cases A with
  | parked _ hlt => exact absurd hle (not_le.mpr hlt)
  | top _ hlt => exact absurd hle (not_le.mpr hlt)
  | behind =>
    rw [← Option.some.inj hk']
    have hnil : ((k₁.setList .readytorun (insertKeyed k₁.prio h k₁.ready)).setState h
        .readytorun).pending = [] := by
      have hother : (k₁.setList .readytorun (insertKeyed k₁.prio h k₁.ready)).list
          .pendingtasks = k₁.list .pendingtasks := setList_list_of_ne (by decide)
      exact hother.trans hpend₁
    unfold mergeIfPending
    rw [if_neg (not_not.mpr hnil), ite_self, ← hins]
    show (k₁.setList .readytorun (insertKeyed k₁.prio h k₁.ready)).list .readytorun = _
    exact setList_list_same

end

section

variable {cfg : Config} {slice : Nat} {tasks lower : List Nat} {rr : Nat → Bool} {k k' : Kernel}
  {s : Turn}

theorem Slices.round (S : Slices cfg slice tasks lower k) :
    Round slice tasks lower (fun t => (k.tcb t).roundRobin) k ⟨tasks, 0⟩ := by
  refine ⟨S.ok, S.ready, ⟨0, (List.rotate_zero tasks).symm⟩, S.prio, fun _ => rfl,
    fun t ht hrr => ?_⟩
  rw [S.full t ht hrr]
  have hpos := S.pos
  split
  · dsimp only
    omega
  · rfl

theorem Round.parts (R : Round slice tasks lower rr k s) (htwo : 2 ≤ tasks.length) :
    ∃ h n peers, s.order = h :: n :: peers ∧ k.head = h ∧ k.ready = h :: n :: (peers ++ lower) ∧
      (∀ t, t ∈ tasks ↔ t = h ∨ t = n ∨ t ∈ peers) ∧ n ≠ h := by
  obtain ⟨r, hr⟩ := R.order
  have hlen : s.order.length = tasks.length := by rw [hr, List.length_rotate]
  have hmem : ∀ t, t ∈ tasks ↔ t ∈ s.order := fun t => by rw [hr, List.mem_rotate]
  match ho : s.order with
  | [] =>
    rw [ho] at hlen
    exact absurd hlen (by rw [List.length_nil]; omega)
  | [h] =>
    rw [ho] at hlen
    exact absurd hlen (by rw [List.length_singleton]; omega)
  | h :: n :: peers =>
    have hready : k.ready = h :: n :: (peers ++ lower) := by
      rw [R.ready, ho]
      rfl
    refine ⟨h, n, peers, rfl, head_eq (by rw [hready]; rfl), hready, fun t => ?_, ?_⟩
    · rw [hmem, ho, List.mem_cons, List.mem_cons]
    · have hnodup := R.ok.wf.nodup .readytorun
      have hlist : k.list .readytorun = h :: n :: (peers ++ lower) := hready
      rw [hlist] at hnodup
      intro he
      exact (List.nodup_cons.mp hnodup).1 (he ▸ List.mem_cons_self)

theorem Round.stay (R : Round slice tasks lower rr k s) (O : Ok k') (hlist : k'.ready = k.ready)
    (K : Keeps k k') {ticks : Nat}
    (hother : ∀ t, t ≠ k.head → (k'.tcb t).timeslice = (k.tcb t).timeslice)
    (hhead : rr k.head = true → (k'.tcb k.head).timeslice = max 1 (slice - ticks)) :
    Round slice tasks lower rr k' ⟨s.order, ticks⟩ := by
  have hh : k'.head = k.head := by
    unfold Kernel.head
    rw [hlist]
  have hrr : ∀ t, (k'.tcb t).roundRobin = (k.tcb t).roundRobin := fun t => by rw [K.tcb t]
  obtain ⟨p, hp, hlow⟩ := R.prio
  refine ⟨O, hlist.trans R.ready, R.order, ⟨p, ?_, ?_⟩, fun t => (hrr t).trans (R.roundRobin t),
    fun t ht hr => ?_⟩
  · rw [K.prio]
    exact hp
  · rw [K.prio]
    exact hlow
  · have hold := R.timeslice t ht hr
    rw [hh]
    by_cases he : t = k.head
    · rw [if_pos he, he, hhead (he ▸ hr)]
    · rw [if_neg he] at hold ⊢
      rw [hother t he, hold]

theorem Round.turn (R : Round slice tasks lower rr k s) {h n : Nat} {peers : List Nat}
    (horder : s.order = h :: n :: peers) (hhead : k.head = h)
    (hready : k.ready = h :: n :: (peers ++ lower))
    (hmem : ∀ t, t ∈ tasks ↔ t = h ∨ t = n ∨ t ∈ peers) (hne : n ≠ h)
    (hpos : 0 < slice) (hl : (k.tcb h).lockcount = 0) {k₁ : Kernel}
    (hk₁ : k₁ = k.modify h fun c => { c with timeslice := slice }) :
    ∃ k', upReprioritizeRtr h (k₁.prio h) k₁ = some k' ∧
      Round slice tasks lower rr k' ⟨s.order.rotate 1, 0⟩ := by
  obtain ⟨p, hp, hlow⟩ := R.prio
  have hh : h ∈ tasks := (hmem h).mpr (.inl rfl)
  have hnt : n ∈ tasks := (hmem n).mpr (.inr (.inl rfl))
  have K₁ : Keeps k k₁ := hk₁ ▸ keeps_modify rfl
  have O₁ : Ok k₁ := hk₁ ▸ R.ok.modify rfl rfl id
  have hsame : ∀ t ∈ tasks, k₁.prio t = k₁.prio h := fun t ht => by
    rw [K₁.prio, hp t ht, hp h hh]
  have hlow₁ : ∀ t ∈ lower, k₁.prio t < k₁.prio h := fun t ht => by
    rw [K₁.prio, hp h hh]
    exact hlow t ht
  have hpend : k₁.pending = [] := by
    by_contra hpn
    refine R.ok.parked (fun hk => hpn (by rw [hk₁]; exact hk)) ?_
    rw [hhead]
    exact hl
  have hready₁ : k₁.ready = h :: n :: (peers ++ lower) := by
    rw [hk₁]
    exact hready
  obtain ⟨k', hk', O', P', hready'⟩ := O₁.rotate hpend hready₁ (hsame n hnt)
    (fun t ht => hsame t ((hmem t).mpr (.inr (.inr ht)))) hlow₁
  have hprio : k'.prio = k.prio := by rw [P'.prio, Function.update_eq_self, K₁.prio]
  refine ⟨k', hk', O', ?_, ?_, ⟨p, ?_, ?_⟩, fun t => ?_, fun t ht hr => ?_⟩
  · rw [hready', horder]
    simp
  · obtain ⟨r, hr⟩ := R.order
    exact ⟨r + 1, by rw [hr, List.rotate_rotate]⟩
  · rw [hprio]
    exact hp
  · rw [hprio]
    exact hlow
  · rw [P'.tcb t]
    show (k₁.tcb t).roundRobin = rr t
    rw [K₁.tcb t]
    exact R.roundRobin t
  · have hhead' : k'.head = n := head_eq (by rw [hready']; rfl)
    rw [P'.tcb t, hhead', hk₁]
    show ((k.modify h fun c => { c with timeslice := slice }).tcb t).timeslice = _
    by_cases hth : t = h
    · rw [hth, modify_tcb_same, if_neg (Ne.symm hne)]
    · have hold := R.timeslice t ht hr
      rw [hhead, if_neg hth] at hold
      rw [modify_tcb_of_ne hth, hold]
      split
      · dsimp only
        omega
      · rfl

theorem Round.tick (R : Round slice tasks lower rr k s) (hcfg : cfg.timeslice = some slice)
    (hpos : 0 < slice) (htwo : 2 ≤ tasks.length) :
    ∃ k', schedProcessTimeslice cfg k = some k' ∧
      Round slice tasks lower rr k' (s.tick slice k.yields) := by
  obtain ⟨h, n, peers, horder, hhead, hready, hmem, hne⟩ := R.parts htwo
  obtain ⟨p, hp, hlow⟩ := R.prio
  have hh : h ∈ tasks := (hmem h).mpr (.inl rfl)
  have hnt : n ∈ tasks := (hmem n).mpr (.inr (.inl rfl))
  have hyields : k.yields = true ↔ rr h = true ∧ (k.tcb h).lockcount = 0 := by
    unfold Kernel.yields
    rw [hhead, Bool.and_eq_true, decide_eq_true_iff, R.roundRobin]
  unfold schedProcessTimeslice Turn.tick
  rw [hcfg]
  dsimp only
  rw [hhead, R.roundRobin]
  by_cases hrr : rr h = false
  · -- not a round robin task
    rw [if_pos hrr, if_neg fun hc => by rw [(hyields.mp hc.1).1] at hrr; cases hrr]
    exact ⟨k, rfl, R.stay R.ok rfl (Keeps.refl k) (fun _ _ => rfl) fun hr => by
      rw [hhead, hrr] at hr; cases hr⟩
  rw [if_neg hrr]
  have hrr : rr h = true := Bool.eq_true_of_not_eq_false hrr
  have hslice := R.timeslice h hh hrr
  rw [if_pos hhead.symm] at hslice
  by_cases hlast : slice ≤ s.ticks + 1
  · rw [if_pos (by omega)]
    by_cases hl : (k.tcb h).lockcount = 0
    · have hfree : k.yields = true := hyields.mpr ⟨hrr, hl⟩
      obtain ⟨k', hk', R'⟩ := R.turn horder hhead hready hmem hne hpos hl rfl
      let k₁ := k.modify h fun c => { c with timeslice := slice }
      have hnext : k₁.next = n := by
        show k.ready.tail.head?.getD 0 = n
        rw [hready]
        rfl
      have hn0 : n ≠ 0 := fun h0 => R.ok.wf.nonzero .readytorun (h0 ▸ by
        show n ∈ k.ready
        rw [hready]
        exact List.mem_cons_of_mem _ List.mem_cons_self)
      have hprio : k₁.prio h ≤ k₁.prio n := by
        have K₁ : Keeps k k₁ := keeps_modify rfl
        rw [K₁.prio, hp h hh, hp n hnt]
      rw [if_pos hl, if_pos (show k₁.next ≠ 0 ∧ k₁.prio h ≤ k₁.prio k₁.next from
        hnext.symm ▸ ⟨hn0, hprio⟩), if_pos ⟨hfree, hlast⟩]
      exact ⟨k', hk', R'⟩
    · -- the slice is frozen
      have hfree : ¬ (k.yields = true ∧ slice ≤ s.ticks + 1) := fun hc => hl (hyields.mp hc.1).2
      rw [if_neg hl, if_neg hfree]
      refine ⟨k, rfl, R.stay R.ok rfl (Keeps.refl k) (fun _ _ => rfl) fun _ => ?_⟩
      rw [hhead, hslice]
      omega
  · rw [if_neg (by omega), if_neg fun hc => hlast hc.2]
    refine ⟨_, rfl, R.stay (R.ok.modify rfl rfl id) rfl (keeps_modify rfl) (fun t ht => ?_)
      fun _ => ?_⟩
    · rw [hhead] at ht
      rw [modify_tcb_of_ne ht]
    · rw [hhead, modify_tcb_same]
      dsimp only
      omega

theorem Round.same (R : Round slice tasks lower rr k s) (O : Ok k') (hlist : k'.ready = k.ready)
    (K : Keeps k k') (hslice : ∀ t, (k'.tcb t).timeslice = (k.tcb t).timeslice) (hne : tasks ≠ []) :
    Round slice tasks lower rr k' s := by
  refine R.stay O hlist K (fun t _ => hslice t) fun hr' => ?_
  obtain ⟨r, hr⟩ := R.order
  obtain ⟨h, peers, hcons⟩ := List.exists_cons_of_ne_nil
    (show s.order ≠ [] by rw [hr]; exact fun he => hne (List.rotate_eq_nil_iff.mp he))
  have hhead : k.head = h := head_eq (by rw [R.ready, hcons]; rfl)
  have hmem : h ∈ tasks := by
    rw [← List.mem_rotate (n := r), ← hr, hcons]
    exact List.mem_cons_self
  have hold := R.timeslice h hmem (hhead ▸ hr')
  rw [if_pos hhead.symm] at hold
  rw [hslice, hhead, hold]

theorem modify_lockcount_timeslice (k : Kernel) (h n t : Nat) :
    ((k.modify h fun c => { c with lockcount := n }).tcb t).timeslice = (k.tcb t).timeslice := by
  by_cases he : t = h
  · rw [he, modify_tcb_same]
  · rw [modify_tcb_of_ne he]

theorem Round.step (R : Round slice tasks lower rr k s) (hcfg : cfg.timeslice = some slice)
    (hpos : 0 < slice) (htwo : 2 ≤ tasks.length) {i : Op} (hq : quiet k i)
    (he : i.exec cfg k = some k') : Round slice tasks lower rr k' (s.next slice k i) := by
  have hne : tasks ≠ [] := by
    rintro rfl
    exact absurd htwo (by decide)
  cases i with
  | timeslice =>
    obtain ⟨k₁, hk₁, R₁⟩ := R.tick hcfg hpos htwo
    have hsame : some k₁ = some k' := hk₁.symm.trans he
    rw [← Option.some.inj hsame]
    exact R₁
  | lock irq =>
    obtain ⟨O', S', hlist⟩ := R.ok.lock he
    refine R.same O' (congrFun hlist _) S'.keeps (fun t => ?_) hne
    rw [schedLock_eq he]
    split
    · rfl
    · exact modify_lockcount_timeslice k k.head _ t
  | unlock irq =>
    obtain ⟨O', S'⟩ := R.ok.unlock irq
    have hk' : schedUnlock irq k = k' := Option.some.inj he
    rw [hk'] at O' S'
    have hcases : k' = k ∨
        k' = k.modify k.head fun c => { c with lockcount := c.lockcount - 1 } := by
      rw [← hk']
      unfold schedUnlock
      cases irq with
      | true => exact .inl rfl
      | false =>
        dsimp only
        rw [if_neg (by decide), modify_tcb_same]
        refine .inr (if_neg ?_)
        rintro ⟨h0, hpend⟩
        dsimp only at h0
        exact hpend (hq rfl (by omega))
    rcases hcases with rfl | rfl
    · exact R
    · exact R.same O' rfl S'.keeps (modify_lockcount_timeslice k k.head _) hne
  | create | activate | block | unblock | setpriority | releasePending | delete | deletecurrent =>
    exact hq.elim

theorem ticks_left {calls : List Op} {x x' : Kernel × Turn}
    (hr : runAll (turnMachine cfg slice) (fun _ _ => True) x calls = some x')
    (hlt : x.2.ticks + calls.count .timeslice < slice) :
    x'.2 = ⟨x.2.order, x.2.ticks + calls.count .timeslice⟩ := by
  induction calls generalizing x with
  | nil =>
    rw [← Option.some.inj hr]
    rfl
  | cons i calls ih =>
    unfold runAll at hr
    split at hr
    · obtain ⟨y, hy, hr⟩ := Option.bind_eq_some_iff.mp hr
      obtain ⟨k₁, -, rfl⟩ := Option.map_eq_some_iff.mp hy
      by_cases hi : i = .timeslice
      · subst hi
        rw [List.count_cons_self] at hlt ⊢
        have hstay : x.2.next slice x.1 .timeslice = ⟨x.2.order, x.2.ticks + 1⟩ :=
          if_neg fun hc => by omega
        rw [hstay] at hr
        rw [ih hr (by dsimp only; omega)]
        dsimp only
        congr 1
        omega
      · rw [List.count_cons_of_ne hi] at hlt ⊢
        have hstay : x.2.next slice x.1 i = x.2 := by
          cases i with
          | timeslice => exact absurd rfl hi
          | _ => rfl
        rw [hstay] at hr
        exact ih (x := (k₁, x.2)) hr hlt
    · cases hr

end

def twoTasks : Kernel where
  tcb t :=
    if t = gIdletcb then { Tcb.zero with taskState := .readytorun }
    else { Tcb.zero with
      taskState := if t = 2 then .running else .readytorun
      schedPriority := 100
      roundRobin := true
      timeslice := 2 }
  gPidhash _ := ⟨0, 0⟩
  gLastpid := 0
  list i := if i = .readytorun then [2, 3, gIdletcb] else []

theorem twoTasks_mem {i : TaskList} {t : Nat} (h : t ∈ twoTasks.list i) :
    i = .readytorun ∧ (t = 2 ∨ t = 3 ∨ t = gIdletcb) := by
  by_cases hi : i = .readytorun
  · subst hi
    refine ⟨rfl, ?_⟩
    have hlist : twoTasks.list .readytorun = [2, 3, gIdletcb] := rfl
    rw [hlist] at h
    simpa using h
  · have hlist : twoTasks.list i = [] := if_neg hi
    rw [hlist] at h
    cases h

theorem twoTasks_ok : Ok twoTasks := by
  refine ⟨⟨fun i => ?_, fun i t h => ?_, fun i _ => ?_, fun i h => ?_, rfl, rfl,
    fun i t h hne => ?_⟩, fun t h => ?_, parked_of_nil rfl⟩
  · cases i <;> decide
  · obtain ⟨rfl, rfl | rfl | rfl⟩ := twoTasks_mem h <;> rfl
  · cases i <;> decide
  · obtain ⟨-, h | h | h⟩ := twoTasks_mem h <;> exact absurd h (by decide)
  · obtain ⟨-, rfl | rfl | rfl⟩ := twoTasks_mem h
    · decide
    · decide
    · exact absurd rfl hne
  · obtain ⟨-, rfl | rfl | rfl⟩ := twoTasks_mem h <;> decide

def twoTasksConfig : Config := ⟨4, some 2, false, 0, 0⟩

theorem twoTasks_slices : Slices twoTasksConfig 2 [2, 3] [gIdletcb] twoTasks :=
  ⟨twoTasks_ok, rfl, by decide, by decide, rfl, ⟨100, by decide, by decide⟩, by decide⟩

end NuttxAvr32.Sched
