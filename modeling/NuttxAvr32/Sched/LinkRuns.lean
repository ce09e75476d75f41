import NuttxAvr32.Sched.LinkSteps
import NuttxAvr32.Sched.Runs

/-! # Runs on the links

Tasks come and go, and every run on the links is a run on the lists. What the lists keep, the
queues and links keep.
-/

namespace NuttxAvr32.Sched

open Keyed Linked Runs

variable {live : List Nat} {fuel : Nat} {m m' : Links} {k : Kernel} {t : Nat} {i : TaskList}

theorem Holds.releasetcb (H : Holds live m k) (cfg : Config) (t : Nat) :
    Holds live (m.schedReleasetcb cfg t) (schedReleasetcb cfg t k) := by
  have hpid : (m.tcb t).pid = (k.tcb t).pid := by rw [H.tcb]
  unfold Links.schedReleasetcb Sched.schedReleasetcb
  rw [hpid]
  split
  · refine H.setTasks ?_ rfl rfl rfl rfl
    show Tasks.mk m.tcb (Function.update m.gPidhash _ _) m.gLastpid = Tasks.mk k.tcb _ k.gLastpid
    rw [H.tcb, H.gPidhash, H.gLastpid]
  · exact H

theorem Holds.delete (cfg : Config) (irq : Bool) (pid : Nat) (H : Holds live m k) (W : Wf k)
    (hfuel : live.length < fuel) (ht : schedGettcb cfg k.toTasks pid = t)
    (hfound : t ≠ 0 → Listed k t ∧ t ≠ gIdletcb) :
    Option.Rel (fun m' k' => Holds live m' k' ∧ Wf k' ∧ ∀ u ∈ k.ready, u ≠ t → u ∈ k'.ready)
      (m.taskDelete fuel cfg irq pid) (taskDelete cfg irq pid k) := by
  have hlock := H.lock irq
  unfold Links.taskDelete Sched.taskDelete
  rw [H.head, H.tcb]
  by_cases hself : pid = 0 ∨ pid = (k.tcb k.head).pid
  · rw [if_pos hself, if_pos hself]
    exact .none
  rw [if_neg hself, if_neg hself]
  generalize m.schedLock irq = a at hlock ⊢
  generalize hk₁ : schedLock irq k = b at hlock ⊢
  cases hlock with
  | none => exact .none
  | @some m₁ k₁ H₁ =>
    obtain ⟨W₁, hlist, K₁⟩ := W.lock hk₁
    have hget : schedGettcb cfg k₁.toTasks pid = t := by
      unfold schedGettcb
      rw [K₁.gPidhash]
      exact ht
    show Option.Rel _ (Option.bind (some m₁) _) (Option.bind (some k₁) _)
    rw [Option.bind_some, Option.bind_some]
    dsimp only
    rw [H₁.tasks, hget]
    by_cases h0 : t = 0
    · rw [if_pos h0, if_pos h0]
      obtain ⟨m₂, he, H₂⟩ := H₁.unlock W₁ hfuel irq
      obtain ⟨W₂, hready⟩ := W₁.unlock irq
      rw [he]
      exact .some ⟨H₂, W₂, fun u hu _ => hready u (by rw [Kernel.ready, hlist]; exact hu)⟩
    rw [if_neg h0, if_neg h0]
    by_cases hrun : (k₁.tcb t).taskState = .running
    · rw [if_pos hrun, if_pos hrun]
      exact .none
    rw [if_neg hrun, if_neg hrun]
    obtain ⟨⟨i, hi⟩, hidle⟩ := hfound h0
    rw [← hlist] at hi
    rw [W₁.state i t hi, Option.bind_some]
    dsimp only
    have H₂ := (H₁.dqRem hi).setState t .invalid
    have W₂ : Wf ((k₁.setList i ((k₁.list i).erase t)).setState t .invalid) := W₁.dropped hi hidle
    obtain ⟨m₃, he, H₃⟩ := H₂.unlock W₂ hfuel irq
    obtain ⟨W₃, hready⟩ := W₂.unlock irq
    rw [he, Option.map_some]
    refine .some ⟨H₃.releasetcb cfg t, ?_, fun u hu hne => ?_⟩
    · unfold schedReleasetcb
      split
      · exact ⟨W₃.nodup, W₃.state, W₃.sorted, W₃.nonzero, W₃.idle, W₃.idlePrio, W₃.prio⟩
      · exact W₃
    · have hu₂ : u ∈ ((k₁.setList i ((k₁.list i).erase t)).setState t .invalid).ready := by
        show u ∈ (k₁.setList i ((k₁.list i).erase t)).list .readytorun
        have hu₁ : u ∈ k₁.list .readytorun := by
          rw [hlist]
          exact hu
        by_cases hir : i = .readytorun
        · subst hir
          rw [setList_list_same]
          exact ((W₁.nodup _).mem_erase_iff).mpr ⟨hne, hu₁⟩
        · rw [setList_list_of_ne (Ne.symm hir)]
          exact hu₁
      have hu₃ := hready u hu₂
      unfold schedReleasetcb
      split
      · exact hu₃
      · exact hu₃

theorem Holds.deletecurrent {cfg : Config} (H : Holds live m k) (O : Ok k) (P : Pids cfg k)
    (hfuel : live.length < fuel) (hidle : k.head ≠ gIdletcb) :
    Option.Rel (Holds live) (m.taskDeletecurrent fuel cfg) (taskDeletecurrent cfg k) := by
  have W := O.wf
  have hmem := W.head_mem
  have W₁ := W.removereadytorun hmem hidle
  have T₁ := removereadytorun_sameTasks k k.head
  have hnot : ¬ Listed (schedRemovereadytorun k.head k).1 k.head :=
    fun h => ((removereadytorun_listed W hmem).mp h).1 rfl
  have hprio := W.prio .readytorun _ hmem hidle
  rw [← T₁.prio] at hprio
  obtain ⟨m₁, he₁, H₁⟩ := H.removereadytorun W hmem hidle
  unfold Links.taskDeletecurrent Sched.taskDeletecurrent
  dsimp only
  rw [H.head, he₁, Option.bind_some]
  dsimp only
  have hlock := H₁.lock false
  rw [H₁.head]
  generalize m₁.schedLock false = a at hlock ⊢
  generalize hk₂ : schedLock false (schedRemovereadytorun k.head k).1 = b at hlock ⊢
  cases hlock with
  | none => exact .none
  | @some m₂ k₂ H₂ =>
    obtain ⟨W₂, hlist₂, K₂⟩ := W₁.lock hk₂
    show Option.Rel _ (Option.bind (some m₂) _) (Option.bind (some k₂) _)
    rw [Option.bind_some, Option.bind_some]
    have hhead := head_eq (removereadytorun_head W hidle)
    rw [if_pos rfl] at hhead
    have hne := (W.tail_head hidle).2.2
    rw [← hhead] at hne
    have hnext : (schedRemovereadytorun k.head k).1.head ∈ k₂.list .readytorun := by
      rw [hlist₂]
      exact W₁.head_mem
    generalize (schedRemovereadytorun k.head k).1.head = n at hne hnext ⊢
    have H₃ := H₂.setState n .readytorun
    have W₃ : Wf (k₂.setState n .readytorun) := W₂.setState hnext rfl
    have K₃ : Keeps k (k₂.setState n .readytorun) :=
      T₁.keeps.trans (K₂.trans sameTasks_setState.keeps)
    have hnot₃ : ¬ Listed (k₂.setState n .readytorun) k.head := by
      unfold Listed
      rw [setState_list, hlist₂]
      exact hnot
    rw [T₁.prio, ← K₃.prio] at hprio
    have h0 : k.head ≠ 0 := fun h => W.nonzero _ (h ▸ hmem)
    obtain ⟨m₄, he₄, H₄⟩ := H₃.addblocked (s := .inactive) hfuel hnot₃ (H.live _ _ hmem)
      hprio.1 trivial
    have W₄ := W₃.addblocked (s := .inactive) hnot₃ h0 hprio trivial
    have K₄ := K₃.trans (addblocked_sameTasks _ k.head .inactive).keeps
    have hready₄ := (addblocked_ready (k := k₂.setState n .readytorun) (t := k.head)
      (s := .inactive) trivial).1
    have hlisted₄ : Listed (schedAddblocked k.head .inactive (k₂.setState n .readytorun))
        k.head := (addblocked_listed (s := .inactive) trivial).mpr (.inl rfl)
    rw [he₄, Option.bind_some, H₄.tcb]
    generalize schedAddblocked k.head .inactive (k₂.setState n .readytorun) = k₄ at *
    have hget : schedGettcb cfg k₄.toTasks (k₄.tcb k.head).pid = k.head := by
      rw [K₄.pid]
      unfold schedGettcb
      rw [K₄.gPidhash]
      exact P.gettcb W ⟨_, hmem⟩
    have hdelete := H₄.delete cfg false _ W₄ hfuel hget fun _ => ⟨hlisted₄, hidle⟩
    generalize m₄.taskDelete fuel cfg false (k₄.tcb k.head).pid = a at hdelete ⊢
    generalize taskDelete cfg false (k₄.tcb k.head).pid k₄ = b at hdelete ⊢
    cases hdelete with
    | none => exact .none
    | @some m₅ k₅ h₅ =>
      obtain ⟨H₅, W₅, hready₅⟩ := h₅
      have hn : n ∈ k₄.ready := by
        rw [hready₄]
        exact hnext
      have H₆ := H₅.setState n .running
      have W₆ : Wf (k₅.setState n .running) := W₅.setState (hready₅ n hn hne) rfl
      obtain ⟨m₇, he₇, H₇⟩ := H₆.mergeIfPending W₆ hfuel
      obtain ⟨m₈, he₈, H₈⟩ := H₇.unlock W₆.mergeIfPending hfuel false
      rw [Option.bind_some, he₇, Option.bind_some, he₈]
      exact .some H₈

theorem Holds.assignTries (cfg : Config) (t n : Nat) (H : Holds live m k) :
    Holds live (Links.assignTries cfg t n m).1 (assignTries cfg t n k).1 ∧
      (Links.assignTries cfg t n m).2 = (assignTries cfg t n k).2 := by
  induction n generalizing m k with
  | zero => exact ⟨H, rfl⟩
  | succ n ih =>
    have hcand : nextPid m.gLastpid = nextPid k.gLastpid := by rw [H.gLastpid]
    have hslot : (m.gPidhash (pidhash cfg (nextPid k.gLastpid))).tcb =
        (k.gPidhash (pidhash cfg (nextPid k.gLastpid))).tcb := by rw [H.gPidhash]
    unfold Links.assignTries Sched.assignTries
    dsimp only
    rw [hcand, hslot]
    by_cases h : (k.gPidhash (pidhash cfg (nextPid k.gLastpid))).tcb = 0
    · rw [if_pos h, if_pos h]
      let hash := Function.update k.gPidhash (pidhash cfg (nextPid k.gLastpid))
        ⟨t, nextPid k.gLastpid⟩
      have H₁ : Holds live { m with gLastpid := nextPid k.gLastpid, gPidhash := hash }
          { k with gLastpid := nextPid k.gLastpid, gPidhash := hash } := by
        refine H.setTasks ?_ rfl rfl rfl rfl
        show Tasks.mk m.tcb hash _ = Tasks.mk k.tcb hash _
        rw [H.tcb]
      rw [H.gPidhash]
      exact ⟨H₁.modify t fun c => { c with pid := nextPid k.gLastpid }, rfl⟩
    · rw [if_neg h, if_neg h]
      refine ih (H.setTasks ?_ rfl rfl rfl rfl)
      show Tasks.mk m.tcb m.gPidhash _ = Tasks.mk k.tcb k.gPidhash _
      rw [H.tcb, H.gPidhash]

theorem Holds.assignpid (cfg : Config) (H : Holds live m k) (O : Ok k)
    (hfuel : live.length < fuel) (ht : ¬ Listed k t) :
    Option.Rel (fun r r' => Holds live r.1 r'.1 ∧ r.2 = r'.2 ∧ Ok r'.1 ∧ ¬ Listed r'.1 t)
      (m.taskAssignpid fuel cfg t) (taskAssignpid cfg t k) := by
  have hlock := H.lock false
  unfold Links.taskAssignpid Sched.taskAssignpid
  generalize m.schedLock false = a at hlock ⊢
  generalize hk₁ : schedLock false k = b at hlock ⊢
  cases hlock with
  | none => exact .none
  | @some m₁ k₁ H₁ =>
    obtain ⟨O₁, S₁, -⟩ := O.lock hk₁
    have hnot₁ : ¬ Listed k₁ t := fun h => ht ((S₁.listed t).mp h)
    have hassigned : Ok (Sched.assignTries cfg t cfg.maxTasks k₁).1 ∧
        ¬ Listed (Sched.assignTries cfg t cfg.maxTasks k₁).1 t := by
      obtain ⟨last, hfail | ⟨pid, -, -, hok⟩⟩ := assignTries_eq cfg t cfg.maxTasks k₁
      · rw [hfail]
        exact ⟨O₁.table last k₁.gPidhash, hnot₁⟩
      · rw [hok]
        have htable := O₁.table last (Function.update k₁.gPidhash (pidhash cfg pid) ⟨t, pid⟩)
        refine ⟨?_, hnot₁⟩
        exact htable.modify_unlisted (f := fun c => { c with pid := pid }) hnot₁
    obtain ⟨O₂, hnot₂⟩ := hassigned
    obtain ⟨H₂, hr⟩ := H₁.assignTries cfg t cfg.maxTasks
    obtain ⟨O₃, S₃⟩ := O₂.unlock false
    obtain ⟨m₃, he₃, H₃⟩ := H₂.unlock O₂.wf hfuel false
    rw [Option.bind_some]
    dsimp only
    rw [he₃, Option.map_some]
    exact .some ⟨H₃, hr, O₃, fun h => hnot₂ ((S₃.listed t).mp h)⟩

theorem Holds.create {p : Nat} (cfg : Config) (H : Holds live m k) (O : Ok k)
    (hfuel : live.length < fuel) (ht : ¬ Listed k t) (hlive : t ∈ live) (h0 : t ≠ 0)
    (hp : schedPriorityMin ≤ p ∧ p ≤ schedPriorityMax) :
    Option.Rel (Holds live) (m.taskCreate fuel cfg t p) (taskCreate cfg t p k) := by
  have hassign := (H.modify t fun _ => Tcb.zero).assignpid cfg (O.modify_unlisted ht) hfuel ht
  unfold Links.taskCreate Sched.taskCreate
  dsimp only
  generalize (m.modify t fun _ => Tcb.zero).taskAssignpid fuel cfg t = a at hassign ⊢
  generalize taskAssignpid cfg t (k.modify t fun _ => Tcb.zero) = b at hassign ⊢
  cases hassign with
  | none => exact .none
  | @some r r' h =>
    obtain ⟨H₁, hr, O₁, hnot₁⟩ := h
    show Option.Rel _ (Option.bind (some r) _) (Option.bind (some r') _)
    rw [Option.bind_some, Option.bind_some, hr]
    by_cases hok : r'.2 = true
    · rw [if_pos hok, if_pos hok]
      have H₂ := H₁.modify t fun c =>
        { c with initPriority := p, schedPriority := p, basePriority := p }
      have O₂ : Ok (r'.1.modify t fun c =>
        { c with initPriority := p, schedPriority := p, basePriority := p }) :=
        O₁.modify_unlisted hnot₁
      have hprio₂ : (r'.1.modify t fun c =>
          { c with initPriority := p, schedPriority := p, basePriority := p }).prio t = p := by
        show ((r'.1.modify t _).tcb t).schedPriority = p
        rw [modify_tcb_same]
      have hlock := H₂.lock false
      generalize (r.1.modify t _).schedLock false = a at hlock ⊢
      generalize hk₃ : schedLock false (r'.1.modify t _) = b at hlock ⊢
      cases hlock with
      | none => exact .none
      | @some m₃ k₃ H₃ =>
        obtain ⟨O₃, S₃, -⟩ := O₂.lock hk₃
        have hnot₃ : ¬ Listed k₃ t := fun h => hnot₁ ((S₃.listed t).mp h)
        have hp₃ : schedPriorityMin ≤ k₃.prio t ∧ k₃.prio t ≤ schedPriorityMax := by
          rw [S₃.keeps.prio, hprio₂]
          exact hp
        have O₄ := O₃.inactive hnot₃ h0 hp₃
        have H₄ := (H₃.addfirst hnot₃ hlive .inactivetasks).setState t .inactive
        obtain ⟨m₅, he₅, H₅⟩ := H₄.unlock O₄.wf hfuel false
        show Option.Rel _ (Option.bind (some m₃) _) (Option.bind (some k₃) _)
        rw [Option.bind_some, Option.bind_some, he₅]
        exact .some H₅
    · rw [if_neg hok, if_neg hok]
      exact .some H₁

/-- A search ends with the tasks, and a task may be linked that is in no list yet. -/
def searchFuel (cfg : Config) : Nat := cfg.maxTasks + 2

def Op.onLinks (cfg : Config) : Op → Links → Option Links
  | .create tcb priority, m => m.taskCreate (searchFuel cfg) cfg tcb priority
  | .activate tcb, m => m.upUnblockTask (searchFuel cfg) cfg tcb
  | .block tcb s, m => m.upBlockTask (searchFuel cfg) tcb s
  | .unblock tcb, m => m.upUnblockTask (searchFuel cfg) cfg tcb
  | .setpriority irq tcb priority, m =>
    (m.schedSetpriority (searchFuel cfg) irq tcb priority).map Prod.fst
  | .lock irq, m => m.schedLock irq
  | .unlock irq, m => m.schedUnlock (searchFuel cfg) irq
  | .releasePending, m => m.upReleasePending (searchFuel cfg)
  | .timeslice, m => m.schedProcessTimeslice (searchFuel cfg) cfg
  | .delete irq pid, m => m.taskDelete (searchFuel cfg) cfg irq pid
  | .deletecurrent, m => m.taskDeletecurrent (searchFuel cfg) cfg

def linksMachine (cfg : Config) : Machine Links Op where
  valid m i := i.valid cfg m.toTasks m.head
  exec m i := i.onLinks cfg m

instance (cfg : Config) (m : Links) (i : Op) : Decidable ((linksMachine cfg).valid m i) :=
  inferInstanceAs (Decidable (i.valid cfg m.toTasks m.head))

def Links.empty (cfg : Config) : Links :=
  ⟨(osStart cfg).toTasks, fun _ => none, fun _ => none, fun _ => ⟨none, none⟩⟩

def Links.osStart (cfg : Config) : Links := (Links.empty cfg).dqAddfirst gIdletcb .readytorun

def slots (cfg : Config) (k : Tasks) : List Nat :=
  (List.range cfg.maxTasks).map fun i => (k.gPidhash i).tcb

section

variable {cfg : Config} {live live' : List Nat} {m m' : Links} {k k' : Kernel} {t : Nat}

theorem Inv.mem_slots (I : Inv cfg k) (hmax : 0 < cfg.maxTasks) (ht : Listed k t) :
    t ∈ slots cfg k.toTasks :=
  List.mem_map.mpr ⟨pidhash cfg (k.tcb t).pid, List.mem_range.mpr (Nat.mod_lt _ hmax),
    I.pids.listed t ht⟩

theorem Holds.relive (H : Holds live m k) (h : ∀ t, Listed k t → t ∈ live') : Holds live' m k :=
  ⟨H.tasks, H.queue, H.apart, fun i t ht => h t ⟨i, ht⟩⟩

theorem slots_length : (slots cfg k.toTasks).length = cfg.maxTasks := by
  rw [slots, List.length_map, List.length_range]

theorem osStart_holds (hmax : 0 < cfg.maxTasks) :
    Holds (slots cfg (osStart cfg).toTasks) (Links.osStart cfg) (osStart cfg) := by
  let k : Kernel := { osStart cfg with list := fun _ => [] }
  have hnone : ∀ t, ¬ Listed k t := by
    rintro t ⟨i, hi⟩
    cases hi
  have H : Holds [gIdletcb] (Links.empty cfg) k :=
    ⟨rfl, fun i => ⟨rfl, rfl, trivial⟩, fun i j t hi => (by cases hi), fun i t hi => (by cases hi)⟩
  have H' := H.addfirst (hnone gIdletcb) List.mem_cons_self .readytorun
  exact Holds.relive (k := osStart cfg) H' fun t ht => (osStart_inv cfg).mem_slots hmax ht

theorem relate {a : Option Links} {b : Option Kernel} (h : Option.Rel (Holds live) a b) :
    Option.Rel (fun m k => ∃ live, Holds live m k) a b := by
  cases h with
  | none => exact .none
  | some h => exact .some ⟨live, h⟩

/-- An operation gives no result on the links where it gives none on the lists, and otherwise
what the lists give. -/
theorem Holds.step {i : Op} (H : Holds (slots cfg k.toTasks) m k) (I : Inv cfg k)
    (hv : i.valid cfg k.toTasks k.head) :
    Option.Rel (fun m' k' => ∃ live, Holds live m' k') (i.onLinks cfg m) (i.exec cfg k) := by
  have hlen : (slots cfg k.toTasks).length = cfg.maxTasks := slots_length
  have hfuel : (slots cfg k.toTasks).length < searchFuel cfg := by
    rw [hlen, searchFuel]
    omega
  cases i with
  | create tcb priority =>
    obtain ⟨h0, hl, hp⟩ := hv
    have ht : ¬ Listed k tcb := fun hc => hl (I.live_iff.mpr hc)
    have H₁ : Holds (tcb :: slots cfg k.toTasks) m k :=
      H.relive fun t ⟨i, hi⟩ => List.mem_cons_of_mem _ (H.live i t hi)
    refine relate (H₁.create cfg I.ok ?_ ht List.mem_cons_self h0 hp)
    rw [List.length_cons, hlen, searchFuel]
    omega
  | activate tcb =>
    obtain ⟨i, hi, hr, hp⟩ := I.live_blocked hv.1 (by rw [hv.2]; trivial)
    obtain ⟨m', k', he, hk, H'⟩ := H.unblock cfg I.ok hfuel hi hr hp
    simp only [Op.onLinks, Op.exec, taskActivate, he, hk]
    exact .some ⟨_, H'⟩
  | block tcb s =>
    obtain ⟨hl, hidle, hr, hs⟩ := hv
    obtain ⟨m', k', he, hk, H'⟩ := H.block I.ok.wf hfuel (I.live_ready hl hr) hidle hs
    simp only [Op.onLinks, Op.exec, he, hk]
    exact .some ⟨_, H'⟩
  | unblock tcb =>
    obtain ⟨i, hi, hr, hp⟩ := I.live_blocked hv.1 hv.2
    obtain ⟨m', k', he, hk, H'⟩ := H.unblock cfg I.ok hfuel hi hr hp
    simp only [Op.onLinks, Op.exec, he, hk]
    exact .some ⟨_, H'⟩
  | setpriority irq tcb priority =>
    obtain ⟨m', k', valid, he, hk, H'⟩ :=
      H.setpriority I.ok hfuel irq (I.live_iff.mp hv.1) hv.2 priority
    simp only [Op.onLinks, Op.exec, he, hk]
    exact .some ⟨_, H'⟩
  | lock irq => exact relate (H.lock irq)
  | unlock irq =>
    obtain ⟨m', he, H'⟩ := H.unlock I.ok.wf hfuel irq
    simp only [Op.onLinks, Op.exec, he]
    exact .some ⟨_, H'⟩
  | releasePending =>
    obtain ⟨m', he, H'⟩ := H.mergepending I.ok.wf hfuel
    simp only [Op.onLinks, Op.exec, Links.upReleasePending, he]
    exact .some ⟨_, H'⟩
  | timeslice =>
    obtain ⟨m', k', he, hk, H'⟩ := H.timeslice cfg I.ok hfuel
    simp only [Op.onLinks, Op.exec, he, hk]
    exact .some ⟨_, H'⟩
  | delete irq pid =>
    have hfound : schedGettcb cfg k.toTasks pid ≠ 0 →
        Listed k (schedGettcb cfg k.toTasks pid) ∧ schedGettcb cfg k.toTasks pid ≠ gIdletcb := by
      intro h0
      obtain ⟨hl, hpid⟩ := I.pids.of_gettcb h0
      refine ⟨hl, fun he => hv.1 ?_⟩
      rw [← hpid]
      exact (I.pids.idle _ hl).mpr he
    have hdelete := H.delete cfg irq pid I.ok.wf hfuel rfl hfound
    simp only [Op.onLinks, Op.exec]
    generalize m.taskDelete (searchFuel cfg) cfg irq pid = a at hdelete ⊢
    generalize taskDelete cfg irq pid k = b at hdelete ⊢
    cases hdelete with
    | none => exact .none
    | some h => exact .some ⟨_, h.1⟩
  | deletecurrent => exact relate (H.deletecurrent I.ok I.pids hfuel hv)

theorem links_simulated (hmax : 0 < cfg.maxTasks)
    (h : Reachable (linksMachine cfg) (· = Links.osStart cfg) m) :
    ∃ k, Reachable (schedMachine cfg) (· = osStart cfg) k ∧ Holds (slots cfg k.toTasks) m k := by
  refine Reach.simulated (R := fun m k => Holds (slots cfg k.toTasks) m k) ?_ ?_ h
  · rintro m rfl
    exact ⟨osStart cfg, rfl, osStart_holds hmax⟩
  · intro m k i m' H hr hv _ he
    have hv' : i.valid cfg k.toTasks k.head := by
      rw [← H.tasks, ← H.head]
      exact hv
    have hstep := H.step (reach_inv hr) hv'
    have he' : i.onLinks cfg m = some m' := he
    rw [he'] at hstep
    generalize hk : i.exec cfg k = b at hstep
    cases hstep with
    | @some _ k' h' =>
      obtain ⟨live, H'⟩ := h'
      have hr' : Reachable (schedMachine cfg) (· = osStart cfg) k' := .step hr hv' trivial hk
      exact ⟨k', hv', trivial, hk, H'.relive fun t ht => (reach_inv hr').mem_slots hmax ht⟩

end

/-- The lists that the queues and links spell. The order of a list is that of its links. -/
structure TaskLists (cfg : Config) (m : Links) (list : TaskList → List Nat) : Prop where
  linked : ∀ i, IsQueue m.toQueues (m.queue i) (list i)
  once : ∀ t, Live cfg m.toTasks t → ∃! i, t ∈ list i
  live : ∀ i, ∀ t ∈ list i, Live cfg m.toTasks t
  state : ∀ i, ∀ t ∈ list i, (m.tcb t).taskState.list = some i
  sorted : ∀ i, i.prioritized = true → Descending m.prio (list i)
  running : ∀ t, Live cfg m.toTasks t →
    ((m.tcb t).taskState = .running ↔ (m.queue .readytorun).head = some t)
  idle : (m.queue .readytorun).tail = some gIdletcb

/-- In every run each queue is well linked and in order, each live task is in the one list of
its state, only the head of `g_readytorun` is running and the idle task is its tail. -/
theorem task_lists_consistent {cfg : Config} {m : Links} (hmax : 0 < cfg.maxTasks)
    (h : Reachable (linksMachine cfg) (· = Links.osStart cfg) m) :
    ∃ list, TaskLists cfg m list := by
  obtain ⟨k, hr, H⟩ := links_simulated hmax h
  have I := reach_inv hr
  have W := I.ok.wf
  have hlive : ∀ t, Live cfg m.toTasks t ↔ Listed k t := by
    intro t
    rw [H.tasks]
    exact I.live_iff
  refine ⟨k.list, H.queue, fun t ht => ?_, fun i t ht => (hlive t).mpr ⟨i, ht⟩, fun i t ht => ?_,
    fun i hi => ?_, fun t ht => ?_, ?_⟩
  · obtain ⟨i, hi⟩ := (hlive t).mp ht
    exact ⟨i, hi, fun j hj => W.list_unique hj hi⟩
  · rw [H.tcb]
    exact W.state i t ht
  · rw [H.prio]
    exact W.sorted i hi
  · rw [H.tcb, (H.queue .readytorun).head]
    rw [H.tasks] at ht
    constructor
    · intro hs
      exact (I.ok.running t (I.live_ready ht (by rw [hs]; trivial))).mp hs
    · intro hh
      exact (I.ok.running t (List.mem_of_mem_head? hh)).mpr hh
  · rw [(H.queue .readytorun).tail]
    exact W.idle

/-- A task of higher priority waits for the lock of the running task and then heads the queue. -/
theorem task_lists_consistent_run : ∃ m list, m.queue .readytorun = ⟨some 3, some 1⟩ ∧
    (m.flink 3 = some 2 ∧ m.flink 2 = some 1 ∧ m.blink 1 = some 2) ∧
    m.queue .pendingtasks = ⟨none, none⟩ ∧ TaskLists ⟨4, none, false, 0, 0⟩ m list := by
  have h : ((runAll (linksMachine ⟨4, none, false, 0, 0⟩) (fun _ _ => True)
      (Links.osStart ⟨4, none, false, 0, 0⟩)
      [.create 2 100, .activate 2, .lock false, .create 3 150, .activate 3, .unlock false]).any
      fun m => decide (m.queue .readytorun = ⟨some 3, some 1⟩ ∧
        (m.flink 3 = some 2 ∧ m.flink 2 = some 1 ∧ m.blink 1 = some 2) ∧
        m.queue .pendingtasks = ⟨none, none⟩)) = true := by
    decide +kernel
  obtain ⟨m, hm, hq⟩ := (Option.any_eq_true _ _).mp h
  obtain ⟨hready, hlinks, hpend⟩ := of_decide_eq_true hq
  obtain ⟨list, hlist⟩ := task_lists_consistent (Nat.succ_pos 3) (Reach.runAll (.init rfl) hm)
  exact ⟨m, list, hready, hlinks, hpend, hlist⟩

end NuttxAvr32.Sched
