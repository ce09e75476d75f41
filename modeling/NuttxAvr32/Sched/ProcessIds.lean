import NuttxAvr32.Sched.Runs

/-! # Process ids

The candidates of `task_assignpid` count up through the pids and start again at
one after the largest `pid_t`. A full round of tries meets every slot but the one
of the idle task, also where the candidates start again on the way.
-/

namespace NuttxAvr32.Sched

open Runs

def gettcbOf (cfg : Config) (k : Tasks) (pid : Int) : Nat :=
  if 0 ≤ pid then schedGettcb cfg k pid.toNat else 0

def candidate (last : Nat) : Nat → Nat
  | 0 => last
  | n + 1 => nextPid (candidate last n)

theorem candidate_nextPid (last n : Nat) :
    candidate (nextPid last) n = candidate last (n + 1) := by
  induction n with
  | zero => rfl
  | succ n ih =>
    show nextPid (candidate (nextPid last) n) = nextPid (candidate last (n + 1))
    rw [ih]

theorem nextPid_lt (pid : Nat) : nextPid pid < 2 ^ 31 := by
  unfold nextPid
  split <;> omega

theorem candidate_add_of_lt {last n : Nat} (h : last + n < 2 ^ 31) :
    candidate last n = last + n := by
  induction n with
  | zero => rfl
  | succ n ih =>
    show nextPid (candidate last n) = _
    rw [ih (by omega)]
    unfold nextPid
    rw [if_pos (by omega)]
    omega

theorem candidate_wrap {l w n : Nat} (hw : 2 ^ 31 ≤ candidate l w + 1) (hn : n + 1 < 2 ^ 31) :
    candidate l (w + (n + 1)) = n + 1 := by
  induction n with
  | zero =>
    show nextPid (candidate l w) = _
    unfold nextPid
    rw [if_neg (by omega)]
  | succ n ih =>
    show nextPid (candidate l (w + (n + 1))) = _
    rw [ih (by omega)]
    unfold nextPid
    rw [if_pos (by omega)]

/-- A round of tries meets every slot but the first: the jump at the wrap skips only that. -/
theorem candidate_covers {e : Nat} (he : e ≤ 31) (last : Nat) {i : Nat} (h0 : i ≠ 0)
    (hi : i < 2 ^ e) : ∃ n, n < 2 ^ e ∧ candidate last (n + 1) % 2 ^ e = i := by
  have hdvd : 2 ^ e ∣ 2 ^ 31 := Nat.pow_dvd_pow 2 he
  have hle : 2 ^ e ≤ 2 ^ 31 := Nat.le_of_dvd (by decide) hdvd
  generalize hm : 2 ^ e = m at *
  by_cases hlast : last + 1 < 2 ^ 31
  · -- the offset from the first candidate to the slot
    obtain ⟨d, hd, hmod⟩ : ∃ d, d < m ∧ (last + 1 + d) % m = i := by
      refine ⟨(i + (m - (last + 1) % m)) % m, Nat.mod_lt _ (by omega), ?_⟩
      have hr : (last + 1) % m < m := Nat.mod_lt _ (by omega)
      rw [Nat.add_mod, Nat.mod_mod, ← Nat.add_mod, ← Nat.mod_add_mod,
        show (last + 1) % m + (i + (m - (last + 1) % m)) = i + m by omega, Nat.add_mod_right,
        Nat.mod_eq_of_lt hi]
    by_cases hfit : last + 1 + d < 2 ^ 31
    · refine ⟨d, hd, ?_⟩
      rw [candidate_add_of_lt (by omega), show last + (d + 1) = last + 1 + d by omega, hmod]
    · -- the search passes the largest pid first
      have heq : last + 1 + d - 2 ^ 31 = i := by
        obtain ⟨c, hc⟩ := hdvd
        have hsub : (last + 1 + d - m * c) % m = i := by
          rw [Nat.sub_mul_mod (by omega)]
          exact hmod
        rw [← hc, Nat.mod_eq_of_lt (by omega)] at hsub
        exact hsub
      have hw : candidate last (2 ^ 31 - 1 - last) = 2 ^ 31 - 1 := by
        rw [candidate_add_of_lt (by omega)]
        omega
      have hc := candidate_wrap (l := last) (w := 2 ^ 31 - 1 - last) (n := i - 1) (by omega)
        (by omega)
      refine ⟨d - 1, by omega, ?_⟩
      rw [show d - 1 + 1 = 2 ^ 31 - 1 - last + (i - 1 + 1) by omega, hc,
        Nat.mod_eq_of_lt (by omega)]
      omega
  · refine ⟨i - 1, by omega, ?_⟩
    have hc := candidate_wrap (l := last) (w := 0) (n := i - 1)
      (show 2 ^ 31 ≤ last + 1 by omega) (by omega)
    rw [show i - 1 + 1 = 0 + (i - 1 + 1) by omega, hc, Nat.mod_eq_of_lt (by omega)]
    omega

theorem assignTries_false {cfg : Config} {t n : Nat} {k : Kernel}
    (h : (assignTries cfg t n k).2 = false) {j : Nat} (hj : j < n) :
    (k.gPidhash (pidhash cfg (candidate k.gLastpid (j + 1)))).tcb ≠ 0 := by
  induction n generalizing k j with
  | zero => omega
  | succ n ih =>
    unfold assignTries at h
    dsimp only at h
    by_cases hs : (k.gPidhash (pidhash cfg (nextPid k.gLastpid))).tcb = 0
    · rw [if_pos hs] at h
      cases h
    · rw [if_neg hs] at h
      cases j with
      | zero => exact hs
      | succ j =>
        rw [← candidate_nextPid]
        exact ih (k := { k with gLastpid := nextPid k.gLastpid }) h (by omega)

section

variable {cfg : Config} {k k' : Kernel} {t u : Nat}

theorem Pids.pid_injective (P : Pids cfg k) (ht : Listed k t) (hu : Listed k u)
    (h : (k.tcb t).pid = (k.tcb u).pid) : t = u := by
  rw [← P.listed t ht, h, P.listed u hu]

theorem gettcbOf_eq_zero (P : Pids cfg k) {pid : Int}
    (h : ∀ t, Listed k t → ((k.tcb t).pid : Int) ≠ pid) : gettcbOf cfg k.toTasks pid = 0 := by
  unfold gettcbOf
  split
  · rename_i h0
    by_contra hne
    obtain ⟨hl, hp⟩ := P.of_gettcb hne
    apply h _ hl
    rw [hp]
    exact Int.toNat_of_nonneg h0
  · rfl

theorem gettcbOf_live (P : Pids cfg k) (W : Wf k) (h : Listed k t) :
    gettcbOf cfg k.toTasks (k.tcb t).pid = t := by
  unfold gettcbOf
  rw [if_pos (by omega), Int.toNat_natCast]
  exact P.gettcb W h

theorem Pids.full (P : Pids cfg k) (W : Wf k) {e : Nat} (he : e ≤ 31) (hmax : cfg.maxTasks = 2 ^ e)
    (hhash : k'.gPidhash = k.gPidhash) (h : (assignTries cfg t cfg.maxTasks k').2 = false)
    {i : Nat} (hi : i < cfg.maxTasks) : (k.gPidhash i).tcb ≠ 0 := by
  by_cases h0 : i = 0
  · have hidle : Listed k gIdletcb := ⟨_, W.idle_mem⟩
    have hs := P.listed gIdletcb hidle
    rw [(P.idle gIdletcb hidle).mpr rfl] at hs
    unfold pidhash at hs
    rw [Nat.zero_mod] at hs
    rw [h0, hs]
    decide
  · rw [hmax] at hi
    obtain ⟨n, hn, hc⟩ := candidate_covers he k'.gLastpid h0 hi
    have hs := assignTries_false h (j := n) (by omega)
    unfold pidhash at hs
    rw [hmax, hc, hhash] at hs
    exact hs

end

section

variable {cfg : Config} {k k' : Kernel} {t : Nat}

def Fits (k : Kernel) : Prop := ∀ i, (k.gPidhash i).pid < 2 ^ 31

theorem Fits.congr (F : Fits k) (h : k'.gPidhash = k.gPidhash) : Fits k' := by
  intro i
  rw [h]
  exact F i

theorem Fits.update (F : Fits k) {i : Nat} {slot : Pidhash} (hs : slot.pid < 2 ^ 31)
    (h : k'.gPidhash = Function.update k.gPidhash i slot) : Fits k' := by
  intro j
  rw [h]
  by_cases hj : j = i
  · rw [hj, Function.update_self]
    exact hs
  · rw [Function.update_of_ne hj]
    exact F j

theorem lock_gPidhash {irq : Bool} (h : schedLock irq k = some k') :
    k'.gPidhash = k.gPidhash := by
  rw [schedLock_eq h]
  split <;> rfl

theorem unlock_gPidhash {irq : Bool} : (schedUnlock irq k).gPidhash = k.gPidhash := by
  unfold schedUnlock
  split
  · rfl
  · dsimp only
    split <;> rfl

theorem Fits.assignTries (F : Fits k) (t n : Nat) : Fits (assignTries cfg t n k).1 := by
  induction n generalizing k with
  | zero => exact F
  | succ n ih =>
    unfold Sched.assignTries
    dsimp only
    split
    · exact F.update (nextPid_lt k.gLastpid) rfl
    · exact ih (k := { k with gLastpid := nextPid k.gLastpid }) F

theorem Fits.create (F : Fits k) {p : Nat} (h : taskCreate cfg t p k = some k') : Fits k' := by
  obtain ⟨k₁, r, hk₁, hr, h₂⟩ := taskCreate_steps h
  have F₁ : Fits k₁ := Fits.congr (k := k.modify t fun _ => Tcb.zero) F (lock_gPidhash hk₁)
  have F₂ : Fits r := by
    rw [hr]
    exact (F₁.assignTries t cfg.maxTasks).congr unlock_gPidhash
  rcases h₂ with ⟨-, k₅, hk₅, rfl⟩ | ⟨-, rfl⟩
  · have F₅ : Fits k₅ := by
      refine Fits.congr ?_ (lock_gPidhash hk₅)
      exact F₂
    refine Fits.congr ?_ unlock_gPidhash
    exact F₅
  · exact F₂

theorem Fits.releasetcb (F : Fits k) : Fits (schedReleasetcb cfg t k) := by
  unfold schedReleasetcb
  split
  · exact F.update (by decide) rfl
  · exact F

theorem Fits.step {i : Op} (F : Fits k) (I : Inv cfg k) (hv : i.valid cfg k.toTasks k.head)
    (h : i.exec cfg k = some k') : Fits k' := by
  cases i with
  | create tcb priority => exact F.create h
  | activate tcb =>
    obtain ⟨i, hi, hr, hp⟩ := I.live_blocked hv.1 (by rw [hv.2]; trivial)
    obtain ⟨k₁, h₁, -, K, -⟩ := I.ok.unblock cfg hi hr hp
    cases h₁.symm.trans h
    exact F.congr K.gPidhash
  | block tcb s =>
    obtain ⟨hl, hidle, hr, hs⟩ := hv
    obtain ⟨i, hi⟩ := blocked_list hs
    obtain ⟨k₁, h₁, -, T, -⟩ := I.ok.block (I.live_ready hl hr) hidle hs hi
    cases h₁.symm.trans h
    exact F.congr T.gPidhash
  | unblock tcb =>
    obtain ⟨i, hi, hr, hp⟩ := I.live_blocked hv.1 hv.2
    obtain ⟨k₁, h₁, -, K, -⟩ := I.ok.unblock cfg hi hr hp
    cases h₁.symm.trans h
    exact F.congr K.gPidhash
  | setpriority irq tcb priority =>
    obtain ⟨hl, hidle⟩ := hv
    obtain ⟨r, hr, hk'⟩ := Option.map_eq_some_iff.mp h
    by_cases hp : schedPriorityMin ≤ priority ∧ priority ≤ schedPriorityMax
    · obtain ⟨k₁, h₁, -, S, -⟩ := I.ok.setpriority irq (I.live_iff.mp hl) hidle hp
      cases h₁.symm.trans hr
      cases hk'
      exact F.congr S.gPidhash
    · unfold schedSetpriority at hr
      rw [if_pos (by omega)] at hr
      cases hr
      subst hk'
      apply F.congr
      show (setErrno irq .einval k).gPidhash = k.gPidhash
      unfold setErrno
      split <;> rfl
  | lock irq => exact F.congr (lock_gPidhash h)
  | unlock irq =>
    cases h
    exact F.congr unlock_gPidhash
  | releasePending =>
    cases h
    exact F.congr rfl
  | timeslice =>
    obtain ⟨k₁, h₁, -, S, -⟩ := I.ok.timeslice cfg
    cases h₁.symm.trans h
    exact F.congr S.keeps.gPidhash
  | delete irq pid =>
    rcases I.ok.delete I.pids hv.1 hv.2 h with rfl | ⟨t, i, -, -, -, -, he, -, -⟩
    · exact F
    · rw [he]
      exact Fits.releasetcb (F.congr rfl)
  | deletecurrent =>
    have hd : taskDeletecurrent cfg k = some k' := h
    rw [taskDeletecurrent_eq I.ok I.pids hv] at hd
    split at hd
    · cases hd
      refine Fits.congr (Fits.congr (k := departed cfg k) ?_ ?_) unlock_gPidhash
      · exact Fits.releasetcb (F.congr (removereadytorun_sameTasks k k.head).gPidhash)
      · unfold mergeIfPending
        split <;> rfl
    · cases hd

theorem reach_fits (h : Reachable (schedMachine cfg) (· = osStart cfg) k) : Fits k := by
  have hI : Inv cfg k ∧ Fits k := by
    apply Reach.invariant (I := fun s => Inv cfg s ∧ Fits s) _ _ h
    · intro s hs
      rw [hs]
      have hz : (0 : Nat) < 2 ^ 31 := by decide
      exact ⟨osStart_inv cfg, Fits.update (k := { osStart cfg with
        gPidhash := fun _ => ⟨0, invalidProcessId⟩ }) (fun _ => hz) hz rfl⟩
    · exact fun s i s' hs hv _ he => ⟨hs.1.step hv he, hs.2.step hs.1 hv he⟩
  exact hI.2

end

/-- What the table of process ids says about the tasks, which are live while they
are in some list of the scheduler. A search starts as `task_create` calls it, with
a TCB that no task has. -/
structure ProcessIds (cfg : Config) (k : Kernel) : Prop where
  positive : ∀ t, Listed k t → t ≠ gIdletcb → 0 < (k.tcb t).pid ∧ (k.tcb t).pid < 2 ^ 31
  idle : Listed k gIdletcb ∧ (k.tcb gIdletcb).pid = 0
  distinct : ∀ t u, Listed k t → Listed k u → (k.tcb t).pid = (k.tcb u).pid → t = u
  found : ∀ t, Listed k t → gettcbOf cfg k.toTasks (k.tcb t).pid = t
  absent : ∀ pid : Int, (∀ t, Listed k t → ((k.tcb t).pid : Int) ≠ pid) →
    gettcbOf cfg k.toTasks pid = 0
  full : ∀ t k', ¬ Listed k t →
    taskAssignpid cfg t (k.modify t fun _ => Tcb.zero) = some (k', false) →
    ∀ i, i < cfg.maxTasks → Listed k (k.gPidhash i).tcb

theorem process_ids {cfg : Config} {e : Nat} (he : e ≤ 31) (hmax : cfg.maxTasks = 2 ^ e)
    {k : Kernel} (h : Reachable (schedMachine cfg) (· = osStart cfg) k) : ProcessIds cfg k := by
  have I := reach_inv h
  have W := I.ok.wf
  have hidle : Listed k gIdletcb := ⟨_, W.idle_mem⟩
  have hslot : ∀ t, Listed k t → (k.gPidhash (pidhash cfg (k.tcb t).pid)).tcb ≠ 0 := by
    intro t ht
    rw [I.pids.listed t ht]
    obtain ⟨i, hi⟩ := ht
    exact fun h0 => W.nonzero i (h0 ▸ hi)
  refine ⟨fun t ht hne => ⟨?_, ?_⟩, ⟨hidle, (I.pids.idle _ hidle).mpr rfl⟩,
    fun t u => I.pids.pid_injective, fun t => gettcbOf_live I.pids W,
    fun pid => gettcbOf_eq_zero I.pids, fun t k' ht hfail i hi => ?_⟩
  · exact Nat.pos_of_ne_zero fun h0 => hne ((I.pids.idle t ht).mp h0)
  · have hs := I.pids.slot _ (hslot t ht)
    rw [I.pids.listed t ht] at hs
    rw [hs.2.1]
    exact reach_fits h _
  · have hfail' : (schedLock false (k.modify t fun _ => Tcb.zero)).bind (fun k =>
        some (schedUnlock false (assignTries cfg t cfg.maxTasks k).1,
          (assignTries cfg t cfg.maxTasks k).2)) = some (k', false) := hfail
    obtain ⟨k₁, hk₁, hr⟩ := Option.bind_eq_some_iff.mp hfail'
    have htries : (assignTries cfg t cfg.maxTasks k₁).2 = false :=
      congrArg Prod.snd (Option.some.inj hr)
    have hhash : k₁.gPidhash = k.gPidhash :=
      lock_gPidhash (k := k.modify t fun _ => Tcb.zero) hk₁
    exact (I.pids.slot i (I.pids.full W he hmax hhash htries hi)).1

/-- A search in a full table uses up a round of pids, and the freed slot gets a new one. -/
theorem process_ids_run : ∃ k, (k.tcb 6).pid = 10 ∧ ProcessIds ⟨4, none, false, 0, 0⟩ k := by
  have h : ((runAll (schedMachine ⟨4, none, false, 0, 0⟩) (fun _ _ => True)
      (osStart ⟨4, none, false, 0, 0⟩)
      [.create 2 100, .create 3 100, .create 4 100, .create 5 100, .delete false 2,
        .create 6 100]).any fun k => decide ((k.tcb 6).pid = 10)) = true := by
    decide +kernel
  obtain ⟨k, hk, hr⟩ := (Option.any_eq_true _ _).mp h
  exact ⟨k, of_decide_eq_true hr,
    process_ids (e := 2) (by decide) rfl (Reach.runAll (.init rfl) hk)⟩

end NuttxAvr32.Sched
