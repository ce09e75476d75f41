import NuttxAvr32.Pthread.Mutex

/-! # Who owns a mutex

A thread owns a mutex from the moment it gets its semaphore until it posts it. Every
thread that owns one either is named by `pid` or is on its way to set `pid`; with the count
of the semaphore this makes one owner at most.
-/

namespace NuttxAvr32.Pthread

open Runs Sem
open Function (update update_self update_of_ne update_eq_self)

/-- The thread got the semaphore of the mutex and has not set `pid` yet. -/
def Call.holds (m : Nat) : Call → Bool
  | .lockWait r .granted => r = m
  | .condRetakeWait r _ .granted => r = m
  | .condSetpid r _ => r = m
  | _ => false

def Sys.acquiring (s : Sys) (m t : Nat) : Bool := (s.call t).any (Call.holds m)

structure MutexOwned (s : Sys) : Prop where
  exclusive : ∀ m, (s.owners m).length ≤ 1
  named : ∀ m, ∀ t ∈ s.owners m, s.acquiring m t = false → (s.mutex m).pid = t
  names : ∀ m, (s.mutex m).pid ≠ 0 → (s.mutex m).pid ∈ s.owners m
  counted : ∀ m, (s.mutex m).recursive = true → ∀ t ∈ s.owners m, s.acquiring m t = false →
    (s.mutex m).nlocks = s.depth m t
  balanced : ∀ m, (s.mutex m).recursive = true → ∀ t s', s.outside t → (s.mutex m).pid = t →
    pthreadMutexUnlock t m s = some s' → (t ∉ s'.owners m ↔ s.depth m t = 1)

def Call.waits : Call → Option SemId
  | .lockWait m .waiting => some (.mutex m)
  | .condWait _ c _ _ .waiting => some (.cond c)
  | .condRetakeWait m _ .waiting => some (.mutex m)
  | _ => none

def Call.saves : Call → Option (Nat × Nat)
  | .condWait m _ _ saved _ => some (m, saved)
  | .condRetake m saved => some (m, saved)
  | .condRetakeWait m saved _ => some (m, saved)
  | .condSetpid m saved => some (m, saved)
  | _ => none

def Call.releases : Call → Option Nat
  | .condRelease m _ _ => some m
  | _ => none

/-- `nlocks` fits the number of locks: one, unless the mutex is recursive. -/
def Mutex.Locked (x : Mutex) (nlocks depth : Nat) : Prop :=
  1 ≤ depth ∧ (x.recursive = true → nlocks = depth) ∧ (x.recursive = false → depth = 1)

structure Inv (s : Sys) : Prop where
  law : Law s.sems
  waits : ∀ t, s.sems.waitsem t = (s.call t).bind Call.waits
  free : ∀ m, ((s.owners m).length : Int) + max 0 (s.sems.semcount (.mutex m)) = 1
  owns : ∀ m t, t ≠ 0 →
    (s.owners m).count t = (if s.acquiring m t then 1 else 0) + if (s.mutex m).pid = t then 1 else 0
  nobody : s.call 0 = none ∧ ∀ m, 0 ∉ s.owners m
  depths : ∀ m t, t ≠ 0 → (s.mutex m).pid ≠ t → s.depth m t = 0
  locks : ∀ m t, t ≠ 0 → (s.mutex m).pid = t →
    (s.mutex m).Locked (s.mutex m).nlocks (s.depth m t)
  saved : ∀ t c m n, s.call t = some c → c.saves = some (m, n) → (s.mutex m).Locked n n
  releasing : ∀ t c m, s.call t = some c → c.releases = some m → (s.mutex m).pid = t

section

variable {s s' : Sys} {t u m n : Nat} {c : Call}

theorem Inv.mem_owners (I : Inv s) (ht : t ∈ s.owners m) : t ≠ 0 := fun h => I.nobody.2 m (h ▸ ht)

theorem Inv.owners_cases (I : Inv s) (m : Nat) :
    (s.owners m = [] ∧ s.sems.semcount (.mutex m) = 1) ∨
      ∃ t, s.owners m = [t] ∧ s.sems.semcount (.mutex m) ≤ 0 := by
  have h := I.free m
  match hl : s.owners m with
  | [] =>
    rw [hl] at h
    simp only [List.length_nil, Nat.cast_zero] at h
    exact .inl ⟨rfl, by omega⟩
  | [t] =>
    rw [hl] at h
    simp only [List.length_cons, List.length_nil] at h
    exact .inr ⟨t, rfl, by omega⟩
  | t :: u :: l =>
    rw [hl] at h
    simp only [List.length_cons] at h
    omega

theorem Inv.pid_owner (I : Inv s) (ht : t ≠ 0) (hp : (s.mutex m).pid = t) :
    s.owners m = [t] ∧ s.acquiring m t = false := by
  have h := I.owns m t ht
  rw [if_pos hp] at h
  rcases I.owners_cases m with ⟨h0, -⟩ | ⟨u, hu, -⟩
  · rw [h0] at h
    simp at h
  · rw [hu] at h
    by_cases hut : u = t
    · subst hut
      refine ⟨hu, ?_⟩
      cases ha : s.acquiring m u with
      | false => rfl
      | true =>
        rw [ha] at h
        simp at h
    · rw [List.count_cons_of_ne hut] at h
      simp at h

theorem Inv.free_owner (I : Inv s) (h : 0 < s.sems.semcount (.mutex m)) :
    s.owners m = [] ∧ s.sems.semcount (.mutex m) = 1 ∧ (∀ t, t ≠ 0 → s.acquiring m t = false) ∧
      (s.mutex m).pid = 0 := by
  rcases I.owners_cases m with ⟨h0, h1⟩ | ⟨u, -, hle⟩
  · refine ⟨h0, h1, fun t ht => ?_, ?_⟩
    · have hc := I.owns m t ht
      rw [h0] at hc
      cases ha : s.acquiring m t with
      | false => rfl
      | true =>
        rw [ha] at hc
        simp at hc
        omega
    · by_contra hp
      have hc := I.owns m _ hp
      rw [h0, if_pos rfl] at hc
      simp at hc
  · omega

theorem Inv.acquiring_owner (I : Inv s) (ht : t ≠ 0) (ha : s.acquiring m t = true) :
    s.owners m = [t] ∧ (s.mutex m).pid = 0 ∧ ∀ u, u ≠ 0 → u ≠ t → s.acquiring m u = false := by
  have h := I.owns m t ht
  rw [ha, if_pos rfl] at h
  rcases I.owners_cases m with ⟨h0, -⟩ | ⟨u, hu, -⟩
  · rw [h0] at h
    simp at h
    omega
  · have hut : u = t := by
      by_contra hut
      rw [hu, List.count_cons_of_ne hut] at h
      simp at h
      omega
    subst hut
    refine ⟨hu, ?_, fun v hv hne => ?_⟩
    · by_contra hp
      have hc := I.owns m _ hp
      rw [hu, if_pos rfl] at hc
      by_cases hpu : (s.mutex m).pid = u
      · rw [hu, if_pos hpu] at h
        simp at h
      · rw [List.count_cons_of_ne fun h' => hpu h'.symm] at hc
        simp at hc
    · have hc := I.owns m v hv
      rw [hu, List.count_cons_of_ne fun h' => hne h'.symm] at hc
      cases hav : s.acquiring m v with
      | false => rfl
      | true =>
        rw [hav] at hc
        simp at hc
        omega

theorem acquiring_setCall (c : Option Call) : (s.setCall t c).acquiring m u =
    if u = t then c.any (Call.holds m) else s.acquiring m u := by
  unfold Sys.acquiring Sys.setCall
  by_cases h : u = t
  · subst h
    simp
  · simp [h]

theorem call_setCall (c : Option Call) : (s.setCall t c).call u = if u = t then c else s.call u := by
  unfold Sys.setCall
  by_cases h : u = t
  · subst h
    simp
  · simp [h]

end

section

variable {s s' : Sys} {t u m n : Nat} {c : Option Call} {r : Sems SemId}

theorem Inv.goes (I : Inv s) (ht : t ≠ 0) (hlaw : Law r)
    (hw : r.waitsem = update s.sems.waitsem t (c.bind Call.waits))
    (hcount : ∀ m, max 0 (r.semcount (.mutex m)) = max 0 (s.sems.semcount (.mutex m)))
    (hholds : ∀ m, c.any (Call.holds m) = s.acquiring m t)
    (hsaved : ∀ d m n, c = some d → d.saves = some (m, n) → (s.mutex m).Locked n n)
    (hrel : ∀ d m, c = some d → d.releases = some m → (s.mutex m).pid = t) :
    Inv (({ s with sems := r } : Sys).setCall t c) where
  law := hlaw
  waits u := by
    show r.waitsem u = _
    rw [hw, call_setCall]
    by_cases h : u = t
    · subst h
      simp
    · rw [update_of_ne h, if_neg h]
      exact I.waits u
  free m := by
    show ((s.owners m).length : Int) + max 0 (r.semcount (.mutex m)) = 1
    rw [hcount]
    exact I.free m
  owns m u hu := by
    have ha : (({ s with sems := r } : Sys).setCall t c).acquiring m u = s.acquiring m u := by
      rw [acquiring_setCall]
      split
      · rename_i h
        rw [h]
        exact hholds m
      · rfl
    rw [ha]
    exact I.owns m u hu
  nobody := by
    refine ⟨?_, I.nobody.2⟩
    rw [call_setCall, if_neg (Ne.symm ht)]
    exact I.nobody.1
  depths := I.depths
  locks := I.locks
  saved u d m n hd := by
    rw [call_setCall] at hd
    split at hd
    · exact hsaved d m n hd
    · exact I.saved u d m n hd
  releasing u d m hd hr := by
    rw [call_setCall] at hd
    split at hd
    · rename_i h
      rw [h]
      exact hrel d m hd hr
    · exact I.releasing u d m hd hr

theorem Inv.sems (I : Inv s) (hlaw : Law r) (hw : r.waitsem = s.sems.waitsem)
    (hcount : ∀ m, max 0 (r.semcount (.mutex m)) = max 0 (s.sems.semcount (.mutex m))) :
    Inv { s with sems := r } where
  law := hlaw
  waits u := by
    show r.waitsem u = _
    rw [hw]
    exact I.waits u
  free m := by
    show ((s.owners m).length : Int) + max 0 (r.semcount (.mutex m)) = 1
    rw [hcount]
    exact I.free m
  owns := I.owns
  nobody := I.nobody
  depths := I.depths
  locks := I.locks
  saved := I.saved
  releasing := I.releasing

end

section

variable {s s' : Sys} {t u m n k d : Nat} {c : Call} {r : Sems SemId}

theorem Call.holds_unique (h : c.holds m = true) (h' : c.holds n = true) : m = n := by
  cases c with
  | lockWait r w =>
    cases w with
    | granted => exact (of_decide_eq_true h).symm.trans (of_decide_eq_true h')
    | _ => cases h
  | condRetakeWait r saved w =>
    cases w with
    | granted => exact (of_decide_eq_true h).symm.trans (of_decide_eq_true h')
    | _ => cases h
  | condSetpid r saved => exact (of_decide_eq_true h).symm.trans (of_decide_eq_true h')
  | _ => cases h

theorem acquiring_unique (h : s.acquiring m t = true) (hn : n ≠ m) : s.acquiring n t = false := by
  unfold Sys.acquiring at *
  cases hc : s.call t with
  | none => rfl
  | some c =>
    rw [hc] at h
    cases hcn : c.holds n with
    | false => exact hcn
    | true => exact absurd (Call.holds_unique hcn h) hn

theorem mutexCount (i : Sems SemId) (e : Int) (r : Nat) : (i.count (.mutex m) e).semcount (.mutex r) =
    i.semcount (.mutex r) + if r = m then e else 0 := by
  rw [count_semcount]
  by_cases h : r = m
  · rw [if_pos h, if_pos (by rw [h])]
  · rw [if_neg h, if_neg fun h' => h (SemId.mutex.inj h')]

theorem owners_update (l : List Nat) (r : Nat) : (s.setOwners m l).owners r =
    if r = m then l else s.owners r := by
  unfold Sys.setOwners
  by_cases h : r = m
  · subst h
    simp
  · simp [h]

theorem Inv.acquire (I : Inv s) (ht : t ≠ 0) (hw : s.sems.waitsem t = none)
    (hno : ∀ r, s.acquiring r t = false) (hfree : 0 < s.sems.semcount (.mutex m))
    (hn : (s.mutex m).Locked n n) :
    Inv ((({ s with sems := (s.sems.count (.mutex m) (-1)).setWaitsem t none } : Sys).setOwners m
      (s.owners m ++ [t])).setCall t (some (.condSetpid m n))) := by
  obtain ⟨h0, h1, hacq, hpid⟩ := I.free_owner hfree
  have hnotw : t ∉ s.sems.gWaitingforsemaphore := I.law.running hw
  refine ⟨I.law.count _ (by omega) (by omega) hnotw, fun v => ?_, fun q => ?_, fun q v hv => ?_,
    ⟨?_, fun q => ?_⟩, I.depths, I.locks, fun v e q k hv hs => ?_, fun v e q hv hs => ?_⟩
  · show update s.sems.waitsem t none v = _
    rw [call_setCall]
    by_cases h : v = t
    · subst h
      simp [Call.waits]
    · rw [update_of_ne h, if_neg h]
      exact I.waits v
  · show (((({ s with sems := _ } : Sys).setOwners m (s.owners m ++ [t])).owners q).length : Int) +
      max 0 ((s.sems.count (.mutex m) (-1)).semcount (.mutex q)) = 1
    rw [owners_update, mutexCount]
    by_cases hq : q = m
    · subst hq
      rw [if_pos rfl, if_pos rfl, h0, h1]
      rfl
    · rw [if_neg hq, if_neg hq, Int.add_zero]
      exact I.free q
  · rw [acquiring_setCall]
    show (update s.owners m (s.owners m ++ [t]) q).count v =
      (if (if v = t then (some (Call.condSetpid m n)).any (Call.holds q)
        else s.acquiring q v) = true then 1 else 0) + if (s.mutex q).pid = v then 1 else 0
    by_cases hq : q = m
    · subst hq
      have hne : ¬(s.mutex q).pid = v := by
        rw [hpid]
        exact Ne.symm hv
      rw [update_self, h0, if_neg hne]
      by_cases hvt : v = t
      · subst hvt
        simp [Call.holds]
      · rw [if_neg hvt, hacq v hv]
        simp [Ne.symm hvt]
    · rw [update_of_ne hq]
      have hc := I.owns q v hv
      by_cases hvt : v = t
      · subst hvt
        rw [hno q] at hc
        rw [hc]
        simp [Call.holds, Ne.symm hq]
      · rw [if_neg hvt]
        exact hc
  · rw [call_setCall, if_neg (Ne.symm ht)]
    exact I.nobody.1
  · show 0 ∉ (({ s with sems := _ } : Sys).setOwners m (s.owners m ++ [t])).owners q
    rw [owners_update]
    split
    · rw [h0]
      simpa using Ne.symm ht
    · exact I.nobody.2 q
  · rw [call_setCall] at hv
    split at hv
    · cases hv
      cases hs
      exact hn
    · exact I.saved v e q k hv hs
  · rw [call_setCall] at hv
    split at hv
    · cases hv
      cases hs
    · exact I.releasing v e q hv hs

theorem Inv.settle (I : Inv s) (ht : t ≠ 0) (ha : s.acquiring m t = true)
    (hw : s.sems.waitsem t = none) (hn : (s.mutex m).Locked n d) :
    Inv (((s.setMutex m t n).setDepth m t d).setCall t none) := by
  obtain ⟨howner, hpid, hother⟩ := I.acquiring_owner ht ha
  have hmutex : ∀ q, (((s.setMutex m t n).setDepth m t d).setCall t none).mutex q =
      if q = m then ⟨t, (s.mutex m).recursive, n⟩ else s.mutex q := by
    intro q
    by_cases hq : q = m
    · subst hq
      simp [Sys.setMutex, Sys.setDepth, Sys.setCall]
    · simp [Sys.setMutex, Sys.setDepth, Sys.setCall, hq]
  have hdepth : ∀ q v, (((s.setMutex m t n).setDepth m t d).setCall t none).depth q v =
      if q = m ∧ v = t then d else s.depth q v := by
    intro q v
    show update s.depth m (update (s.depth m) t d) q v = _
    by_cases hq : q = m
    · subst hq
      by_cases hv : v = t
      · subst hv
        simp
      · simp [hv]
    · simp [hq]
  refine ⟨I.law, fun v => ?_, I.free, fun q v hv => ?_, ⟨?_, I.nobody.2⟩, fun q v hv hp => ?_,
    fun q v hv hp => ?_, fun v e q k hv hs => ?_, fun v e q hv hs => ?_⟩
  · show s.sems.waitsem v = _
    rw [call_setCall]
    by_cases h : v = t
    · subst h
      rw [if_pos rfl, hw]
      rfl
    · rw [if_neg h]
      exact I.waits v
  · rw [acquiring_setCall, hmutex]
    show (s.owners q).count v = (if (if v = t then (none : Option Call).any (Call.holds q)
      else s.acquiring q v) = true then 1 else 0) + _
    by_cases hq : q = m
    · subst hq
      rw [if_pos rfl, howner]
      by_cases hvt : v = t
      · subst hvt
        simp
      · rw [if_neg hvt, hother v hv hvt]
        simp [Ne.symm hvt]
    · rw [if_neg hq]
      have hc := I.owns q v hv
      by_cases hvt : v = t
      · subst hvt
        rw [acquiring_unique ha hq] at hc
        rw [hc]
        simp
      · rw [if_neg hvt]
        exact hc
  · rw [call_setCall, if_neg (Ne.symm ht)]
    exact I.nobody.1
  · rw [hmutex] at hp
    rw [hdepth]
    split at hp
    · rename_i hq
      subst hq
      have hvt : v ≠ t := fun h => hp h.symm
      rw [if_neg fun h => hvt h.2]
      apply I.depths q v hv
      rw [hpid]
      exact Ne.symm hv
    · rename_i hq
      rw [if_neg fun h => hq h.1]
      exact I.depths q v hv hp
  · rw [hmutex] at hp ⊢
    rw [hdepth]
    by_cases hq : q = m
    · subst hq
      rw [if_pos rfl] at hp ⊢
      have hvt : v = t := hp.symm
      rw [if_pos ⟨rfl, hvt⟩]
      exact hn
    · rw [if_neg hq] at hp ⊢
      rw [if_neg fun h => hq h.1]
      exact I.locks q v hv hp
  · rw [call_setCall] at hv
    rw [hmutex]
    split at hv
    · cases hv
    · have h := I.saved v e q k hv hs
      split
      · rename_i hq
        subst hq
        exact h
      · exact h
  · rw [call_setCall] at hv
    rw [hmutex]
    split at hv
    · cases hv
    · have hp := I.releasing v e q hv hs
      split
      · -- nobody is about to give up a mutex that is not locked
        rename_i hq
        subst hq
        rw [hpid] at hp
        subst hp
        have hv' : s.call 0 = some e := hv
        rw [I.nobody.1] at hv'
        cases hv'
      · exact hp

def Sys.unlocked (s : Sys) (t m n : Nat) : Sys :=
  ((s.setMutex m 0 n).setDepth m t 0).setCall t none

theorem unlocked_mutex (q : Nat) : (s.unlocked t m n).mutex q =
    if q = m then ⟨0, (s.mutex m).recursive, n⟩ else s.mutex q := by
  by_cases hq : q = m
  · subst hq
    simp [Sys.unlocked, Sys.setMutex, Sys.setDepth, Sys.setCall]
  · simp [Sys.unlocked, Sys.setMutex, Sys.setDepth, Sys.setCall, hq]

theorem unlocked_depth (q v : Nat) : (s.unlocked t m n).depth q v =
    if q = m ∧ v = t then 0 else s.depth q v := by
  show update s.depth m (update (s.depth m) t 0) q v = _
  by_cases hq : q = m
  · subst hq
    by_cases hv : v = t
    · subst hv
      simp
    · simp [hv]
  · simp [hq]

/-- What the post of a mutex's semaphore has to leave, for the state in which the owner is
gone from `pid`. -/
theorem Inv.given (I : Inv s) (hp : (s.mutex m).pid = t)
    (hlaw : Law s'.sems) (hmutex : s'.mutex = (s.unlocked t m n).mutex)
    (hdepth : s'.depth = (s.unlocked t m n).depth)
    (hwaits : ∀ v, s'.sems.waitsem v = (s'.call v).bind Call.waits)
    (hfree : ((s'.owners m).length : Int) + max 0 (s'.sems.semcount (.mutex m)) = 1)
    (hfree' : ∀ q, q ≠ m → s'.sems.semcount (.mutex q) = s.sems.semcount (.mutex q))
    (howner : ∀ v, v ≠ 0 → (s'.owners m).count v = if s'.acquiring m v then 1 else 0)
    (howner' : ∀ q, q ≠ m → s'.owners q = s.owners q ∧ ∀ v, s'.acquiring q v = s.acquiring q v)
    (hnobody : s'.call 0 = none ∧ 0 ∉ s'.owners m)
    (hcall : ∀ v e, s'.call v = some e → v ≠ t ∧ ∃ e', s.call v = some e' ∧ e'.saves = e.saves ∧
      e'.releases = e.releases) : Inv s' := by
  have hpidm : (s'.mutex m).pid = 0 := by
    rw [hmutex, unlocked_mutex, if_pos rfl]
  have hpidq : ∀ q, q ≠ m → s'.mutex q = s.mutex q := by
    intro q hq
    rw [hmutex, unlocked_mutex, if_neg hq]
  refine ⟨hlaw, hwaits, fun q => ?_, fun q v hv => ?_, ⟨hnobody.1, fun q => ?_⟩, fun q v hv hpv => ?_,
    fun q v hv hpv => ?_, fun v e q k hv hs => ?_, fun v e q hv hs => ?_⟩
  · by_cases hq : q = m
    · subst hq
      exact hfree
    · rw [(howner' q hq).1, hfree' q hq]
      exact I.free q
  · by_cases hq : q = m
    · subst hq
      rw [howner v hv, hpidm, if_neg (Ne.symm hv), Nat.add_zero]
    · rw [(howner' q hq).1, (howner' q hq).2, hpidq q hq]
      exact I.owns q v hv
  · by_cases hq : q = m
    · subst hq
      exact hnobody.2
    · rw [(howner' q hq).1]
      exact I.nobody.2 q
  · rw [hdepth, unlocked_depth]
    split
    · rfl
    · rename_i hqv
      by_cases hq : q = m
      · subst hq
        apply I.depths q v hv
        rw [hp]
        exact fun h => hqv ⟨rfl, h.symm⟩
      · rw [hpidq q hq] at hpv
        exact I.depths q v hv hpv
  · by_cases hq : q = m
    · subst hq
      rw [hpidm] at hpv
      exact absurd hpv.symm hv
    · rw [hpidq q hq] at hpv ⊢
      rw [hdepth, unlocked_depth, if_neg fun h => hq h.1]
      exact I.locks q v hv hpv
  · obtain ⟨-, e', he', hsv, -⟩ := hcall v e hv
    have h := I.saved v e' q k he' (hsv.trans hs)
    rw [hmutex, unlocked_mutex]
    split
    · rename_i hq
      subst hq
      exact h
    · exact h
  · obtain ⟨hvt, e', he', -, hrl⟩ := hcall v e hv
    have h := I.releasing v e' q he' (hrl.trans hs)
    by_cases hq : q = m
    · subst hq
      exact absurd (h.symm.trans hp) hvt
    · rw [hpidq q hq]
      exact h

theorem Call.waits_wake (w : WaitState) (h : c.waits ≠ none) : (c.wake w).saves = c.saves ∧
    (c.wake w).releases = c.releases ∧ c.holds n = false := by
  cases c with
  | lockWait r v => cases v <;> first | exact ⟨rfl, rfl, rfl⟩ | exact absurd rfl h
  | condWait r e timed saved v => cases v <;> exact ⟨rfl, rfl, rfl⟩
  | condRetakeWait r saved v => cases v <;> first | exact ⟨rfl, rfl, rfl⟩ | exact absurd rfl h
  | _ => exact absurd rfl h

theorem Call.wake_waits {w : WaitState} (hw : w ≠ .waiting) (h : c.waits ≠ none) :
    (c.wake w).waits = none := by
  cases c <;> cases w <;> first | rfl | exact absurd rfl hw

theorem Call.granted_holds (h : c.waits = some (.mutex m)) (n : Nat) :
    (c.wake .granted).holds n = decide (m = n) := by
  cases c with
  | lockWait r v =>
    cases v with
    | waiting =>
      cases h
      rfl
    | _ => cases h
  | condRetakeWait r saved v =>
    cases v with
    | waiting =>
      cases h
      rfl
    | _ => cases h
  | condWait r e timed saved v => cases v <;> cases h
  | _ => cases h

theorem Inv.waiting_call (I : Inv s) {i : SemId} (hw : s.sems.waitsem u = some i) :
    u ≠ 0 ∧ ∃ c, s.call u = some c ∧ c.waits = some i := by
  have h := I.waits u
  rw [hw] at h
  obtain ⟨c, hc, hcw⟩ := Option.bind_eq_some_iff.mp h.symm
  refine ⟨fun h0 => ?_, c, hc, hcw⟩
  rw [h0, I.nobody.1] at hc
  cases hc

theorem Inv.giveMutex (I : Inv s) (ht : t ≠ 0) (hp : (s.mutex m).pid = t)
    (hw : s.sems.waitsem t = none) (hno : ∀ q, s.acquiring q t = false)
    (he : Pthread.giveMutex t m (s.unlocked t m n) = some s') :
    Inv s' ∧ t ∉ s'.owners m ∧ s'.call t = none ∧ s'.sems.waitsem t = none ∧
      s'.mutex = (s.unlocked t m n).mutex := by
  obtain ⟨howner, hacq⟩ := I.pid_owner ht hp
  have hothers : ∀ v, v ≠ 0 → s.acquiring m v = false := by
    intro v hv
    have hc := I.owns m v hv
    rw [howner] at hc
    cases ha : s.acquiring m v with
    | false => rfl
    | true =>
      by_cases hvt : v = t
      · subst hvt
        rw [hacq] at ha
        cases ha
      · rw [ha, List.count_cons_of_ne fun h => hvt h.symm] at hc
        simp at hc
        omega
  have hle : s.sems.semcount (.mutex m) ≤ 0 := by
    rcases I.owners_cases m with ⟨h0, -⟩ | ⟨u, -, hle⟩
    · rw [howner] at h0
      cases h0
    · exact hle
  have hcallu : ∀ v, (s.unlocked t m n).call v = if v = t then none else s.call v := by
    intro v
    exact call_setCall none
  have hacqu : ∀ q v, (s.unlocked t m n).acquiring q v =
      if v = t then false else s.acquiring q v := by
    intro q v
    exact acquiring_setCall none
  have hacqt : ∀ q v, (s.unlocked t m n).acquiring q v = s.acquiring q v := by
    intro q v
    rw [hacqu]
    split
    · rename_i h
      rw [h, hno q]
    · rfl
  unfold Pthread.giveMutex at he
  obtain ⟨⟨r, w⟩, hr, hs'⟩ := Option.map_eq_some_iff.mp he
  have hsems : (s.unlocked t m n).sems = s.sems := rfl
  have howners : (s.unlocked t m n).owners m = [t] := howner
  have herase : ((s.unlocked t m n).owners m).erase t = [] := by
    rw [howners]
    simp
  rw [hsems] at hr
  have hlaw : Law r := I.law.semPost hr
  rcases I.law.semPost_cases hr with ⟨h0, rfl, rfl⟩ | ⟨u, rfl, hwu, hneg, rfl, -⟩
  · dsimp only at hs'
    rw [herase] at hs'
    have hmutex : s'.mutex = (s.unlocked t m n).mutex := by
      rw [← hs']
      rfl
    have hdepth : s'.depth = (s.unlocked t m n).depth := by
      rw [← hs']
      rfl
    subst hs'
    refine ⟨?_, ?_, ?_, hw, rfl⟩
    · apply I.given hp hlaw hmutex hdepth
      · intro v
        show s.sems.waitsem v = ((s.unlocked t m n).call v).bind Call.waits
        rw [hcallu]
        split
        · rename_i h
          rw [h, hw]
          rfl
        · exact I.waits v
      · show (((Sys.setOwners _ m []).owners m).length : Int) +
          max 0 ((s.sems.count (.mutex m) 1).semcount (.mutex m)) = 1
        rw [owners_update, if_pos rfl, mutexCount, if_pos rfl]
        simp only [List.length_nil, Nat.cast_zero]
        omega
      · intro q hq
        show (s.sems.count (.mutex m) 1).semcount (.mutex q) = _
        rw [mutexCount, if_neg hq, Int.add_zero]
      · intro v hv
        rw [owners_update, if_pos rfl]
        show _ = if (s.unlocked t m n).acquiring m v = true then 1 else 0
        rw [hacqt, hothers v hv]
        rfl
      · intro q hq
        rw [owners_update, if_neg hq]
        exact ⟨rfl, fun v => hacqt q v⟩
      · rw [owners_update, if_pos rfl]
        refine ⟨?_, by simp⟩
        show (s.unlocked t m n).call 0 = none
        rw [hcallu, if_neg (Ne.symm ht)]
        exact I.nobody.1
      · intro v e hv
        have hv' : (s.unlocked t m n).call v = some e := hv
        rw [hcallu] at hv'
        split at hv'
        · cases hv'
        · rename_i h
          exact ⟨h, e, hv', rfl, rfl⟩
    · rw [owners_update, if_pos rfl]
      simp
    · show (s.unlocked t m n).call t = none
      rw [hcallu, if_pos rfl]
  · obtain ⟨hu, c, hc, hcw⟩ := I.waiting_call hwu
    have hcw' : c.waits ≠ none := by
      rw [hcw]
      simp
    have hut : u ≠ t := by
      intro h
      rw [h, hw] at hwu
      cases hwu
    have hcu : (s.unlocked t m n).call u = some c := by
      rw [hcallu, if_neg hut]
      exact hc
    dsimp only at hs'
    rw [herase, List.nil_append] at hs'
    have hcall : ∀ v, s'.call v =
        if v = u then some (c.wake .granted) else (s.unlocked t m n).call v := by
      intro v
      rw [← hs']
      show (Sys.setCall _ u (((s.unlocked t m n).call u).map (Call.wake .granted))).call v = _
      rw [call_setCall, hcu]
      rfl
    have hacq' : ∀ q v, s'.acquiring q v =
        if v = u then decide (m = q) else s.acquiring q v := by
      intro q v
      unfold Sys.acquiring
      rw [hcall]
      split
      · exact Call.granted_holds hcw q
      · exact hacqt q v
    have howner' : ∀ q, s'.owners q = if q = m then [u] else s.owners q := by
      intro q
      rw [← hs']
      exact owners_update [u] q
    have hws : s'.sems = ((s.sems.count (.mutex m) 1).setWaitsem u none).remove u := by
      rw [← hs']
      rfl
    refine ⟨?_, ?_, ?_, ?_, by rw [← hs']; rfl⟩
    · apply I.given hp (hws ▸ hlaw) (by rw [← hs']; rfl) (by rw [← hs']; rfl)
      · intro v
        rw [hws, hcall]
        show update s.sems.waitsem u none v = _
        by_cases hvu : v = u
        · subst hvu
          rw [update_self, if_pos rfl]
          exact (Call.wake_waits (by simp) hcw').symm
        · rw [update_of_ne hvu, if_neg hvu, hcallu]
          split
          · rename_i h
            rw [h, hw]
            rfl
          · exact I.waits v
      · rw [howner', if_pos rfl, hws]
        show (([u] : List Nat).length : Int) +
          max 0 ((s.sems.count (.mutex m) 1).semcount (.mutex m)) = 1
        rw [mutexCount, if_pos rfl]
        simp only [List.length_cons, List.length_nil]
        omega
      · intro q hq
        rw [hws]
        show (s.sems.count (.mutex m) 1).semcount (.mutex q) = _
        rw [mutexCount, if_neg hq, Int.add_zero]
      · intro v hv
        rw [howner', if_pos rfl, hacq']
        by_cases hvu : v = u
        · subst hvu
          simp
        · rw [if_neg hvu, hothers v hv, List.count_cons_of_ne fun h => hvu h.symm]
          rfl
      · intro q hq
        rw [howner', if_neg hq]
        refine ⟨rfl, fun v => ?_⟩
        rw [hacq']
        split
        · rename_i h
          unfold Sys.acquiring
          rw [h, hc]
          exact (decide_eq_false (Ne.symm hq)).trans (Call.waits_wake .granted hcw').2.2.symm
        · rfl
      · rw [hcall, if_neg (Ne.symm hu), hcallu, if_neg (Ne.symm ht), howner', if_pos rfl]
        exact ⟨I.nobody.1, by simpa using Ne.symm hu⟩
      · intro v e hv
        rw [hcall] at hv
        split at hv
        · rename_i h
          cases hv
          obtain ⟨h1, h2, -⟩ := Call.waits_wake (n := 0) .granted hcw'
          rw [h]
          exact ⟨hut, c, hc, h1.symm, h2.symm⟩
        · rw [hcallu] at hv
          split at hv
          · cases hv
          · rename_i h
            exact ⟨h, e, hv, rfl, rfl⟩
    · rw [howner', if_pos rfl]
      simpa using Ne.symm hut
    · rw [hcall, if_neg (Ne.symm hut), hcallu, if_pos rfl]
    · rw [hws]
      show update s.sems.waitsem u none t = none
      rw [update_of_ne (Ne.symm hut)]
      exact hw

end

/-- The mutex whose `pid` the thread sets at the end of a condition wait, with the number of
locks that the wait gave up. -/
def Call.setsPid : Call → Option (Nat × Nat)
  | .condSetpid m saved => some (m, saved)
  | _ => none

/-- A successful `trylock` finds the count at one, and a wait that gets the mutex back finds
the count that it gave up. -/
def Op.keepsCount (s : Sys) : Op → Prop
  | .trylock _ m =>
    (s.mutex m).recursive = true → 0 < s.sems.semcount (.mutex m) → (s.mutex m).nlocks = 1
  | .step t =>
    ∀ c ∈ s.call t, ∀ r ∈ c.setsPid, (s.mutex r.1).recursive = true → (s.mutex r.1).nlocks = r.2
  | _ => True

section

variable {s s' : Sys} {t u m n d c saved : Nat} {timed b : Bool} {r : Sems SemId}

theorem waitsem_same (hw : s.sems.waitsem t = none) :
    s.sems.waitsem = update s.sems.waitsem t none := by
  rw [← hw, update_eq_self]

theorem locked_one (x : Mutex) : x.Locked 1 1 := ⟨le_refl 1, fun _ => rfl, fun _ => rfl⟩

theorem Inv.recount (I : Inv s) (ht : t ≠ 0) (hp : (s.mutex m).pid = t)
    (hn : (s.mutex m).Locked n d) : Inv ((s.setMutex m t n).setDepth m t d) := by
  have hmutex : ∀ q, ((s.setMutex m t n).setDepth m t d).mutex q =
      if q = m then ⟨t, (s.mutex m).recursive, n⟩ else s.mutex q := by
    intro q
    by_cases hq : q = m
    · subst hq
      simp [Sys.setMutex, Sys.setDepth]
    · simp [Sys.setMutex, Sys.setDepth, hq]
  have hpid : ∀ q, (((s.setMutex m t n).setDepth m t d).mutex q).pid = (s.mutex q).pid := by
    intro q
    rw [hmutex]
    split
    · rename_i hq
      rw [hq, hp]
    · rfl
  have hlocked : ∀ q k e, (((s.setMutex m t n).setDepth m t d).mutex q).Locked k e ↔
      (s.mutex q).Locked k e := by
    intro q k e
    rw [hmutex]
    split
    · rename_i hq
      rw [hq]
      rfl
    · rfl
  have hdepth : ∀ q v, ((s.setMutex m t n).setDepth m t d).depth q v =
      if q = m ∧ v = t then d else s.depth q v := by
    intro q v
    show update s.depth m (update (s.depth m) t d) q v = _
    by_cases hq : q = m
    · subst hq
      by_cases hv : v = t
      · subst hv
        simp
      · simp [hv]
    · simp [hq]
  refine ⟨I.law, I.waits, I.free, fun q v hv => ?_, I.nobody, fun q v hv hpv => ?_,
    fun q v hv hpv => ?_, fun v e q k hv hs => ?_, fun v e q hv hs => ?_⟩
  · rw [hpid]
    exact I.owns q v hv
  · rw [hpid] at hpv
    rw [hdepth, if_neg]
    · exact I.depths q v hv hpv
    · rintro ⟨rfl, rfl⟩
      exact hpv hp
  · rw [hpid] at hpv
    rw [hlocked, hdepth]
    by_cases hq : q = m
    · subst hq
      have hvt : v = t := hpv.symm.trans hp
      rw [if_pos ⟨rfl, hvt⟩, hmutex, if_pos rfl]
      exact hn
    · rw [if_neg fun h => hq h.1, hmutex, if_neg hq]
      exact I.locks q v hv hpv
  · rw [hlocked]
    exact I.saved v e q k hv hs
  · rw [hpid]
    exact I.releasing v e q hv hs

theorem Inv.waitMutex (I : Inv s) (ht : t ≠ 0) (hw : s.sems.waitsem t = none)
    (hno : ∀ q, s.acquiring q t = false) (hle : s.sems.semcount (.mutex m) ≤ 0) {e : Call}
    (he : e.waits = some (.mutex m)) (hs : ∀ q k, e.saves = some (q, k) → (s.mutex q).Locked k k)
    (hr : e.releases = none) :
    Inv (({ s with sems := ((s.sems.count (.mutex m) (-1)).setWaitsem t (some (.mutex m))).enter t } :
      Sys).setCall t (some e)) := by
  have hew : e.waits ≠ none := by
    rw [he]
    simp
  apply I.goes ht (I.law.enter (I.law.running hw) hle)
  · show update s.sems.waitsem t (some (SemId.mutex m)) = _
    rw [Option.bind_some, he]
  · intro q
    show max 0 ((s.sems.count (.mutex m) (-1)).semcount (.mutex q)) = _
    rw [mutexCount]
    split
    · rename_i hq
      subst hq
      omega
    · rw [Int.add_zero]
  · intro q
    rw [hno]
    exact (Call.waits_wake .granted hew).2.2
  · intro f q k hf hfs
    cases hf
    exact hs q k hfs
  · intro f q hf hfr
    cases hf
    rw [hr] at hfr
    cases hfr

theorem setLocked_eq (x : Sys) (f : Option Call) : setLocked t m (x.setCall t none) =
    (((x.setCall t f).setMutex m t 1).setDepth m t (x.depth m t + 1)).setCall t none := by
  simp [setLocked, Sys.setCall, Sys.setMutex, Sys.setDepth]

theorem acquiring_self (x : Sys) : (x.setCall t (some (.condSetpid m n))).acquiring m t = true := by
  rw [acquiring_setCall, if_pos rfl]
  simp [Call.holds]

theorem Inv.lockTake (I : Inv s) (ht : t ≠ 0) (hw : s.sems.waitsem t = none)
    (hno : ∀ q, s.acquiring q t = false) (he : Pthread.lockTake t m s = some s') : Inv s' := by
  unfold Pthread.lockTake takeMutex at he
  rw [Option.map_map] at he
  obtain ⟨⟨r, b⟩, hr, hs'⟩ := Option.map_eq_some_iff.mp he
  rcases semWait_cases hr with ⟨rfl, hpos, rfl⟩ | ⟨rfl, hle, -, rfl⟩
  · have I1 := I.acquire ht hw hno hpos (locked_one _)
    obtain ⟨-, -, -, hpid⟩ := I.free_owner hpos
    have hd : s.depth m t = 0 := I.depths m t ht (by rw [hpid]; exact Ne.symm ht)
    have I2 := I1.settle (n := 1) (d := s.depth m t + 1) ht (acquiring_self _) ?_ ?_
    · rw [← hs']
      show Inv (setLocked t m (Sys.setCall _ t none))
      rw [setLocked_eq _ (some (.condSetpid m 1))]
      exact I2
    · exact update_self _ _ _
    · rw [hd]
      exact locked_one _
  · rw [← hs']
    apply I.waitMutex ht hw hno hle rfl
    · intro q k hk
      cases hk
    · rfl

theorem Inv.lock (I : Inv s) (ho : s.outside t) (he : pthreadMutexLock t m s = some s') :
    Inv s' := by
  have hw : s.sems.waitsem t = none := by
    rw [I.waits t, ho.2]
    rfl
  have hno : ∀ q, s.acquiring q t = false := by
    intro q
    unfold Sys.acquiring
    rw [ho.2]
    rfl
  unfold pthreadMutexLock at he
  split at he
  · rename_i hp
    split at he
    · rename_i hrec
      cases he
      obtain ⟨h1, h2, h3⟩ := I.locks m t ho.1 hp
      apply I.recount ho.1 hp
      refine ⟨by omega, fun _ => by rw [h2 hrec], fun h => ?_⟩
      rw [hrec] at h
      cases h
    · cases he
      exact I
  · exact I.lockTake ho.1 hw hno he

theorem Inv.trylock (I : Inv s) (ho : s.outside t)
    (hk : (s.mutex m).recursive = true → 0 < s.sems.semcount (.mutex m) →
      (s.mutex m).nlocks = 1) : Inv (pthreadMutexTrylock t m s) := by
  have hw : s.sems.waitsem t = none := by
    rw [I.waits t, ho.2]
    rfl
  have hno : ∀ q, s.acquiring q t = false := by
    intro q
    unfold Sys.acquiring
    rw [ho.2]
    rfl
  unfold pthreadMutexTrylock semTrywait
  by_cases hpos : 0 < s.sems.semcount (.mutex m)
  · rw [if_pos hpos]
    have I1 := I.acquire ho.1 hw hno hpos (locked_one _)
    obtain ⟨-, -, -, hpid⟩ := I.free_owner hpos
    have hd : s.depth m t = 0 := I.depths m t ho.1 (by rw [hpid]; exact Ne.symm ho.1)
    have I2 := I1.settle (n := (s.mutex m).nlocks) (d := s.depth m t + 1) ho.1
      (acquiring_self _) ?_ ?_
    · have hcall : update s.call t none = s.call := by
        rw [← ho.2, update_eq_self]
      convert I2 using 1
      simp [Sys.setCall, Sys.setMutex, Sys.setDepth, Sys.setOwners, hcall]
    · exact update_self _ _ _
    · rw [hd]
      exact ⟨le_refl 1, fun h => hk h hpos, fun _ => rfl⟩
  · rw [if_neg hpos]
    exact I

theorem Inv.unlock (I : Inv s) (ho : s.outside t) (hp : (s.mutex m).pid = t)
    (he : pthreadMutexUnlock t m s = some s') :
    Inv s' ∧ ((s.mutex m).recursive = true → (t ∉ s'.owners m ↔ s.depth m t = 1)) := by
  have hw : s.sems.waitsem t = none := by
    rw [I.waits t, ho.2]
    rfl
  have hno : ∀ q, s.acquiring q t = false := by
    intro q
    unfold Sys.acquiring
    rw [ho.2]
    rfl
  obtain ⟨h1, h2, h3⟩ := I.locks m t ho.1 hp
  obtain ⟨howner, -⟩ := I.pid_owner ho.1 hp
  unfold pthreadMutexUnlock at he
  rw [if_neg (not_not.mpr hp)] at he
  split at he
  · rename_i hin
    cases he
    have hn := h2 hin.1
    refine ⟨I.recount ho.1 hp ⟨by omega, fun _ => by rw [hn], fun h => ?_⟩, fun _ => ?_⟩
    · rw [hin.1] at h
      cases h
    · have hmem : t ∈ ((s.setMutex m t ((s.mutex m).nlocks - 1)).setDepth m t
          (s.depth m t - 1)).owners m := by
        show t ∈ s.owners m
        rw [howner]
        exact List.mem_singleton_self t
      constructor
      · exact fun h => absurd hmem h
      · intro h
        omega
  · rename_i hout
    have hone : s.depth m t = 1 := by
      cases hrec : (s.mutex m).recursive with
      | false => exact h3 hrec
      | true =>
        have hn := h2 hrec
        have : ¬1 < (s.mutex m).nlocks := fun h => hout ⟨hrec, h⟩
        omega
    have hcall : update s.call t none = s.call := by
      rw [← ho.2, update_eq_self]
    have hs : (s.setMutex m 0 0).setDepth m t (s.depth m t - 1) = s.unlocked t m 0 := by
      rw [hone]
      simp [Sys.unlocked, Sys.setCall, Sys.setMutex, Sys.setDepth, hcall]
    rw [hs] at he
    obtain ⟨I', hnot, -⟩ := I.giveMutex ho.1 hp hw hno he
    exact ⟨I', fun _ => ⟨fun _ => hone, fun _ => hnot⟩⟩

theorem Inv.condTake (I : Inv s) (ht : t ≠ 0) (hw : s.sems.waitsem t = none)
    (hno : ∀ q, s.acquiring q t = false) (hn : (s.mutex m).Locked saved saved)
    (he : Pthread.condTake t m c timed saved s = some s') : Inv s' := by
  have hcond : ∀ (x : Sems SemId) (e : Int) q, (x.count (.cond c) e).semcount (.mutex q) =
      x.semcount (.mutex q) := by
    intro x e q
    rw [count_semcount, if_neg (by simp), Int.add_zero]
  unfold Pthread.condTake at he
  obtain ⟨⟨r, b⟩, hr, hs'⟩ := Option.map_eq_some_iff.mp he
  rcases semWait_cases hr with ⟨rfl, hpos, rfl⟩ | ⟨rfl, hle, -, rfl⟩
  · rw [← hs']
    apply I.goes ht (I.law.count _ (by omega) (by omega) (I.law.running hw))
    · rfl
    · intro q
      show max 0 ((s.sems.count (.cond c) (-1)).semcount (.mutex q)) = _
      rw [hcond]
    · exact fun q => (hno q).symm
    · intro f q k hf hfs
      cases hf
      cases hfs
      exact hn
    · intro f q hf hfr
      cases hf
      cases hfr
  · rw [← hs']
    apply I.goes ht (I.law.enter (I.law.running hw) hle)
    · rfl
    · intro q
      show max 0 ((s.sems.count (.cond c) (-1)).semcount (.mutex q)) = _
      rw [hcond]
    · exact fun q => (hno q).symm
    · intro f q k hf hfs
      cases hf
      cases hfs
      exact hn
    · intro f q hf hfr
      cases hf
      cases hfr

theorem Inv.condRelease (I : Inv s) (hc : s.call t = some (.condRelease m c timed)) (ht : t ≠ 0)
    (he : Pthread.condRelease t m c timed s = some s') : Inv s' := by
  have hp : (s.mutex m).pid = t := I.releasing t _ m hc rfl
  have hw : s.sems.waitsem t = none := by
    rw [I.waits t, hc]
    rfl
  have hno : ∀ q, s.acquiring q t = false := by
    intro q
    unfold Sys.acquiring
    rw [hc]
    rfl
  obtain ⟨h1, h2, h3⟩ := I.locks m t ht hp
  obtain ⟨s1, hs1, he'⟩ := Option.bind_eq_some_iff.mp he
  obtain ⟨I1, -, hcall, hw1, hmutex⟩ := I.giveMutex ht hp hw hno hs1
  apply I1.condTake ht hw1 _ _ he'
  · intro q
    unfold Sys.acquiring
    rw [hcall]
    rfl
  · rw [hmutex, unlocked_mutex, if_pos rfl]
    exact ⟨h1, fun _ => rfl, h3⟩

theorem Inv.condRetake (I : Inv s) (ht : t ≠ 0) (hw : s.sems.waitsem t = none)
    (hno : ∀ q, s.acquiring q t = false) (hn : (s.mutex m).Locked saved saved)
    (he : Pthread.condRetake t m saved s = some s') : Inv s' := by
  unfold Pthread.condRetake takeMutex at he
  rw [Option.map_map] at he
  obtain ⟨⟨r, b⟩, hr, hs'⟩ := Option.map_eq_some_iff.mp he
  rcases semWait_cases hr with ⟨rfl, hpos, rfl⟩ | ⟨rfl, hle, -, rfl⟩
  · rw [← hs']
    exact I.acquire ht hw hno hpos hn
  · rw [← hs']
    apply I.waitMutex ht hw hno hle rfl
    · intro q k hk
      cases hk
      exact hn
    · rfl

theorem Inv.callStep (I : Inv s) {e : Call} (hc : s.call t = some e)
    (hrun : t ∉ s.sems.gWaitingforsemaphore)
    (hk : ∀ r ∈ e.setsPid, (s.mutex r.1).recursive = true → (s.mutex r.1).nlocks = r.2)
    (he : Pthread.callStep t s e = some s') : Inv s' := by
  have ht : t ≠ 0 := by
    intro h
    rw [h, I.nobody.1] at hc
    cases hc
  have hw : s.sems.waitsem t = none := by
    by_contra h
    exact hrun ((I.law.waits t).mpr h)
  have hew : e.waits = none := by
    have h := I.waits t
    rw [hw, hc] at h
    exact h.symm
  have hacq : ∀ q, s.acquiring q t = e.holds q := by
    intro q
    unfold Sys.acquiring
    rw [hc]
    rfl
  unfold Pthread.callStep at he
  cases e with
  | lockWait m w =>
    dsimp only at he
    cases w with
    | waiting => cases hew
    | interrupted =>
      rw [if_pos rfl] at he
      exact I.lockTake ht hw hacq he
    | granted =>
      rw [if_neg (by simp)] at he
      cases he
      have ha : s.acquiring m t = true := by
        rw [hacq]
        simp [Call.holds]
      obtain ⟨-, hpid, -⟩ := I.acquiring_owner ht ha
      have hd : s.depth m t = 0 := I.depths m t ht (by rw [hpid]; exact Ne.symm ht)
      apply I.settle ht ha hw
      show (s.mutex m).Locked 1 (s.depth m t + 1)
      rw [hd]
      exact locked_one _
  | condRelease m c timed => exact I.condRelease hc ht he
  | condWait m c timed saved w =>
    have hn := I.saved t _ m saved hc rfl
    have hno : ∀ q, s.acquiring q t = false := hacq
    dsimp only at he
    split at he
    · exact I.condTake ht hw hno hn he
    · cases he
      apply I.goes ht I.law
      · exact waitsem_same hw
      · exact fun _ => rfl
      · exact fun q => (hno q).symm
      · intro f q k hf hfs
        cases hf
        cases hfs
        exact hn
      · intro f q hf hfr
        cases hf
        cases hfr
  | condRetake m saved => exact I.condRetake ht hw hacq (I.saved t _ m saved hc rfl) he
  | condRetakeWait m saved w =>
    have hn := I.saved t _ m saved hc rfl
    dsimp only at he
    cases w with
    | waiting => cases hew
    | interrupted =>
      rw [if_pos rfl] at he
      exact I.condRetake ht hw hacq hn he
    | granted =>
      rw [if_neg (by simp)] at he
      cases he
      apply I.goes ht I.law
      · exact waitsem_same hw
      · exact fun _ => rfl
      · exact fun q => (hacq q).symm
      · intro f q k hf hfs
        cases hf
        cases hfs
        exact hn
      · intro f q hf hfr
        cases hf
        cases hfr
  | condSetpid m saved =>
    cases he
    have hn := I.saved t _ m saved hc rfl
    apply I.settle ht _ hw
    · exact ⟨hn.1, fun h => hk _ rfl h, hn.2.2⟩
    · rw [hacq]
      simp [Call.holds]

theorem Inv.wake (I : Inv s) {i : SemId} {w : WaitState} (hw : s.sems.waitsem u = some i)
    (hi : w = .interrupted ∨ ∃ c, i = .cond c) (hne : w ≠ .waiting) :
    Inv (wakeCall { s with sems := ((s.sems.count i 1).setWaitsem u none).remove u } u w) := by
  obtain ⟨hu, e, he, hew⟩ := I.waiting_call hw
  have hew' : e.waits ≠ none := by
    rw [hew]
    simp
  obtain ⟨-, hneg⟩ := I.law.waiting_neg hw
  unfold wakeCall
  rw [show ({ s with sems := ((s.sems.count i 1).setWaitsem u none).remove u } : Sys).call u =
    some e from he]
  apply I.goes hu (I.law.leave hw)
  · show update s.sems.waitsem u none = _
    rw [show ((Option.map (Call.wake w) (some e)).bind Call.waits) = none from
      Call.wake_waits hne hew']
  · intro q
    show max 0 ((s.sems.count i 1).semcount (.mutex q)) = _
    rw [count_semcount]
    split
    · rename_i h
      rw [h]
      omega
    · rw [Int.add_zero]
  · intro q
    have h1 : s.acquiring q u = false := by
      unfold Sys.acquiring
      rw [he]
      exact (Call.waits_wake w hew').2.2
    rw [h1]
    show (e.wake w).holds q = false
    rcases hi with rfl | ⟨c, rfl⟩
    · cases e <;> first | rfl | cases hew
    · cases e with
      | lockWait r v => cases v <;> cases hew
      | condRetakeWait r saved v => cases v <;> cases hew
      | condWait r d timed saved v => cases w <;> rfl
      | _ => cases hew
  · intro f q k hf hfs
    cases hf
    apply I.saved u e q k he
    rw [← hfs]
    exact ((Call.waits_wake (n := 0) w hew').1).symm
  · intro f q hf hfr
    cases hf
    apply I.releasing u e q he
    rw [← hfr]
    exact ((Call.waits_wake (n := 0) w hew').2.1).symm

theorem Inv.step (I : Inv s) {i : Op} (hv : i.valid s) (hk : i.keepsCount s)
    (he : i.exec s = some s') : Inv s' := by
  cases i with
  | lock t m => exact I.lock hv he
  | trylock t m =>
    cases he
    exact I.trylock hv hk
  | unlock t m =>
    by_cases hp : (s.mutex m).pid = t
    · exact (I.unlock hv hp he).1
    · simp only [Op.exec, pthreadMutexUnlock, if_pos hp] at he
      cases he
      exact I
  | condWait t m c timed =>
    cases he
    unfold pthreadCondWait
    split
    · exact I
    · rename_i hp
      have hw : s.sems.waitsem t = none := by
        rw [I.waits t, hv.2]
        rfl
      apply I.goes hv.1 I.law
      · exact waitsem_same hw
      · exact fun _ => rfl
      · intro q
        unfold Sys.acquiring
        rw [hv.2]
        rfl
      · intro f q k hf hfs
        cases hf
        cases hfs
      · intro f q hf hfr
        cases hf
        cases hfr
        exact not_not.mp hp
  | step t =>
    obtain ⟨e, hc, he'⟩ := Option.bind_eq_some_iff.mp he
    exact I.callStep hc hv (hk e hc) he'
  | post c =>
    obtain ⟨⟨r, w⟩, hr, hs'⟩ := Option.map_eq_some_iff.mp he
    rcases I.law.semPost_cases hr with ⟨h0, rfl, rfl⟩ | ⟨u, rfl, hwu, hneg, rfl, -⟩
    · rw [← hs']
      apply I.sems (I.law.semPost hr) rfl
      intro q
      rw [count_semcount, if_neg (by simp), Int.add_zero]
    · rw [← hs']
      exact I.wake hwu (.inr ⟨c, rfl⟩) (by simp)
  | waitirq t =>
    simp only [Op.exec, Pthread.waitirq] at he
    split at he
    · rename_i ht
      obtain ⟨r, hr, hs'⟩ := Option.map_eq_some_iff.mp he
      unfold semWaitirq endWaitirq at hr
      rw [if_pos ht] at hr
      split at hr
      · rename_i i hwt
        rw [if_pos ht] at hr
        cases hr
        rw [← hs']
        exact I.wake hwt (.inl rfl) (by simp)
      · cases hr
    · cases he
      exact I
  | setpriority t p =>
    cases he
    apply I.sems I.law.schedSetpriority
    · unfold schedSetpriority
      dsimp only
      split <;> rfl
    · intro q
      unfold schedSetpriority
      dsimp only
      split <;> rfl

theorem MutexStart.inv (h : MutexStart s) : Inv s where
  law := by
    apply Law.of_empty h.waitsem h.waiting
    intro i
    cases i with
    | mutex m =>
      rw [(h.mutex m).2.2]
      exact Int.one_nonneg
    | cond c => exact (h.cond c).ge
  waits v := by
    rw [h.waitsem, h.call]
    rfl
  free m := by
    rw [h.owners, (h.mutex m).2.2]
    rfl
  owns m v hv := by
    unfold Sys.acquiring
    rw [h.owners, h.call, (h.mutex m).1, if_neg (Ne.symm hv)]
    rfl
  nobody := by
    rw [h.call, h.owners]
    exact ⟨rfl, fun m => by simp⟩
  depths m v _ _ := by
    rw [h.depth]
  locks m v hv hp := by
    rw [(h.mutex m).1] at hp
    exact absurd hp.symm hv
  saved v e m n hv := by
    rw [h.call] at hv
    cases hv
  releasing v e m hv := by
    rw [h.call] at hv
    cases hv

theorem Inv.mutexOwned (I : Inv s) : MutexOwned s where
  exclusive m := by
    have h := I.free m
    omega
  named m v hv ha := by
    have h := I.owns m v (I.mem_owners hv)
    have hpos := List.count_pos_iff.mpr hv
    by_contra hp
    rw [ha, if_neg hp] at h
    simp at h
    omega
  names m hp := by
    rw [(I.pid_owner hp rfl).1]
    exact List.mem_singleton_self _
  counted m hrec v hv ha := by
    have hv0 := I.mem_owners hv
    have hp : (s.mutex m).pid = v := by
      have h := I.owns m v hv0
      have hpos := List.count_pos_iff.mpr hv
      by_contra hp
      rw [ha, if_neg hp] at h
      simp at h
      omega
    exact (I.locks m v hv0 hp).2.1 hrec
  balanced m hrec v s' ho hp he := (I.unlock ho hp he).2 hrec

end

/-- In every run in which `trylock` and the condition waits find the right number of locks,
a mutex has one owner, whom `pid` names, and `nlocks` counts the owner's locks. -/
theorem mutexes_owned {s : Sys}
    (h : Reach mutexMachine MutexStart (fun s i => i.keepsCount s) s) : MutexOwned s := by
  have I : Inv s := by
    apply Reach.invariant (I := Inv) _ _ h
    · exact fun s hs => hs.inv
    · exact fun s i s' I hv hk he => I.step hv hk he
  exact I.mutexOwned

instance decidableKeepsCount (s : Sys) : ∀ i : Op, Decidable (i.keepsCount s)
  | .trylock _ m =>
    inferInstanceAs (Decidable ((s.mutex m).recursive = true →
      0 < s.sems.semcount (.mutex m) → (s.mutex m).nlocks = 1))
  | .step t =>
    inferInstanceAs (Decidable (∀ c ∈ s.call t, ∀ r ∈ c.setsPid,
      (s.mutex r.1).recursive = true → (s.mutex r.1).nlocks = r.2))
  | .lock _ _ => inferInstanceAs (Decidable True)
  | .unlock _ _ => inferInstanceAs (Decidable True)
  | .condWait _ _ _ _ => inferInstanceAs (Decidable True)
  | .post _ => inferInstanceAs (Decidable True)
  | .waitirq _ => inferInstanceAs (Decidable True)
  | .setpriority _ _ => inferInstanceAs (Decidable True)

/-- Recursive mutexes, none of them locked. -/
def mutexBoot : Sys where
  sems := ⟨fun i => if i matches .mutex _ then 1 else 0, fun _ => none, [], fun _ => 100,
    fun _ => 0, 0⟩
  mutex _ := ⟨0, true, 0⟩
  call _ := none
  owners _ := []
  depth _ _ := 0

theorem mutexBoot_start : MutexStart mutexBoot where
  mutex _ := ⟨rfl, rfl, rfl⟩
  cond _ := rfl
  waitsem := rfl
  waiting := rfl
  call := rfl
  owners := rfl
  depth := rfl

/-- A thread locks twice and waits for a condition; another takes the mutex meanwhile. -/
theorem mutexes_owned_run : ∃ s : Sys, s.owners 5 = [3] ∧ s.sems.gWaitingforsemaphore = [2] ∧
    MutexOwned s := by
  have hr : ((runAll mutexMachine (fun s i => i.keepsCount s) mutexBoot
      [.lock 2 5, .lock 2 5, .lock 3 5, .condWait 2 5 9 false, .step 2, .step 3]).any fun s =>
        decide (s.owners 5 = [3] ∧ s.sems.gWaitingforsemaphore = [2])) = true := by
    decide +kernel
  obtain ⟨s, hs, hd⟩ := (Option.any_eq_true _ _).mp hr
  obtain ⟨h1, h2⟩ := of_decide_eq_true hd
  exact ⟨s, h1, h2, mutexes_owned (Reach.runAll (.init mutexBoot_start) hs)⟩

/-- A thread gets a recursive mutex by `trylock` and locks it again: the first unlock posts. -/
theorem trylock_uncounted : ¬∀ s, Reachable mutexMachine MutexStart s → MutexOwned s := by
  intro hall
  have hr : ((runAll mutexMachine (fun _ _ => True) mutexBoot [.trylock 2 5]).any fun s =>
      decide (s.owners 5 = [2] ∧ s.acquiring 5 2 = false ∧ (s.mutex 5).recursive = true ∧
        (s.mutex 5).nlocks ≠ s.depth 5 2)) = true := by
    decide +kernel
  obtain ⟨s, hs, hd⟩ := (Option.any_eq_true _ _).mp hr
  obtain ⟨h1, h2, h3, h4⟩ := of_decide_eq_true hd
  apply h4
  apply (hall s (Reach.runAll (.init mutexBoot_start) hs)).counted 5 h3 2 _ h2
  rw [h1]
  exact List.mem_singleton_self 2

end NuttxAvr32.Pthread
