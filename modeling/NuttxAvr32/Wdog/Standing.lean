import NuttxAvr32.Wdog.TimerMap

/-! # The watchdogs as a map

Apart from its own record of the starts, a run of the watchdogs is a map from the active ones
to the tick of expiration, the function and its parameters. Each call changes the map at the
one watchdog it names.
-/

namespace NuttxAvr32.Wdog

open Delta Runs
open Function (update update_self update_of_ne update_eq_self_iff)

abbrev Due := Int × Nat × List Nat

def Sys.standing (s : Sys) (w : Nat) : Option Due :=
  if s.wd.active w = true then some (s.expiry (s.cur w), s.wd.func w, s.wd.parm w) else none

/-- The watchdogs are in a state of a run, at this tick, and their map is `f`. -/
def Stand (now : Int) (draining : Bool) (wd : Wdogs) (f : Nat → Option Due) : Prop :=
  ∃ s : Sys, Inv s ∧ s.now = now ∧ s.draining = draining ∧ s.wd = wd ∧ s.standing = f

variable {cfg : Config} {now delay : Int} {draining : Bool} {wd wd' : Wdogs}
  {f : Nat → Option Due} {w wdentry : Nat} {parm : List Nat}

theorem started_stand (cfg : Config) : Stand 0 false (wdInitialize cfg) fun _ => none :=
  ⟨started cfg, started_inv cfg, rfl, rfl, rfl, rfl⟩

theorem Stand.active_iff (h : Stand now draining wd f) (w : Nat) :
    wd.active w = true ↔ f w ≠ none := by
  obtain ⟨s, -, -, -, rfl, rfl⟩ := h
  unfold Sys.standing
  by_cases ha : s.wd.active w = true
  · simp [ha]
  · simp [ha]

theorem Stand.inactive (h : Stand now draining wd f) (hw : w ∈ wd.gWdfreelist) : f w = none := by
  obtain ⟨s, I, -, -, rfl, rfl⟩ := h
  exact if_neg fun ha => I.free w hw ((I.active w).mp ha)

theorem Stand.gettime (h : Stand now draining wd f) (w : Nat) :
    wdGettime w wd = match f w with
      | some d => d.1 - now
      | none => 0 := by
  obtain ⟨s, I, rfl, -, rfl, rfl⟩ := h
  unfold Sys.standing
  by_cases ha : s.wd.active w = true
  · rw [if_pos ha]
    exact I.refines.gettime w ha
  · rw [if_neg ha]
    exact if_neg fun h => ha h.2

theorem Stand.future (h : Stand now draining wd f) {d : Due} (hd : f w = some d) :
    now ≤ d.1 ∧ (draining = false → now < d.1) := by
  obtain ⟨s, I, rfl, rfl, rfl, rfl⟩ := h
  unfold Sys.standing at hd
  by_cases ha : s.wd.active w = true
  · rw [if_pos ha] at hd
    cases hd
    obtain ⟨e, he⟩ := @exists_mem_due _ s.wd.lag s.now _ _ ((I.active w).mp ha)
    have hexp := I.expires _ he
    have hfut := I.future _ he
    dsimp only at hexp hfut
    rw [← hexp]
    exact ⟨hfut.1, hfut.2.2⟩
  · rw [if_neg ha] at hd
    cases hd

theorem standing_update {s s' : Sys} {w : Nat} {d : Option Due}
    (hactive : ∀ x, x ≠ w → s'.wd.active x = s.wd.active x)
    (hfunc : ∀ x, x ≠ w → s'.wd.func x = s.wd.func x)
    (hparm : ∀ x, x ≠ w → s'.wd.parm x = s.wd.parm x)
    (hexpiry : ∀ x, x ≠ w → s.wd.active x = true →
      s'.expiry (s'.cur x) = s.expiry (s.cur x)) (hw : s'.standing w = d) :
    s'.standing = update s.standing w d := by
  funext x
  by_cases hx : x = w
  · rw [hx, update_self, hw]
  · rw [update_of_ne hx]
    unfold Sys.standing
    rw [hactive x hx, hfunc x hx, hparm x hx]
    split
    case isTrue ha => rw [hexpiry x hx ha]
    case isFalse => rfl

theorem stop_fields (s : Sys) (w : Nat) : (s.stop w).now = s.now ∧
    (s.stop w).draining = s.draining ∧ (s.stop w).cur = s.cur ∧ (s.stop w).starts = s.starts ∧
    (s.stop w).next = s.next := by
  unfold Sys.stop
  split <;> exact ⟨rfl, rfl, rfl, rfl, rfl⟩

theorem wdCancel_fields {b : Bool} (h : wdCancel w wd = some (wd', b)) :
    (∀ x, x ≠ w → wd'.active x = wd.active x) ∧ wd'.func = wd.func ∧ wd'.parm = wd.parm := by
  unfold wdCancel at h
  split at h
  · split at h
    · cases h
      exact ⟨fun x hx => update_of_ne hx _ _, rfl, rfl⟩
    · cases h
  · cases h
    exact ⟨fun _ _ => rfl, rfl, rfl⟩

theorem Inv.standing_none {s : Sys} (I : Inv s) (h : w ∉ s.wd.gWdactivelist) :
    s.standing w = none :=
  if_neg fun ha => h ((I.active w).mp ha)

theorem Stand.cancel {b : Bool} (h : Stand now draining wd f)
    (hc : wdCancel w wd = some (wd', b)) : Stand now draining wd' (update f w none) := by
  obtain ⟨s, I, rfl, rfl, rfl, rfl⟩ := h
  obtain ⟨wd1, b1, hc1, I1, hgone, -⟩ := I.cancel w
  rw [hc] at hc1
  cases hc1
  obtain ⟨hactive, hfunc, hparm⟩ := wdCancel_fields hc
  obtain ⟨hnow, hdraining, hcur, hstarts, -⟩ := stop_fields s w
  refine ⟨_, I1, hnow, hdraining, rfl, ?_⟩
  apply standing_update hactive (fun x _ => congrFun hfunc x) (fun x _ => congrFun hparm x)
  · intro x _ _
    unfold Sys.expiry
    dsimp only
    rw [hcur, hstarts]
  · exact I1.standing_none hgone

theorem wdDelete_fields (h : wdDelete w wd = some (.ok wd')) :
    (∀ x, x ≠ w → wd'.active x = wd.active x) ∧ wd'.func = wd.func ∧ wd'.parm = wd.parm ∧
      w ∈ wd'.gWdfreelist := by
  unfold wdDelete at h
  split at h
  · cases h
  · dsimp only at h
    split at h
    · obtain ⟨⟨wd1, b⟩, hc, hok⟩ := Option.bind_eq_some_iff.mp h
      cases hok
      obtain ⟨hactive, hfunc, hparm⟩ := wdCancel_fields hc
      exact ⟨hactive, hfunc, hparm, by simp⟩
    · cases h
      exact ⟨fun _ _ => rfl, rfl, rfl, by simp⟩

theorem Stand.delete (h : Stand now draining wd f) (hfree : w ∉ wd.gWdfreelist)
    (hd : wdDelete w wd = some (.ok wd')) :
    Stand now draining wd' (update f w none) := by
  obtain ⟨s, I, rfl, rfl, rfl, rfl⟩ := h
  obtain ⟨s', he, I'⟩ := @Inv.step ⟨0, 0⟩ s (.delete w) I hfree
  have hexec : Op.exec ⟨0, 0⟩ (.delete w) s = some { s.stop w with wd := wd' } := by
    show (wdDelete w s.wd).bind _ = _
    rw [hd]
    rfl
  rw [hexec] at he
  cases he
  obtain ⟨hactive, hfunc, hparm, hmem⟩ := wdDelete_fields hd
  obtain ⟨hnow, hdraining, hcur, hstarts, -⟩ := stop_fields s w
  refine ⟨_, I', hnow, hdraining, rfl, ?_⟩
  apply standing_update hactive (fun x _ => congrFun hfunc x) (fun x _ => congrFun hparm x)
  · intro x _ _
    unfold Sys.expiry
    dsimp only
    rw [hcur, hstarts]
  · exact I'.standing_none (I'.free w hmem)

theorem wdStart_fields (h : wdStart cfg w delay wdentry parm wd = some (.ok wd')) :
    0 ≤ delay ∧ (∀ x, x ≠ w → wd'.active x = wd.active x) ∧ wd'.active w = true ∧
      wd'.func = update wd.func w wdentry ∧
      wd'.parm = update wd.parm w parm := by
  unfold wdStart at h
  split at h
  · cases h
  · rename_i hok
    have hnonneg : 0 ≤ delay := by omega
    have hself : ∀ wd1, (link w delay wdentry parm wd1).active w = true :=
      fun wd1 => by
        unfold link
        exact update_self w true wd1.active
    dsimp only at h
    split at h
    · obtain ⟨⟨wd1, b⟩, hc, hlink⟩ := Option.bind_eq_some_iff.mp h
      cases hlink
      obtain ⟨hactive, hfunc, hparm⟩ := wdCancel_fields hc
      refine ⟨hnonneg, ?_, hself wd1, ?_, ?_⟩
      · intro x hx
        exact (update_of_ne hx _ _).trans (hactive x hx)
      · exact congrArg (update · w wdentry) hfunc
      · exact congrArg (update · w parm) hparm
    · cases h
      exact ⟨hnonneg, fun x hx => update_of_ne hx _ _, hself wd, rfl, rfl⟩

theorem Stand.start (h : Stand now draining wd f) (hfree : w ∉ wd.gWdfreelist)
    (hmax : delay ≤ intMax) (hs : wdStart cfg w delay wdentry parm wd = some (.ok wd')) :
    Stand now draining wd'
      (update f w (some (now + startDelay delay, wdentry, parm))) := by
  obtain ⟨s, I, rfl, rfl, rfl, rfl⟩ := h
  obtain ⟨s', he, I'⟩ := @Inv.step cfg s (.start w delay wdentry parm) I ⟨hfree, hmax⟩
  have hexec : Op.exec cfg (.start w delay wdentry parm) s =
      some { (s.stop w).begin ⟨w, delay, s.now, wdentry, parm⟩ with wd := wd' } := by
    show (wdStart cfg w delay wdentry parm s.wd).bind _ = _
    rw [hs]
    rfl
  rw [hexec] at he
  cases he
  obtain ⟨hnonneg, hactive, hself, hfunc, hparm⟩ := wdStart_fields hs
  obtain ⟨hnow, hdraining, hcur, hstarts, hnext⟩ := stop_fields s w
  refine ⟨_, I', hnow, hdraining, rfl, ?_⟩
  apply standing_update hactive
  · intro x hx
    exact (congrFun hfunc x).trans (update_of_ne hx _ _)
  · intro x hx
    exact (congrFun hparm x).trans (update_of_ne hx _ _)
  · intro x hx ha
    have hlt := (I.current x ((I.active x).mp ha)).1
    unfold Sys.expiry Sys.begin
    dsimp only
    rw [update_of_ne hx, hcur, hnext, update_of_ne (by omega), hstarts]
  · unfold Sys.standing Sys.expiry Sys.begin
    dsimp only
    rw [if_pos hself, update_self, update_self, hfunc, hparm,
      update_self, update_self, startDelay_eq hnonneg hmax]

theorem Stand.create (h : Stand now draining wd f) : Stand now draining (wdCreate wd).1 f := by
  obtain ⟨s, I, rfl, rfl, rfl, rfl⟩ := h
  refine ⟨{ s with wd := (wdCreate s.wd).1 }, I.create, rfl, rfl, rfl, ?_⟩
  cases hfree : s.wd.gWdfreelist with
  | nil =>
      unfold wdCreate
      rw [hfree]
  | cons w free =>
      have hnot : w ∉ s.wd.gWdactivelist := I.free w (by rw [hfree]; exact List.mem_cons_self)
      have hsame : update s.wd.active w false = s.wd.active := by
        apply update_eq_self_iff.mpr
        exact (Bool.eq_false_iff.mpr fun ha => hnot ((I.active w).mp ha)).symm
      unfold wdCreate
      rw [hfree]
      dsimp only
      rw [hsame]
      rfl

theorem Stand.timer (h : Stand now false wd f) :
    Stand (now + 1) (wdTimer wd).2 (wdTimer wd).1 f := by
  obtain ⟨s, I, rfl, hdraining, rfl, rfl⟩ := h
  obtain ⟨s', he, I'⟩ := @Inv.step ⟨0, 0⟩ s .timer I hdraining
  cases he
  refine ⟨_, I', rfl, rfl, rfl, ?_⟩
  unfold wdTimer
  split <;> rfl

theorem Stand.done (h : Stand now true wd f) (he : (wdExpire wd).2 = none) :
    Stand now false (wdExpire wd).1 f := by
  obtain ⟨s, I, rfl, hdraining, rfl, rfl⟩ := h
  obtain ⟨s', hexec, I'⟩ := @Inv.step ⟨0, 0⟩ s .expire I hdraining
  simp only [Op.exec, he] at hexec
  cases hexec
  refine ⟨_, I', rfl, rfl, rfl, ?_⟩
  unfold wdExpire at he ⊢
  split
  · rfl
  · rename_i x rest hlist
    rw [hlist] at he
    dsimp only at he
    split at he
    · cases he
    · rename_i hlag
      rw [if_neg hlag]
      rfl

theorem wdExpire_fields (he : (wdExpire wd).2 = some w) : w ∈ wd.gWdactivelist ∧
    (wdExpire wd).1.active = update wd.active w false ∧
      (wdExpire wd).1.func = wd.func ∧ (wdExpire wd).1.parm = wd.parm := by
  unfold wdExpire at he ⊢
  split at he
  · cases he
  · rename_i x rest hlist
    dsimp only at he ⊢
    split at he
    · rename_i hlag
      cases he
      rw [if_pos hlag]
      exact ⟨by rw [hlist]; exact List.mem_cons_self, rfl, rfl, rfl⟩
    · cases he

theorem Stand.expire (h : Stand now true wd f) (he : (wdExpire wd).2 = some w) :
    f w = some (now, wd.func w, wd.parm w) ∧
      Stand now true (wdExpire wd).1 (update f w none) := by
  obtain ⟨s, I, rfl, hdraining, rfl, rfl⟩ := h
  obtain ⟨s', hexec, I'⟩ := @Inv.step ⟨0, 0⟩ s .expire I hdraining
  simp only [Op.exec, he] at hexec
  cases hexec
  have hfire := (I'.past ⟨s.cur w, s.now, s.wd.func w, s.wd.parm w⟩ (by simp)).2.2.1
  obtain ⟨hw, hactive, hfunc, hparm⟩ := wdExpire_fields he
  constructor
  · have hnow : s.now = s.expiry (s.cur w) := hfire
    unfold Sys.standing
    rw [if_pos ((I.active w).mpr hw), ← hnow]
  · refine ⟨_, I', rfl, hdraining, rfl, ?_⟩
    apply standing_update
    · intro x hx
      exact (congrFun hactive x).trans (update_of_ne hx _ _)
    · exact fun x _ => congrFun hfunc x
    · exact fun x _ => congrFun hparm x
    · exact fun _ _ _ => rfl
    · refine if_neg ?_
      dsimp only
      rw [hactive, update_self]
      exact Bool.false_ne_true

end NuttxAvr32.Wdog
