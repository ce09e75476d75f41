import NuttxAvr32.Wdog.Timers
import NuttxAvr32.Lib.Runs

/-! # Runs of the watchdog timers

`wd_start`, `wd_cancel`, `wd_delete` and the ticks of `wd_timer` in any order, also
with calls from inside watchdog functions: a tick opens the loop of `wd_timer`,
every call of a watchdog function is a step of its own, and until the loop ends
other calls may stand between these steps. Beside the code's state the machine
records every successful start with the tick at which it was made, which of them
were stopped, and which have fired, in which order and when.
-/

namespace NuttxAvr32.Wdog

open Delta Runs
open Function (update update_self update_of_ne)

structure Start where
  wdog : Nat
  delay : Int
  tick : Int
  wdentry : Nat
  parm : List Nat

structure Fire where
  start : Nat
  tick : Int
  func : Nat
  parm : List Nat

structure Sys where
  wd : Wdogs
  draining : Bool
  now : Int
  starts : Nat → Start
  next : Nat
  cur : Nat → Nat
  stopped : Nat → Bool
  fired : List Fire

inductive Op
  | create
  | start (wdog : Nat) (delay : Int) (wdentry : Nat) (parm : List Nat)
  | cancel (wdid : Nat)
  | delete (wdId : Nat)
  | timer
  | expire

namespace Sys

def expiry (s : Sys) (n : Nat) : Int :=
  (s.starts n).tick + max 1 (min ((s.starts n).delay + 1) intMax)

/-- Records that the watchdog, if it was active, is active no longer. -/
def stop (w : Nat) (s : Sys) : Sys :=
  if s.wd.active w = true then { s with stopped := update s.stopped (s.cur w) true } else s

def begin (a : Start) (s : Sys) : Sys :=
  { s with
    starts := update s.starts s.next a
    cur := update s.cur a.wdog s.next
    next := s.next + 1 }

end Sys

def Op.exec (cfg : Config) : Op → Sys → Option Sys
  | .create, s => some { s with wd := (wdCreate s.wd).1 }
  | .start wdog delay wdentry parm, s => do
    match ← wdStart cfg wdog delay wdentry parm s.wd with
    | .error _ => some s
    | .ok wd => some { (s.stop wdog).begin ⟨wdog, delay, s.now, wdentry, parm⟩ with wd := wd }
  | .cancel wdid, s => do
    let (wd, _) ← wdCancel wdid s.wd
    some { s.stop wdid with wd := wd }
  | .delete wdId, s => do
    match ← wdDelete wdId s.wd with
    | .error _ => some s
    | .ok wd => some { s.stop wdId with wd := wd }
  | .timer, s =>
    let r := wdTimer s.wd
    some { s with wd := r.1, draining := r.2, now := s.now + 1 }
  | .expire, s =>
    let r := wdExpire s.wd
    match r.2 with
    | none => some { s with wd := r.1, draining := false }
    | some w =>
      some { s with
        wd := r.1
        fired := s.fired ++ [⟨s.cur w, s.now, s.wd.func w, s.wd.parm w⟩] }

/-- A watchdog that was deleted is not used until `wd_create` returns it again. -/
def Op.valid : Op → Sys → Prop
  | .create, _ => True
  | .start wdog delay _ _, s => wdog ∉ s.wd.gWdfreelist ∧ delay ≤ intMax
  | .cancel _, _ => True
  | .delete wdId, s => wdId ∉ s.wd.gWdfreelist
  | .timer, s => s.draining = false
  | .expire, s => s.draining = true

instance (i : Op) (s : Sys) : Decidable (i.valid s) := by
  cases i <;> (unfold Op.valid; infer_instance)

def wdogMachine (cfg : Config) : Machine Sys Op where
  valid s i := i.valid s
  exec s i := i.exec cfg s

instance (cfg : Config) (s : Sys) (i : Op) : Decidable ((wdogMachine cfg).valid s i) :=
  inferInstanceAs (Decidable (i.valid s))

def started (cfg : Config) : Sys where
  wd := wdInitialize cfg
  draining := false
  now := 0
  starts _ := ⟨0, 0, 0, 0, []⟩
  next := 0
  cur _ := 0
  stopped _ := false
  fired := []

/-- Earlier expiration, or the same expiration and the earlier start. -/
def Sys.Before (s : Sys) (m n : Nat) : Prop :=
  s.expiry m < s.expiry n ∨ s.expiry m = s.expiry n ∧ m < n

/-- The starts that have fired, then those that will, in the order of the list. -/
def Sys.order (s : Sys) : List Nat := s.fired.map Fire.start ++ s.wd.gWdactivelist.map s.cur

structure Inv (s : Sys) : Prop where
  nodup : s.wd.gWdactivelist.Nodup
  active : ∀ w, s.wd.active w = true ↔ w ∈ s.wd.gWdactivelist
  nonzero : 0 ∉ s.wd.gWdactivelist
  free : ∀ w ∈ s.wd.gWdfreelist, w ∉ s.wd.gWdactivelist
  expires : ∀ p ∈ timers s.now s.wd, p.2 = s.expiry (s.cur p.1)
  future : ∀ p ∈ timers s.now s.wd,
    s.now ≤ p.2 ∧ p.2 ≤ s.now + intMax ∧ (s.draining = false → s.now < p.2)
  current : ∀ w ∈ s.wd.gWdactivelist, s.cur w < s.next ∧ (s.starts (s.cur w)).wdog = w ∧
    s.stopped (s.cur w) = false ∧ s.wd.func w = (s.starts (s.cur w)).wdentry ∧
    s.wd.parm w = (s.starts (s.cur w)).parm
  latest : ∀ n < s.next, n ≤ s.cur (s.starts n).wdog
  waiting : ∀ n < s.next, s.stopped n = false →
    n ∈ s.fired.map Fire.start ∨
      (s.starts n).wdog ∈ s.wd.gWdactivelist ∧ s.cur (s.starts n).wdog = n
  past : ∀ f ∈ s.fired, f.start < s.next ∧ s.stopped f.start = false ∧
    f.tick = s.expiry f.start ∧ f.tick ≤ s.now ∧
    f.func = (s.starts f.start).wdentry ∧ f.parm = (s.starts f.start).parm
  fresh : ∀ n, s.next ≤ n → s.stopped n = false
  sorted : s.order.Pairwise s.Before

theorem started_inv (cfg : Config) : Inv (started cfg) where
  nodup := List.nodup_nil
  active w := by simp [started, wdInitialize]
  nonzero := by simp [started, wdInitialize]
  free := by simp [started, wdInitialize]
  expires := by simp [started, wdInitialize, timers]
  future := by simp [started, wdInitialize, timers]
  current := by simp [started, wdInitialize]
  latest := by simp [started]
  waiting := by simp [started]
  past := by simp [started]
  fresh := by simp [started]
  sorted := by simp [started, Sys.order, wdInitialize]

theorem Inv.not_fired {s : Sys} (I : Inv s) {w : Nat} (hw : w ∈ s.wd.gWdactivelist) :
    s.cur w ∉ s.fired.map Fire.start := by
  intro h
  have hs := (List.pairwise_append.mp I.sorted).2.2 _ h _ (List.mem_map_of_mem hw)
  unfold Sys.Before at hs
  omega

theorem Inv.unlink {s : Sys} (I : Inv s) {w : Nat} (hw : w ∈ s.wd.gWdactivelist) :
    Inv { s.stop w with wd := unlink w s.wd } := by
  obtain ⟨l₁, l₂, hl⟩ := List.append_of_mem hw
  obtain ⟨hlist, htimers⟩ := unlink_spec hl I.nodup s.now
  have hsub : (l₁ ++ l₂).Sublist s.wd.gWdactivelist := by
    rw [hl]
    simp
  have hn := I.nodup
  rw [hl] at hn
  have hgone : w ∉ l₁ ++ l₂ := (List.nodup_middle.mp hn |> List.nodup_cons.mp).1
  have hall : timers s.now s.wd = due s.wd.lag s.now l₁ ++ (w, s.now + total s.wd.lag (l₁ ++ [w])) ::
      due s.wd.lag (s.now + total s.wd.lag (l₁ ++ [w])) l₂ := by
    unfold timers
    rw [hl, due_append, due_cons, total_append, total_cons, total_nil]
    have ht : s.now + total s.wd.lag l₁ + s.wd.lag w =
        s.now + (total s.wd.lag l₁ + (s.wd.lag w + 0)) := by omega
    rw [ht]
  have hmem : ∀ p ∈ timers s.now (Wdog.unlink w s.wd), p ∈ timers s.now s.wd := by
    intro p hp
    rw [htimers, List.mem_append] at hp
    rw [hall, List.mem_append, List.mem_cons]
    exact hp.imp_right .inr
  have hact := (I.active w).mpr hw
  have hstop : s.stop w = { s with stopped := update s.stopped (s.cur w) true } :=
    if_pos hact
  have hkeep : ∀ u ∈ l₁ ++ l₂, s.cur u ≠ s.cur w := by
    intro u hu he
    apply hgone
    have hwu := (I.current w hw).2.1
    rw [← he, (I.current u (hsub.subset hu)).2.1] at hwu
    rwa [← hwu]
  rw [hstop]
  constructor
  · show (Wdog.unlink w s.wd).gWdactivelist.Nodup
    rw [hlist]
    exact I.nodup.sublist hsub
  · intro u
    show update s.wd.active w false u = true ↔ u ∈ (Wdog.unlink w s.wd).gWdactivelist
    rw [hlist]
    by_cases hu : u = w
    · subst hu
      simpa using hgone
    · rw [update_of_ne hu, I.active, hl]
      simp [hu]
  · show 0 ∉ (Wdog.unlink w s.wd).gWdactivelist
    rw [hlist]
    exact fun h => I.nonzero (hsub.subset h)
  · intro u hu
    show u ∉ (Wdog.unlink w s.wd).gWdactivelist
    rw [hlist]
    exact fun h => I.free u hu (hsub.subset h)
  · exact fun p hp => I.expires p (hmem p hp)
  · exact fun p hp => I.future p (hmem p hp)
  · intro u hu
    have hu' : u ∈ l₁ ++ l₂ := hlist ▸ hu
    obtain ⟨h1, h2, h3, h4⟩ := I.current u (hsub.subset hu')
    refine ⟨h1, h2, ?_, h4⟩
    show update s.stopped (s.cur w) true (s.cur u) = false
    rw [update_of_ne (hkeep u hu')]
    exact h3
  · exact I.latest
  · intro n hn hstopped
    have hne : n ≠ s.cur w := by
      intro he
      subst he
      have ht : update s.stopped (s.cur w) true (s.cur w) = false := hstopped
      rw [update_self] at ht
      cases ht
    have hs : update s.stopped (s.cur w) true n = false := hstopped
    rw [update_of_ne hne] at hs
    apply (I.waiting n hn hs).imp_right
    intro h
    refine ⟨?_, h.2⟩
    show (s.starts n).wdog ∈ (Wdog.unlink w s.wd).gWdactivelist
    rw [hlist]
    have hne' : (s.starts n).wdog ≠ w := fun he => hne (by rw [← h.2, he])
    have hm := h.1
    rw [hl] at hm
    simpa [hne'] using hm
  · intro f hf
    obtain ⟨h1, h2, h3⟩ := I.past f hf
    refine ⟨h1, ?_, h3⟩
    show update s.stopped (s.cur w) true f.start = false
    rw [update_of_ne]
    · exact h2
    · intro he
      apply I.not_fired hw
      rw [← he]
      exact List.mem_map_of_mem hf
  · intro n hn
    show update s.stopped (s.cur w) true n = false
    rw [update_of_ne]
    · exact I.fresh n hn
    · have := (I.current w hw).1
      intro he
      subst he
      have hn' : s.next ≤ s.cur w := hn
      omega
  · apply List.Pairwise.sublist _ I.sorted
    show (_ ++ (Wdog.unlink w s.wd).gWdactivelist.map s.cur).Sublist _
    rw [hlist]
    exact (List.Sublist.refl _).append (hsub.map _)

theorem Inv.cancel {s : Sys} (I : Inv s) (w : Nat) :
    ∃ wd b, wdCancel w s.wd = some (wd, b) ∧ Inv { s.stop w with wd := wd } ∧
      w ∉ wd.gWdactivelist ∧ wd.gWdfreelist = s.wd.gWdfreelist := by
  by_cases hw : w ∈ s.wd.gWdactivelist
  · have hact := (I.active w).mpr hw
    have hne : w ≠ 0 := fun h => I.nonzero (h ▸ hw)
    refine ⟨_, true, ?_, I.unlink hw, ?_, rfl⟩
    · unfold wdCancel
      rw [if_pos ⟨hne, hact⟩, if_pos hw]
    · exact fun h => (I.nodup.mem_erase_iff.mp h).1 rfl
  · have hact : s.wd.active w ≠ true := fun h => hw ((I.active w).mp h)
    refine ⟨s.wd, false, ?_, ?_, hw, rfl⟩
    · unfold wdCancel
      rw [if_neg fun h => hact h.2]
    · have hs : s.stop w = s := if_neg hact
      rw [hs]
      exact I

theorem Inv.begin {s : Sys} (I : Inv s) {w : Nat} {delay : Int} {wdentry : Nat} {parm : List Nat}
    (hw : w ∉ s.wd.gWdactivelist) (h0 : w ≠ 0) (hfree : w ∉ s.wd.gWdfreelist) (hd : 0 ≤ delay)
    (hmax : delay ≤ intMax) :
    Inv { s.begin ⟨w, delay, s.now, wdentry, parm⟩ with wd := link w delay wdentry parm s.wd } := by
  have hint : intMax = 2147483647 := rfl
  have hdelay := startDelay_eq hd hmax
  have hbase : ∀ p ∈ due s.wd.lag 0 s.wd.gWdactivelist, 0 ≤ p.2 := by
    intro p hp
    obtain ⟨l₁, l₂, hl⟩ := List.append_of_mem (mem_of_mem_due (show (p.1, p.2) ∈ _ from hp))
    have h := (I.future _ (mem_due_split hl)).1
    have he := mem_due_unique I.nodup (show (p.1, p.2) ∈ _ from hp) (mem_due_split hl)
    dsimp only at h
    omega
  obtain ⟨l₁, l₂, hl, hlist, hdue, hle, hlt⟩ :=
    @search_spec s.wd.lag (startDelay delay) w s.wd.gWdactivelist I.nodup hw hbase s.now
  rw [hdelay] at hlist hdue hle hlt
  have hlist' : (link w delay wdentry parm s.wd).gWdactivelist = l₁ ++ w :: l₂ := by
    show (search w (startDelay delay) s.wd.lag s.wd.gWdactivelist).1 = _
    rw [hdelay, hlist]
  have htimers : timers s.now (link w delay wdentry parm s.wd) =
      due s.wd.lag s.now l₁ ++ (w, s.now + max 1 (min (delay + 1) intMax)) ::
        due s.wd.lag (s.now + total s.wd.lag l₁) l₂ := by
    unfold timers
    rw [hlist']
    show due (search w (startDelay delay) s.wd.lag s.wd.gWdactivelist).2 _ _ = _
    rw [hdelay, hdue]
  have hall : timers s.now s.wd =
      due s.wd.lag s.now l₁ ++ due s.wd.lag (s.now + total s.wd.lag l₁) l₂ := by
    unfold timers
    rw [hl, due_append]
  have hmem : ∀ u, u ∈ l₁ ++ w :: l₂ ↔ u = w ∨ u ∈ s.wd.gWdactivelist := by
    intro u
    rw [hl]
    simp only [List.mem_append, List.mem_cons]
    tauto
  have hcurne : ∀ u ∈ s.wd.gWdactivelist, u ≠ w := fun u hu he => hw (he ▸ hu)
  have hcur : ∀ u ∈ s.wd.gWdactivelist, update s.cur w s.next u = s.cur u :=
    fun u hu => update_of_ne (hcurne u hu) _ _
  have hstarts : ∀ n < s.next,
      update s.starts s.next ⟨w, delay, s.now, wdentry, parm⟩ n = s.starts n :=
    fun n hn => update_of_ne (by omega) _ _
  have hexp : ∀ n < s.next,
      (s.begin ⟨w, delay, s.now, wdentry, parm⟩).expiry n = s.expiry n := by
    intro n hn
    unfold Sys.expiry Sys.begin
    dsimp only
    rw [hstarts n hn]
  have hnew : (s.begin ⟨w, delay, s.now, wdentry, parm⟩).expiry s.next =
      s.now + max 1 (min (delay + 1) intMax) := by
    unfold Sys.expiry Sys.begin
    dsimp only
    rw [update_self]
  have hold : ∀ p ∈ timers s.now s.wd,
      p.2 = (s.begin ⟨w, delay, s.now, wdentry, parm⟩).expiry (update s.cur w s.next p.1) := by
    intro p hp
    have hpm := mem_of_mem_due (show (p.1, p.2) ∈ _ from hp)
    rw [hcur _ hpm, hexp _ (I.current _ hpm).1]
    exact I.expires p hp
  have hsplit : ∀ p ∈ timers s.now (link w delay wdentry parm s.wd),
      p = (w, s.now + max 1 (min (delay + 1) intMax)) ∨ p ∈ timers s.now s.wd := by
    intro p hp
    rw [htimers, List.mem_append, List.mem_cons] at hp
    rw [hall, List.mem_append]
    tauto
  constructor
  · show (link w delay wdentry parm s.wd).gWdactivelist.Nodup
    rw [hlist', List.nodup_middle, ← hl]
    exact List.nodup_cons.mpr ⟨hw, I.nodup⟩
  · intro u
    show update s.wd.active w true u = true ↔
      u ∈ (link w delay wdentry parm s.wd).gWdactivelist
    rw [hlist', hmem]
    by_cases hu : u = w
    · subst hu
      simp
    · rw [update_of_ne hu, I.active]
      simp [hu]
  · show 0 ∉ (link w delay wdentry parm s.wd).gWdactivelist
    rw [hlist', hmem]
    exact fun h => h.elim (fun h => h0 h.symm) I.nonzero
  · intro u hu
    show u ∉ (link w delay wdentry parm s.wd).gWdactivelist
    rw [hlist', hmem]
    rintro (rfl | h)
    · exact hfree hu
    · exact I.free u hu h
  · intro p hp
    rcases hsplit p hp with rfl | hp
    · show _ = (s.begin _).expiry (update s.cur w s.next w)
      rw [update_self, hnew]
    · exact hold p hp
  · intro p hp
    show s.now ≤ p.2 ∧ p.2 ≤ s.now + intMax ∧ (s.draining = false → s.now < p.2)
    rcases hsplit p hp with rfl | hp
    · dsimp only
      refine ⟨by omega, by omega, fun _ => by omega⟩
    · exact I.future p hp
  · intro u hu
    have hu' : u = w ∨ u ∈ s.wd.gWdactivelist := (hmem u).mp (hlist' ▸ hu)
    show update s.cur w s.next u < s.next + 1 ∧
      (update s.starts s.next _ (update s.cur w s.next u)).wdog = u ∧
      s.stopped (update s.cur w s.next u) = false ∧
      update s.wd.func w wdentry u =
        (update s.starts s.next _ (update s.cur w s.next u)).wdentry ∧
      update s.wd.parm w parm u =
        (update s.starts s.next _ (update s.cur w s.next u)).parm
    rcases hu' with rfl | hu'
    · rw [update_self, update_self, update_self, update_self]
      exact ⟨by omega, rfl, I.fresh _ (Nat.le_refl _), rfl, rfl⟩
    · have hc := I.current u hu'
      rw [hcur u hu', hstarts _ hc.1, update_of_ne (hcurne u hu'),
        update_of_ne (hcurne u hu')]
      exact ⟨by omega, hc.2⟩
  · intro n hn
    show n ≤ update s.cur w s.next (update s.starts s.next _ n).wdog
    have hn' : n < s.next + 1 := hn
    by_cases he : n = s.next
    · subst he
      rw [update_self, update_self]
    · rw [hstarts n (by omega)]
      by_cases hwn : (s.starts n).wdog = w
      · rw [hwn, update_self]
        omega
      · rw [update_of_ne hwn]
        exact I.latest n (by omega)
  · intro n hn hs
    have hn' : n < s.next + 1 := hn
    show n ∈ s.fired.map Fire.start ∨
      (update s.starts s.next _ n).wdog ∈ (link w delay wdentry parm s.wd).gWdactivelist ∧
      update s.cur w s.next (update s.starts s.next _ n).wdog = n
    rw [hlist', hmem]
    by_cases he : n = s.next
    · subst he
      rw [update_self, update_self]
      exact .inr ⟨.inl rfl, rfl⟩
    · rw [hstarts n (by omega)]
      apply (I.waiting n (by omega) hs).imp_right
      intro h
      exact ⟨.inr h.1, (hcur _ h.1).trans h.2⟩
  · intro f hf
    obtain ⟨h1, h2, h3, h4⟩ := I.past f hf
    show f.start < s.next + 1 ∧ s.stopped f.start = false ∧
      f.tick = (s.begin _).expiry f.start ∧ f.tick ≤ s.now ∧
      f.func = (update s.starts s.next _ f.start).wdentry ∧
      f.parm = (update s.starts s.next _ f.start).parm
    rw [hstarts _ h1]
    exact ⟨by omega, h2, h3.trans (hexp _ h1).symm, h4⟩
  · intro n hn
    have hn' : s.next + 1 ≤ n := hn
    exact I.fresh n (by omega)
  · have hbefore : ∀ m < s.next, ∀ n < s.next, s.Before m n →
        (s.begin ⟨w, delay, s.now, wdentry, parm⟩).Before m n := by
      intro m hm n hn h
      unfold Sys.Before
      rw [hexp m hm, hexp n hn]
      exact h
    have hlt₁ : ∀ m < s.next, s.expiry m ≤ s.now + max 1 (min (delay + 1) intMax) →
        (s.begin ⟨w, delay, s.now, wdentry, parm⟩).Before m s.next := by
      intro m hm h
      unfold Sys.Before
      rw [hexp m hm, hnew]
      omega
    have hmaps : ∀ l : List Nat, (∀ u ∈ l, u ∈ s.wd.gWdactivelist) →
        l.map (update s.cur w s.next) = l.map s.cur :=
      fun l h => List.map_congr_left fun u hu => hcur u (h u hu)
    have hsub₁ : ∀ u ∈ l₁, u ∈ s.wd.gWdactivelist := fun u hu => by simp [hl, hu]
    have hsub₂ : ∀ u ∈ l₂, u ∈ s.wd.gWdactivelist := fun u hu => by simp [hl, hu]
    have hS := I.sorted
    unfold Sys.order at hS
    rw [hl, List.map_append] at hS
    show (s.fired.map Fire.start ++ (link w delay wdentry parm s.wd).gWdactivelist.map
      (update s.cur w s.next)).Pairwise (s.begin ⟨w, delay, s.now, wdentry, parm⟩).Before
    rw [hlist', List.map_append, List.map_cons, update_self, hmaps l₁ hsub₁,
      hmaps l₂ hsub₂]
    have hvalid : ∀ m ∈ s.fired.map Fire.start ++ (l₁.map s.cur ++ l₂.map s.cur), m < s.next := by
      intro m hm
      rw [List.mem_append, List.mem_append, List.mem_map, List.mem_map, List.mem_map] at hm
      rcases hm with ⟨f, hf, rfl⟩ | ⟨u, hu, rfl⟩ | ⟨u, hu, rfl⟩
      · exact (I.past f hf).1
      · exact (I.current u (hsub₁ u hu)).1
      · exact (I.current u (hsub₂ u hu)).1
    have hS' : (s.fired.map Fire.start ++ (l₁.map s.cur ++ l₂.map s.cur)).Pairwise
        (s.begin ⟨w, delay, s.now, wdentry, parm⟩).Before :=
      hS.imp_of_mem fun hm hn h => hbefore _ (hvalid _ hm) _ (hvalid _ hn) h
    rw [← List.append_assoc] at hS' hvalid ⊢
    obtain ⟨hA, hB, hAB⟩ := List.pairwise_append.mp hS'
    refine List.pairwise_append.mpr ⟨hA, List.pairwise_cons.mpr ⟨?_, hB⟩, ?_⟩
    · intro n hn
      obtain ⟨u, hu, rfl⟩ := List.mem_map.mp hn
      obtain ⟨a, b, hab⟩ := List.append_of_mem hu
      left
      rw [hnew, hexp _ (I.current u (hsub₂ u hu)).1]
      cases l₂ with
      | nil => cases hu
      | cons x l₂ =>
        have hx := hlt x rfl
        have hxe := I.expires (x, s.now + total s.wd.lag (l₁ ++ [x])) (mem_due_split hl)
        have hxn : max 1 (min (delay + 1) intMax) + s.now < s.expiry (s.cur x) := by
          rw [← hxe]
          dsimp only
          omega
        rcases List.mem_cons.mp hu with rfl | hu'
        · omega
        · have hxu : s.Before (s.cur x) (s.cur u) := by
            have h2 := (List.pairwise_append.mp (List.pairwise_append.mp hS).2.1).2.1
            rw [List.map_cons] at h2
            exact (List.pairwise_cons.mp h2).1 _ (List.mem_map_of_mem hu')
          unfold Sys.Before at hxu
          omega
    · intro m hm n hn
      rcases List.mem_cons.mp hn with rfl | hn
      · apply hlt₁ m (hvalid m (List.mem_append_left _ hm))
        rw [List.mem_append, List.mem_map, List.mem_map] at hm
        rcases hm with ⟨f, hf, rfl⟩ | ⟨u, hu, rfl⟩
        · have hf' := I.past f hf
          omega
        · obtain ⟨t, ht⟩ := @exists_mem_due _ s.wd.lag s.now _ _ hu
          have ht' : (u, t) ∈ timers s.now s.wd := by
            rw [hall]
            exact List.mem_append_left _ ht
          have h1 := I.expires _ ht'
          obtain ⟨a, b, hab⟩ := List.append_of_mem hu
          have h2 := hle _ (mem_due_split hab)
          have h3 := mem_due_unique (I.nodup.sublist (by rw [hl]; simp)) ht (mem_due_split hab)
          dsimp only at h1 h2
          omega
      · exact hAB m hm n hn

theorem Inv.timer {s : Sys} (I : Inv s) (hd : s.draining = false) :
    Inv { s with wd := (wdTimer s.wd).1, draining := (wdTimer s.wd).2, now := s.now + 1 } := by
  have htimers := @timers_tick s.now _ I.nodup
  have hwd : (wdTimer s.wd).1.gWdactivelist = s.wd.gWdactivelist ∧
      (wdTimer s.wd).1.active = s.wd.active ∧ (wdTimer s.wd).1.gWdfreelist = s.wd.gWdfreelist ∧
      (wdTimer s.wd).1.func = s.wd.func ∧ (wdTimer s.wd).1.parm = s.wd.parm := by
    unfold wdTimer
    split <;> exact ⟨rfl, rfl, rfl, rfl, rfl⟩
  obtain ⟨hlist, hactive, hfree, hfunc, hparm⟩ := hwd
  -- the loop is entered when the first entry is due
  have hdrain : (wdTimer s.wd).2 = false → ∀ p ∈ timers s.now s.wd, s.now + 1 < p.2 := by
    intro hdf p hp
    have hpm := mem_of_mem_due (show (p.1, p.2) ∈ _ from hp)
    unfold wdTimer at hdf
    cases hl : s.wd.gWdactivelist with
    | nil =>
      rw [hl] at hpm
      cases hpm
    | cons head rest =>
      rw [hl] at hdf
      dsimp only at hdf
      have hlag := of_decide_eq_false hdf
      rw [update_self] at hlag
      have hp' : p ∈ Delta.due s.wd.lag s.now (head :: rest) := hl ▸ hp
      have hhead : (head, s.now + s.wd.lag head) ∈ timers s.now s.wd := by
        unfold timers
        rw [hl]
        simp
      rw [due_cons, List.mem_cons] at hp'
      rcases hp' with rfl | hp'
      · dsimp only
        omega
      · have hS := (List.pairwise_append.mp I.sorted).2.1
        have hpr : p.1 ∈ rest := mem_of_mem_due (show (p.1, p.2) ∈ _ from hp')
        rw [hl, List.map_cons] at hS
        have hb := (List.pairwise_cons.mp hS).1 _ (List.mem_map_of_mem hpr)
        have h1 := I.expires _ hhead
        have h2 := I.expires _ hp
        unfold Sys.Before at hb
        dsimp only at h1
        omega
  constructor
  · show (wdTimer s.wd).1.gWdactivelist.Nodup
    rw [hlist]
    exact I.nodup
  · intro w
    show (wdTimer s.wd).1.active w = true ↔ w ∈ (wdTimer s.wd).1.gWdactivelist
    rw [hlist, hactive]
    exact I.active w
  · show 0 ∉ (wdTimer s.wd).1.gWdactivelist
    rw [hlist]
    exact I.nonzero
  · intro w hw
    have hw' : w ∈ (wdTimer s.wd).1.gWdfreelist := hw
    show w ∉ (wdTimer s.wd).1.gWdactivelist
    rw [hfree] at hw'
    rw [hlist]
    exact I.free w hw'
  · intro p hp
    have hp' : p ∈ timers (s.now + 1) (wdTimer s.wd).1 := hp
    rw [htimers] at hp'
    exact I.expires p hp'
  · intro p hp
    have hp' : p ∈ timers (s.now + 1) (wdTimer s.wd).1 := hp
    rw [htimers] at hp'
    obtain ⟨h1, h2, h3⟩ := I.future p hp'
    have h4 := h3 hd
    show s.now + 1 ≤ p.2 ∧ p.2 ≤ s.now + 1 + intMax ∧ _
    exact ⟨by omega, by omega, fun h => hdrain h p hp'⟩
  · intro w hw
    have hw' : w ∈ s.wd.gWdactivelist := hlist ▸ hw
    show _ ∧ _ ∧ _ ∧ (wdTimer s.wd).1.func w = _ ∧ (wdTimer s.wd).1.parm w = _
    rw [hfunc, hparm]
    exact I.current w hw'
  · exact I.latest
  · intro n hn hs
    show _ ∨ (s.starts n).wdog ∈ (wdTimer s.wd).1.gWdactivelist ∧ _
    rw [hlist]
    exact I.waiting n hn hs
  · intro f hf
    obtain ⟨h1, h2, h3, h4, h5⟩ := I.past f hf
    refine ⟨h1, h2, h3, ?_, h5⟩
    show f.tick ≤ s.now + 1
    omega
  · exact I.fresh
  · show (_ ++ (wdTimer s.wd).1.gWdactivelist.map s.cur).Pairwise _
    rw [hlist]
    exact I.sorted

theorem Inv.expire (cfg : Config) {s s' : Sys} (I : Inv s) (h : Op.expire.exec cfg s = some s') :
    Inv s' := by
  rcases @wdExpire_spec s.now _ I.nodup with ⟨hend, hfirst⟩ | ⟨w, rest, t, ht, hle, hsome, hrest,
    hlist, hactive, hfree, hfunc, hparm⟩
  · have he : Op.expire.exec cfg s = some { s with draining := false } := by
      show (match (wdExpire s.wd).2 with | none => _ | some w => _) = _
      rw [hend]
    cases he.symm.trans h
    refine { I with future := fun p hp => ?_ }
    have hp' : p ∈ timers s.now s.wd := hp
    obtain ⟨h1, h2, -⟩ := I.future p hp'
    refine ⟨h1, h2, fun _ => ?_⟩
    show s.now < p.2
    -- all entries lie behind the first one
    cases hl : s.wd.gWdactivelist with
    | nil =>
      have hpm := mem_of_mem_due (show (p.1, p.2) ∈ _ from hp')
      rw [hl] at hpm
      cases hpm
    | cons head l =>
      have hhead : (head, s.now + s.wd.lag head) ∈ timers s.now s.wd := by
        unfold timers
        rw [hl]
        simp
      have hf : s.now < s.now + s.wd.lag head := by
        apply hfirst (head, _)
        unfold timers
        rw [hl]
        rfl
      have hp'' : p ∈ Delta.due s.wd.lag s.now (head :: l) := hl ▸ hp'
      rw [due_cons, List.mem_cons] at hp''
      rcases hp'' with rfl | hp''
      · exact hf
      · have hS := (List.pairwise_append.mp I.sorted).2.1
        have hpr : p.1 ∈ l := mem_of_mem_due (show (p.1, p.2) ∈ _ from hp'')
        rw [hl, List.map_cons] at hS
        have hb := (List.pairwise_cons.mp hS).1 _ (List.mem_map_of_mem hpr)
        have h3 := I.expires _ hhead
        have h4 := I.expires _ hp'
        unfold Sys.Before at hb
        dsimp only at h3
        omega
  · have he : Op.expire.exec cfg s = some { s with
        wd := (wdExpire s.wd).1
        fired := s.fired ++ [⟨s.cur w, s.now, s.wd.func w, s.wd.parm w⟩] } := by
      show (match (wdExpire s.wd).2 with | none => _ | some w => _) = _
      rw [hsome]
    cases he.symm.trans h
    have hwlist : s.wd.gWdactivelist = w :: s.wd.gWdactivelist.tail := by
      have hm : (timers s.now s.wd).map Prod.fst = w :: rest.map Prod.fst := by rw [ht]; rfl
      rw [map_fst_due] at hm
      rw [hm]
      rfl
    have hw : w ∈ s.wd.gWdactivelist := by
      rw [hwlist]
      exact List.mem_cons_self
    have hn := I.nodup
    rw [hwlist] at hn
    have hgone := (List.nodup_cons.mp hn).1
    have hsub : ∀ u ∈ s.wd.gWdactivelist.tail, u ∈ s.wd.gWdactivelist :=
      fun u hu => List.mem_of_mem_tail hu
    have hwt : (w, t) ∈ timers s.now s.wd := by
      rw [ht]
      exact List.mem_cons_self
    have hexp := I.expires _ hwt
    have hnow := (I.future _ hwt).1
    have hcur := I.current w hw
    have hmem : ∀ p ∈ timers s.now (wdExpire s.wd).1, p ∈ timers s.now s.wd := by
      intro p hp
      rw [hrest] at hp
      rw [ht]
      exact List.mem_cons_of_mem _ hp
    constructor
    · show (wdExpire s.wd).1.gWdactivelist.Nodup
      rw [hlist]
      exact (List.nodup_cons.mp hn).2
    · intro u
      show (wdExpire s.wd).1.active u = true ↔ u ∈ (wdExpire s.wd).1.gWdactivelist
      rw [hlist, hactive]
      by_cases hu : u = w
      · subst hu
        simpa using hgone
      · rw [update_of_ne hu, I.active, hwlist]
        simp [hu]
    · show 0 ∉ (wdExpire s.wd).1.gWdactivelist
      rw [hlist]
      exact fun h => I.nonzero (hsub _ h)
    · intro u hu
      have hu' : u ∈ (wdExpire s.wd).1.gWdfreelist := hu
      rw [hfree] at hu'
      show u ∉ (wdExpire s.wd).1.gWdactivelist
      rw [hlist]
      exact fun h => I.free u hu' (hsub _ h)
    · exact fun p hp => I.expires p (hmem p hp)
    · exact fun p hp => I.future p (hmem p hp)
    · intro u hu
      have hu' : u ∈ s.wd.gWdactivelist.tail := hlist ▸ hu
      show _ ∧ _ ∧ _ ∧ (wdExpire s.wd).1.func u = _ ∧ (wdExpire s.wd).1.parm u = _
      rw [hfunc, hparm]
      exact I.current u (hsub u hu')
    · exact I.latest
    · intro n hn' hs
      show n ∈ (s.fired ++ _).map Fire.start ∨ (s.starts n).wdog ∈ (wdExpire s.wd).1.gWdactivelist ∧ _
      rw [hlist, List.map_append, List.mem_append]
      rcases I.waiting n hn' hs with h | ⟨h, hc⟩
      · exact .inl (.inl h)
      · rw [hwlist, List.mem_cons] at h
        rcases h with h | h
        · left
          right
          rw [← hc, h]
          exact List.mem_singleton_self _
        · exact .inr ⟨h, hc⟩
    · intro f hf
      rcases List.mem_append.mp hf with hf | hf
      · exact I.past f hf
      · rw [List.mem_singleton] at hf
        subst hf
        refine ⟨hcur.1, hcur.2.2.1, ?_, Int.le_refl _, hcur.2.2.2.1, hcur.2.2.2.2⟩
        show s.now = s.expiry (s.cur w)
        dsimp only at hexp hnow
        omega
    · exact I.fresh
    · have hS := I.sorted
      unfold Sys.order at hS ⊢
      rw [hwlist, List.map_cons] at hS
      show ((s.fired ++ _).map Fire.start ++ (wdExpire s.wd).1.gWdactivelist.map s.cur).Pairwise _
      rw [hlist, List.map_append, List.append_assoc]
      exact hS

theorem Inv.create {s : Sys} (I : Inv s) : Inv { s with wd := (wdCreate s.wd).1 } := by
  unfold wdCreate
  cases hl : s.wd.gWdfreelist with
  | nil => exact I
  | cons w free =>
    have hw : w ∉ s.wd.gWdactivelist := I.free w (by rw [hl]; exact List.mem_cons_self)
    refine { I with active := fun u => ?_, free := fun u hu => I.free u ?_ }
    · show update s.wd.active w false u = true ↔ u ∈ s.wd.gWdactivelist
      by_cases hu : u = w
      · subst hu
        simpa using hw
      · rw [update_of_ne hu]
        exact I.active u
    · rw [hl]
      exact List.mem_cons_of_mem _ hu

theorem Sys.stop_wd (w : Nat) (s : Sys) (wd : Wdogs) :
    { s.stop w with wd := wd }.now = s.now ∧ { s.stop w with wd := wd }.next = s.next := by
  unfold Sys.stop
  split <;> exact ⟨rfl, rfl⟩

theorem Inv.step {cfg : Config} {s : Sys} {i : Op} (I : Inv s) (hv : i.valid s) :
    ∃ s', i.exec cfg s = some s' ∧ Inv s' := by
  cases i with
  | create => exact ⟨_, rfl, I.create⟩
  | cancel wdid =>
    obtain ⟨wd, b, hc, hi, -⟩ := I.cancel wdid
    refine ⟨_, ?_, hi⟩
    show (wdCancel wdid s.wd).bind _ = _
    rw [hc]
    rfl
  | delete wdId =>
    by_cases h0 : wdId = 0
    · refine ⟨s, ?_, I⟩
      show (wdDelete wdId s.wd).bind _ = _
      unfold wdDelete
      rw [if_pos h0]
      rfl
    · obtain ⟨wd, b, hc, hi, hgone, hfree⟩ := I.cancel wdId
      have hdel : wdDelete wdId s.wd =
          some (.ok { wd with gWdfreelist := wd.gWdfreelist ++ [wdId] }) := by
        unfold wdDelete
        rw [if_neg h0]
        by_cases ha : s.wd.active wdId = true
        · rw [if_pos ha, hc]
          rfl
        · have hsame : wd = s.wd := by
            unfold wdCancel at hc
            rw [if_neg fun h => ha h.2] at hc
            cases hc
            rfl
          rw [if_neg ha, hsame]
          rfl
      refine ⟨{ s.stop wdId with wd := { wd with gWdfreelist := wd.gWdfreelist ++ [wdId] } }, ?_,
        { hi with free := fun u hu => ?_ }⟩
      · show (wdDelete wdId s.wd).bind _ = _
        rw [hdel]
        rfl
      · rcases List.mem_append.mp hu with hu | hu
        · exact hi.free u hu
        · rw [List.mem_singleton.mp hu]
          exact hgone
  | start wdog delay wdentry parm =>
    by_cases herr : wdog = 0 ∨ cfg.maxWdogparms < parm.length ∨ delay < 0
    · refine ⟨s, ?_, I⟩
      show (wdStart cfg wdog delay wdentry parm s.wd).bind _ = _
      unfold wdStart
      rw [if_pos herr]
      rfl
    · obtain ⟨wd, b, hc, hi, hgone, hfree⟩ := I.cancel wdog
      have hst : wdStart cfg wdog delay wdentry parm s.wd =
          some (.ok (link wdog delay wdentry parm wd)) := by
        unfold wdStart
        rw [if_neg herr]
        by_cases ha : s.wd.active wdog = true
        · rw [if_pos ha, hc]
          rfl
        · have hsame : wd = s.wd := by
            unfold wdCancel at hc
            rw [if_neg fun h => ha h.2] at hc
            cases hc
            rfl
          rw [if_neg ha, hsame]
          rfl
      have hnow := Sys.stop_wd wdog s wd
      have hb := @Inv.begin _ hi _ _ wdentry parm hgone (by tauto)
        (by rw [hfree]; exact hv.1) (by omega) hv.2
      rw [hnow.1] at hb
      refine ⟨_, ?_, hb⟩
      show (wdStart cfg wdog delay wdentry parm s.wd).bind _ = _
      rw [hst]
      rfl
  | timer => exact ⟨_, rfl, I.timer hv⟩
  | expire =>
    cases h : Op.expire.exec cfg s with
    | none =>
      have hne : Op.expire.exec cfg s ≠ none := by
        show (match (wdExpire s.wd).2 with | none => _ | some w => _) ≠ none
        split <;> simp
      exact absurd h hne
    | some s' => exact ⟨s', rfl, I.expire cfg h⟩

structure RefinesTimerMap (s : Sys) : Prop where
  listed : s.wd.gWdactivelist.Nodup ∧ ∀ w, s.wd.active w = true ↔ w ∈ s.wd.gWdactivelist
  lags : ∀ l₁ w l₂, s.wd.gWdactivelist = l₁ ++ w :: l₂ →
    total s.wd.lag (l₁ ++ [w]) = s.expiry (s.cur w) - s.now
  gettime : ∀ w, s.wd.active w = true → wdGettime w s.wd = s.expiry (s.cur w) - s.now
  latest : ∀ w, s.wd.active w = true → s.cur w < s.next ∧ (s.starts (s.cur w)).wdog = w ∧
    s.stopped (s.cur w) = false ∧ ∀ n < s.next, (s.starts n).wdog = w → n ≤ s.cur w
  onTick : ∀ f ∈ s.fired, f.start < s.next ∧ s.stopped f.start = false ∧
    f.tick = s.expiry f.start ∧ f.func = (s.starts f.start).wdentry ∧
    f.parm = (s.starts f.start).parm
  once : (s.fired.map Fire.start).Nodup
  never_missed : ∀ n < s.next, s.stopped n = false →
    n ∈ s.fired.map Fire.start ∨
      s.wd.active (s.starts n).wdog = true ∧ s.cur (s.starts n).wdog = n ∧ s.now ≤ s.expiry n ∧
        (s.draining = false → s.now < s.expiry n)
  never_both : ∀ w, s.wd.active w = true → s.cur w ∉ s.fired.map Fire.start
  startOrder : (s.fired.map Fire.start).Pairwise s.Before

theorem Inv.refines {s : Sys} (I : Inv s) : RefinesTimerMap s := by
  have hlags : ∀ l₁ w l₂, s.wd.gWdactivelist = l₁ ++ w :: l₂ →
      total s.wd.lag (l₁ ++ [w]) = s.expiry (s.cur w) - s.now := by
    intro l₁ w l₂ hl
    have h := I.expires _ (mem_due_split hl)
    dsimp only at h
    omega
  have hfirst := (List.pairwise_append.mp I.sorted).1
  constructor
  · exact ⟨I.nodup, I.active⟩
  · exact hlags
  · intro w ha
    have hw := (I.active w).mp ha
    obtain ⟨l₁, l₂, hl⟩ := List.append_of_mem hw
    have hn := I.nodup
    rw [hl] at hn
    have hw₁ : w ∉ l₁ := fun h => (List.nodup_append.mp hn).2.2 w h w (by simp) rfl
    unfold wdGettime
    rw [if_pos ⟨fun h => I.nonzero (h ▸ hw), ha⟩, hl, findTime_eq hw₁, hlags l₁ w l₂ hl]
    omega
  · intro w ha
    obtain ⟨h1, h2, h3, -⟩ := I.current w ((I.active w).mp ha)
    refine ⟨h1, h2, h3, fun n hn hw => ?_⟩
    rw [← hw]
    exact I.latest n hn
  · intro f hf
    obtain ⟨h1, h2, h3, -, h4⟩ := I.past f hf
    exact ⟨h1, h2, h3, h4⟩
  · apply hfirst.imp
    intro m n h he
    unfold Sys.Before at h
    subst he
    omega
  · intro n hn hs
    apply (I.waiting n hn hs).imp_right
    intro h
    obtain ⟨t, ht⟩ := @exists_mem_due _ s.wd.lag s.now _ _ h.1
    have he := I.expires _ ht
    have hf := I.future _ ht
    dsimp only at he hf
    rw [h.2] at he
    rw [he] at hf
    exact ⟨(I.active _).mpr h.1, h.2, hf.1, hf.2.2⟩
  · exact fun w ha => I.not_fired ((I.active w).mp ha)
  · exact hfirst

/-- In every run the delta list is the map of absolute expiration times: each start
that is not stopped fires exactly once, on its tick, equal expirations in the order
of their starts, and no call changes the tick of another watchdog. -/
theorem watchdogs_refine {cfg : Config} {s : Sys}
    (h : Reachable (wdogMachine cfg) (· = started cfg) s) :
    RefinesTimerMap s ∧ ∀ i : Op, i.valid s → ∃ s', i.exec cfg s = some s' := by
  have hi : Inv s := by
    apply Reach.invariant (I := Inv) _ _ h
    · intro s hs
      rw [hs]
      exact started_inv cfg
    · intro s i s' I hv _ he
      obtain ⟨t, ht, hI⟩ := @Inv.step cfg _ _ I hv
      have hst : some t = some s' := ht.symm.trans he
      cases hst
      exact hI
  refine ⟨hi.refines, fun i hv => ?_⟩
  obtain ⟨s', he, -⟩ := @Inv.step cfg _ _ hi hv
  exact ⟨s', he⟩

/-- Two watchdogs, of which the first fires and starts the other one anew from its function. -/
theorem watchdogs_refine_run :
    ∃ s, s.fired.map (fun f => (f.start, f.tick)) = [(1, 2), (2, 3), (3, 4)] ∧ RefinesTimerMap s := by
  have h : ((runAll (wdogMachine ⟨2, 4⟩) (fun _ _ => True) (started ⟨2, 4⟩)
      [.create, .create, .start 1 9 7 [], .start 2 1 8 [5], .timer, .timer, .expire,
        .start 1 0 7 [], .start 2 1 8 [], .expire, .timer, .expire, .expire, .timer,
        .expire]).any fun s => decide
          (s.fired.map (fun f => (f.start, f.tick)) = [(1, 2), (2, 3), (3, 4)])) = true := by
    decide +kernel
  obtain ⟨s, hs, hf⟩ := (Option.any_eq_true _ _).mp h
  exact ⟨s, of_decide_eq_true hf, (watchdogs_refine (Reach.runAll (.init rfl) hs)).1⟩

end NuttxAvr32.Wdog
