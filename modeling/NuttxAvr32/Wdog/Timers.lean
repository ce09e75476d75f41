import NuttxAvr32.Wdog.Wdog
import NuttxAvr32.Lib.Delta

/-! # What the operations do to the expiration times

`timers now s` gives every active watchdog with its absolute tick of expiration.
On this list the operations are plain: an insertion behind all entries that are
due no later, a removal, a removal at the head, and nothing at all for a tick.
-/

namespace NuttxAvr32.Wdog

open Delta
open Function (update update_self update_of_ne)

abbrev timers (now : Int) (s : Wdogs) : List (Nat × Int) := due s.lag now s.gWdactivelist

variable {lag : Nat → Int} {now t delay : Int} {w wdog : Nat} {s : Wdogs} {l : List Nat}

theorem startDelay_eq (h0 : 0 ≤ delay) (h : delay ≤ intMax) :
    startDelay delay = max 1 (min (delay + 1) intMax) := by
  have hmax : intMax = 2147483647 := rfl
  unfold startDelay wrapInt
  by_cases hz : delay ≤ 0
  · rw [if_pos hz]
    omega
  · rw [if_neg hz]
    dsimp only
    by_cases hm : delay = intMax
    · subst hm
      decide
    · rw [Int.bmod_eq_of_le (by omega) (by omega), if_neg (by omega)]
      omega

theorem toPositive_eq {head : Nat} {rest : List Nat} (h : 0 ≤ lag head) :
    toPositive lag [] head 0 rest = ⟨[], head, rest, lag head⟩ := by
  cases rest with
  | nil => simp [toPositive]
  | cons next after =>
    unfold toPositive
    rw [if_neg (by omega)]
    simp

theorem pastShorter_spec {before after : List Nat} {curr : Nat}
    (hnow : now = total lag (before ++ [curr])) (hb : ∀ p ∈ due lag 0 before, p.2 ≤ delay) :
    ∃ c, pastShorter lag delay before curr now after = c ∧
      c.before ++ c.curr :: c.after = before ++ curr :: after ∧
      c.now = total lag (c.before ++ [c.curr]) ∧ (∀ p ∈ due lag 0 c.before, p.2 ≤ delay) ∧
      (c.now ≤ delay → c.after = []) := by
  induction after generalizing before curr now with
  | nil => exact ⟨_, rfl, rfl, hnow, hb, fun _ => rfl⟩
  | cons next after ih =>
    unfold pastShorter
    by_cases hle : now ≤ delay
    · rw [if_pos hle]
      have hnext : now + lag next = total lag ((before ++ [curr]) ++ [next]) := by
        rw [total_append, ← hnow]
        simp
      have hmore : ∀ p ∈ due lag 0 (before ++ [curr]), p.2 ≤ delay := by
        intro p hp
        rw [due_append, List.mem_append] at hp
        rcases hp with hp | hp
        · exact hb p hp
        · rw [due_cons, due_nil, List.mem_singleton] at hp
          rw [total_append, total_cons, total_nil] at hnow
          subst hp
          dsimp only
          omega
      obtain ⟨c, hc, h1, h2⟩ := ih hnext hmore
      exact ⟨c, hc, by rw [h1]; simp, h2⟩
    · rw [if_neg hle]
      exact ⟨_, rfl, rfl, hnow, hb, fun h => absurd h hle⟩

theorem search_spec (hn : l.Nodup) (hw : w ∉ l) (hpos : ∀ p ∈ due lag 0 l, 0 ≤ p.2)
    (now : Int) : ∃ l₁ l₂, l = l₁ ++ l₂ ∧ (search w delay lag l).1 = l₁ ++ w :: l₂ ∧
      due (search w delay lag l).2 now (l₁ ++ w :: l₂) =
        due lag now l₁ ++ (w, now + delay) :: due lag (now + total lag l₁) l₂ ∧
      (∀ p ∈ due lag 0 l₁, p.2 ≤ delay) ∧
      (∀ x ∈ l₂.head?, delay < total lag (l₁ ++ [x])) := by
  cases l with
  | nil =>
    refine ⟨[], [], rfl, rfl, ?_, by simp, by simp⟩
    show due (update lag w delay) now [w] = [(w, now + delay)]
    simp
  | cons head rest =>
    have hhead : 0 ≤ lag head := by simpa using hpos (head, 0 + lag head) (by simp)
    obtain ⟨c, hc, hlist, hnow, hle, hend⟩ :=
      @pastShorter_spec lag (lag head) delay [] rest head (by simp) (by simp)
    have hplace : search w delay lag (head :: rest) = place w delay lag c := by
      show place w delay lag (pastShorter lag delay _ _ _ _) = _
      rw [toPositive_eq hhead, hc]
    rw [hplace]
    rw [List.nil_append] at hlist
    rw [← hlist] at hn hw
    have hcurr : c.now = total lag c.before + lag c.curr := by
      rw [hnow, total_append, total_cons, total_nil]
      omega
    unfold place
    by_cases hlt : delay < c.now
    · rw [if_pos hlt]
      have hwc : c.curr ≠ w := fun h => hw (by simp [h])
      refine ⟨c.before, c.curr :: c.after, hlist.symm, rfl, ?_, hle, ?_⟩
      · have hn' := List.nodup_append.mp hn
        apply due_insert hw hn'.2.1 (fun y hy hy' => hn'.2.2 y hy y hy' rfl)
        · intro y hy
          have hyw : y ≠ w := fun h => hw (by simp [← h, hy])
          have hyc : y ≠ c.curr := fun h => hn'.2.2 y hy y (by simp [h]) rfl
          dsimp only
          rw [update_of_ne hyw, update_of_ne hyc]
        · dsimp only
          rw [update_self, hcurr]
          omega
        · intro y hy
          have hyw : y ≠ w := fun h => hw (by rw [← h]; exact List.mem_append_right _ hy)
          dsimp only
          rw [update_of_ne hyw, update_self, List.head?_cons]
          by_cases hyc : y = c.curr
          · subst hyc
            rw [update_self, if_pos rfl]
          · rw [update_of_ne hyc, if_neg (by simpa using Ne.symm hyc)]
      · intro x hx
        cases hx
        rw [← hnow]
        exact hlt
    · rw [if_neg hlt]
      have hafter := hend (by omega)
      rw [hafter] at hlist hn hw ⊢
      refine ⟨c.before ++ [c.curr], [], by simpa using hlist.symm, by simp, ?_, ?_, by simp⟩
      · have hw' : w ∉ (c.before ++ [c.curr]) ++ [] := by simpa using hw
        apply due_insert hw' List.nodup_nil (by simp)
        · intro y hy
          apply update_of_ne
          rintro rfl
          exact hw hy
        · dsimp only
          rw [update_self, hnow]
          omega
        · simp
      · intro p hp
        rw [due_append, List.mem_append] at hp
        rcases hp with hp | hp
        · exact hle p hp
        · rw [due_cons, due_nil, List.mem_singleton] at hp
          subst hp
          dsimp only
          omega

theorem dropWhile_ne {l₁ l₂ : List Nat} (h : w ∉ l₁) :
    (l₁ ++ w :: l₂).dropWhile (· ≠ w) = w :: l₂ := by
  induction l₁ with
  | nil => simp
  | cons x l₁ ih =>
    have hx : x ≠ w := fun he => h (by simp [he])
    rw [List.cons_append, List.dropWhile_cons_of_pos (by simpa using hx)]
    exact ih fun hm => h (by simp [hm])

theorem unlink_spec {l₁ l₂ : List Nat} (hl : s.gWdactivelist = l₁ ++ w :: l₂)
    (hn : s.gWdactivelist.Nodup) (now : Int) :
    (unlink w s).gWdactivelist = l₁ ++ l₂ ∧
      timers now (unlink w s) =
        due s.lag now l₁ ++ due s.lag (now + total s.lag (l₁ ++ [w])) l₂ := by
  rw [hl] at hn
  obtain ⟨hn₁, hn₂, hdis⟩ := List.nodup_append.mp hn
  have hw := List.nodup_cons.mp hn₂
  have hw₁ : w ∉ l₁ := fun h => hdis w h w (by simp) rfl
  have hlist : (unlink w s).gWdactivelist = l₁ ++ l₂ := by
    show s.gWdactivelist.erase w = _
    rw [hl, List.erase_append_right _ hw₁, List.erase_cons_head]
  refine ⟨hlist, ?_⟩
  unfold timers
  rw [hlist]
  have hskip : (s.gWdactivelist.dropWhile (· ≠ w)).tail = l₂ := by
    rw [hl, dropWhile_ne hw₁, List.tail_cons]
  have hlag : ∀ x ∈ l₂.head?,
      (unlink w s).lag = update s.lag x (s.lag x + s.lag w) := by
    intro x hx
    unfold unlink
    rw [hskip, hx]
  apply due_remove hw.2
  · intro y hy
    cases l₂ with
    | nil =>
      unfold unlink
      rw [hskip]
      rfl
    | cons x l₂ =>
      rw [hlag x rfl]
      apply update_of_ne
      rintro rfl
      exact hdis y hy y (by simp) rfl
  · intro y hy
    cases l₂ with
    | nil => cases hy
    | cons x l₂ =>
      rw [hlag x rfl, List.head?_cons]
      by_cases hyx : y = x
      · subst hyx
        rw [update_self, if_pos rfl]
      · rw [update_of_ne hyx, if_neg (by simpa using Ne.symm hyx)]

theorem timers_tick (hn : s.gWdactivelist.Nodup) : timers (now + 1) (wdTimer s).1 = timers now s := by
  unfold wdTimer timers
  cases hl : s.gWdactivelist with
  | nil => simp [hl]
  | cons head rest =>
    rw [hl] at hn
    have hh := List.nodup_cons.mp hn
    have hrest : ∀ y ∈ rest, update s.lag head (s.lag head - 1) y = s.lag y := by
      intro y hy
      apply update_of_ne
      rintro rfl
      exact hh.1 hy
    dsimp only
    rw [due_cons, due_cons, due_congr hrest, update_self]
    have ht : now + 1 + (s.lag head - 1) = now + s.lag head := by omega
    rw [ht]

theorem wdExpire_spec (hn : s.gWdactivelist.Nodup) :
    (wdExpire s = (s, none) ∧ ∀ p ∈ (timers now s).head?, now < p.2) ∨
      ∃ w rest t, timers now s = (w, t) :: rest ∧ t ≤ now ∧
        (wdExpire s).2 = some w ∧ timers now (wdExpire s).1 = rest ∧
        (wdExpire s).1.gWdactivelist = s.gWdactivelist.tail ∧
        (wdExpire s).1.active = update s.active w false ∧
        (wdExpire s).1.gWdfreelist = s.gWdfreelist ∧
        (wdExpire s).1.func = s.func ∧ (wdExpire s).1.parm = s.parm := by
  unfold timers wdExpire
  cases hl : s.gWdactivelist with
  | nil => exact .inl ⟨rfl, by simp⟩
  | cons wdog rest =>
    dsimp only
    by_cases hle : s.lag wdog ≤ 0
    · rw [if_pos hle]
      refine .inr ⟨wdog, due s.lag (now + s.lag wdog) rest, now + s.lag wdog, rfl, by omega, rfl,
        ?_, rfl, rfl, rfl, rfl, rfl⟩
      rw [hl] at hn
      cases rest with
      | nil => rfl
      | cons next rest =>
        have hnext := List.nodup_cons.mp (List.nodup_cons.mp hn).2
        have hrest : ∀ y ∈ rest,
            update s.lag next (s.lag next + s.lag wdog) y = s.lag y := by
          intro y hy
          apply update_of_ne
          rintro rfl
          exact hnext.1 hy
        dsimp only
        rw [due_cons, due_cons, due_congr hrest, update_self]
        have ht : now + (s.lag next + s.lag wdog) = now + s.lag wdog + s.lag next := by omega
        rw [ht]
    · rw [if_neg hle]
      refine .inl ⟨rfl, ?_⟩
      rintro p ⟨⟩
      dsimp only
      omega

theorem findTime_eq {d : Int} {l₁ l₂ : List Nat} (h : w ∉ l₁) :
    findTime w lag d (l₁ ++ w :: l₂) = d + total lag (l₁ ++ [w]) := by
  induction l₁ generalizing d with
  | nil => simp [findTime]
  | cons x l₁ ih =>
    have hx : x ≠ w := fun he => h (by simp [he])
    rw [List.cons_append, findTime, if_neg hx, ih fun hm => h (by simp [hm])]
    rw [List.cons_append, total_cons]
    omega

end NuttxAvr32.Wdog
