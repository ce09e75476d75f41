import NuttxAvr32.Lib.Overlay

/-! # The FIFOs of a CAN device

`struct can_fifo_s` with its messages as bytes. A slot has ten bytes, and a message that is
longer runs into the next slot.
-/

namespace NuttxAvr32.Can

open Overlay

def canMsglen (byte : UInt8) : Nat := 2 + (byte &&& 15).toNat

/-- A message whose length is what its header says, and that fits a slot. -/
def IsMsg (m : List UInt8) : Prop := m.length = canMsglen (m.getD 1 0) ∧ m.length ≤ 10

instance decidableIsMsg (m : List UInt8) : Decidable (IsMsg m) :=
  inferInstanceAs (Decidable (_ ∧ _))

theorem two_le_canMsglen (byte : UInt8) : 2 ≤ canMsglen byte := Nat.le_add_right 2 _

structure Fifo where
  cfHead : Nat
  cfTail : Nat
  cfSem : Int
  cfBuffer : Nat → UInt8

def next (fifosize i : Nat) : Nat := if fifosize ≤ i + 1 then 0 else i + 1

def slot (fifosize head i : Nat) : Nat :=
  if head + i < fifosize then head + i else head + i - fifosize

namespace Fifo

def msg (f : Fifo) (i : Nat) : List UInt8 :=
  window f.cfBuffer (10 * i) (canMsglen (f.cfBuffer (10 * i + 1)))

def count (fifosize : Nat) (f : Fifo) : Nat :=
  if f.cfHead ≤ f.cfTail then f.cfTail - f.cfHead else f.cfTail + fifosize - f.cfHead

def queue (fifosize : Nat) (f : Fifo) : List (List UInt8) :=
  (List.range (f.count fifosize)).map fun i => f.msg (slot fifosize f.cfHead i)

def store (nexttail : Nat) (m : List UInt8) (f : Fifo) : Fifo :=
  { f with
    cfBuffer := overlay (10 * f.cfTail) m f.cfBuffer
    cfTail := nexttail }

def pop (fifosize : Nat) (f : Fifo) : Fifo := { f with cfHead := next fifosize f.cfHead }

def reset (f : Fifo) : Fifo :=
  { f with
    cfHead := 0
    cfTail := 0 }

structure Wf (fifosize : Nat) (f : Fifo) : Prop where
  head : f.cfHead < fifosize
  tail : f.cfTail < fifosize

variable {fifosize : Nat} {f : Fifo}

theorem count_lt (W : f.Wf fifosize) : f.count fifosize < fifosize := by
  have h1 := W.head
  have h2 := W.tail
  unfold count
  split
  · omega
  · omega

@[simp] theorem length_queue : (f.queue fifosize).length = f.count fifosize := by
  simp [queue]

theorem queue_eq_nil (W : f.Wf fifosize) : f.queue fifosize = [] ↔ f.cfHead = f.cfTail := by
  have h1 := W.head
  have h2 := W.tail
  rw [← List.length_eq_zero_iff, length_queue, count]
  split
  · omega
  · omega

theorem next_lt (h : 0 < fifosize) (i : Nat) : next fifosize i < fifosize := by
  unfold next
  split
  · exact h
  · omega

theorem next_tail_eq (W : f.Wf fifosize) :
    next fifosize f.cfTail = f.cfHead ↔ f.count fifosize + 1 = fifosize := by
  have h1 := W.head
  have h2 := W.tail
  unfold next count
  split
  · split
    · omega
    · omega
  · split
    · omega
    · omega

theorem queue_pop (W : f.Wf fifosize) (h : f.cfHead ≠ f.cfTail) :
    f.queue fifosize = f.msg f.cfHead :: (f.pop fifosize).queue fifosize := by
  have h1 := W.head
  have h2 := W.tail
  have hc : f.count fifosize = (f.pop fifosize).count fifosize + 1 := by
    simp only [count, pop, next]
    split_ifs
    all_goals omega
  have hs0 : slot fifosize f.cfHead 0 = f.cfHead := by simp [slot, h1]
  have hs : ∀ i, i < (f.pop fifosize).count fifosize →
      slot fifosize f.cfHead (i + 1) = slot fifosize (next fifosize f.cfHead) i := by
    intro i hi
    have hl := count_lt W
    simp only [slot, next]
    split_ifs
    all_goals omega
  rw [queue, hc, List.range_succ_eq_map, List.map_cons, hs0, List.map_map, queue]
  congr 1
  apply List.map_congr_left
  intro i hi
  simp only [Function.comp_apply, Nat.succ_eq_add_one, hs i (List.mem_range.mp hi), pop, msg]

@[simp] theorem length_msg (i : Nat) :
    (f.msg i).length = canMsglen (f.cfBuffer (10 * i + 1)) := length_window

theorem msg_store_of_ne {nexttail i : Nat} {m : List UInt8} (hm : m.length ≤ 10)
    (hi : i ≠ f.cfTail) (hl : (f.msg i).length ≤ 10) :
    (f.store nexttail m).msg i = f.msg i := by
  have hb : ∀ k, k < 10 → (f.store nexttail m).cfBuffer (10 * i + k) = f.cfBuffer (10 * i + k) :=
    fun k hk => overlay_of_outside (by omega)
  rw [length_msg] at hl
  simp only [msg, hb 1 (by omega), window]
  apply List.map_congr_left
  intro k hk
  rw [List.mem_range] at hk
  exact hb k (by omega)

theorem msg_store_tail {nexttail : Nat} {m : List UInt8} (hm : IsMsg m) :
    (f.store nexttail m).msg f.cfTail = m := by
  have h2 := two_le_canMsglen (m.getD 1 0)
  have h1 : 1 < m.length := by
    rw [hm.1]
    omega
  have hb : (f.store nexttail m).cfBuffer (10 * f.cfTail + 1) = m.getD 1 0 := by
    have hg : m.getD 1 0 = m[1] := by simp [h1]
    rw [hg]
    exact overlay_of_mem h1
  rw [msg, hb, ← hm.1]
  exact window_overlay rfl

theorem queue_store (W : f.Wf fifosize) (hroom : next fifosize f.cfTail ≠ f.cfHead)
    (hq : ∀ m ∈ f.queue fifosize, m.length ≤ 10) {m : List UInt8} (hm : IsMsg m) :
    (f.store (next fifosize f.cfTail) m).queue fifosize = f.queue fifosize ++ [m] := by
  have h1 := W.head
  have h2 := W.tail
  have hc : (f.store (next fifosize f.cfTail) m).count fifosize = f.count fifosize + 1 := by
    simp only [next] at hroom
    simp only [count, store, next]
    split_ifs at hroom ⊢
    all_goals omega
  have ht : slot fifosize f.cfHead (f.count fifosize) = f.cfTail := by
    simp only [slot, count]
    split_ifs
    all_goals omega
  have hne : ∀ i, i < f.count fifosize → slot fifosize f.cfHead i ≠ f.cfTail := by
    intro i hi
    have hl := count_lt W
    rw [← ht]
    simp only [slot]
    split_ifs
    all_goals omega
  rw [queue, hc, List.range_succ, List.map_append, List.map_singleton]
  congr 1
  · apply List.map_congr_left
    intro i hi
    have hi' := List.mem_range.mp hi
    apply msg_store_of_ne hm.2 (hne i hi')
    apply hq
    exact List.mem_map_of_mem hi
  · have hs : (f.store (next fifosize f.cfTail) m).cfHead = f.cfHead := rfl
    rw [hs, ht, msg_store_tail hm]

theorem Wf.store (W : f.Wf fifosize) (m : List UInt8) :
    (f.store (next fifosize f.cfTail) m).Wf fifosize :=
  ⟨W.head, next_lt (by have := W.head; omega) _⟩

theorem Wf.pop (W : f.Wf fifosize) : (f.pop fifosize).Wf fifosize :=
  ⟨next_lt (by have := W.head; omega) _, W.tail⟩

theorem Wf.reset (W : f.Wf fifosize) : f.reset.Wf fifosize :=
  ⟨by have := W.head; simp only [Fifo.reset]; omega, by
    have := W.head
    simp only [Fifo.reset]
    omega⟩

@[simp] theorem queue_reset : f.reset.queue fifosize = [] := by
  simp [queue, count, reset]

end Fifo

end NuttxAvr32.Can
