import NuttxAvr32.Fat.FileLock
import NuttxAvr32.Mtd.RwSemaphores
import NuttxAvr32.Stdio.StreamLock

/-! # Semaphores of drivers, streams and volumes

What the calls of three subsystems take, they give back, unless they run into one of the
branches that do not.
-/

namespace NuttxAvr32.Balance

open Holding

inductive Call
  | rwbRead (cfg : Mtd.Sems.Config) (rwb : Mtd.Sems.Rwb) (startblock : Int) (nblocks : Nat)
    (garbage : Nat → Int)
  | rwbWrite (cfg : Mtd.Sems.Config) (rwb : Mtd.Sems.Rwb) (startblock : Int) (nblocks : Nat)
  | libFread (stream : Stdio.Lock.Stream) (null : Bool) (count : Nat)
  | libFwrite (stream : Stdio.Lock.Stream) (null : Bool) (count : Nat)
  | libFflush (stream : Stdio.Lock.Stream) (bforce : Bool)
  | fatRead (handle : Fat.Lock.Handle) (buflen : Nat)
  | fatWrite (handle : Fat.Lock.Handle) (buflen : Nat)
  | fatSeek (handle : Fat.Lock.Handle) (offset : Int) (whence : Fat.Lock.Whence)

/-- Whatever the counts are, and however far the call is followed: it does not wait for a
semaphore that it holds itself, and where it returns the counts are as it found them. `answers`
are the results of what it asks of devices, files and drivers. -/
def Call.Balanced (answers : Nat → Int) : Call → Prop
  | rwbRead cfg rwb startblock nblocks garbage => ∀ count turns,
      Holding.Balanced (Mtd.Sems.rwbRead cfg startblock nblocks garbage turns) rwb count answers
  | rwbWrite cfg rwb startblock nblocks => ∀ count,
      Holding.Balanced (Mtd.Sems.rwbWrite cfg startblock nblocks) rwb count answers
  | libFread stream null n => ∀ count turns,
      Stdio.Lock.BalancedCall (Stdio.Lock.libFread turns null n) stream count answers
  | libFwrite stream null n => ∀ count turns,
      Stdio.Lock.BalancedCall (Stdio.Lock.libFwrite turns null n) stream count answers
  | libFflush stream bforce => ∀ count turns,
      Stdio.Lock.BalancedCall (Stdio.Lock.libFflush turns bforce) stream count answers
  | fatRead handle buflen => ∀ count turns,
      Holding.Balanced (Fat.Lock.fatRead turns buflen) handle count answers
  | fatWrite handle buflen => ∀ count turns,
      Holding.Balanced (Fat.Lock.fatWrite turns buflen) handle count answers
  | fatSeek handle offset whence => ∀ count turns,
      Holding.Balanced (Fat.Lock.fatSeek turns offset whence) handle count answers

/-- The call stays clear of the branches that keep a semaphore or take it twice. -/
def Call.Keeps (answers : Nat → Int) : Call → Prop
  | rwbRead cfg rwb startblock nblocks garbage =>
      Mtd.Sems.ReadKeeps cfg rwb startblock nblocks garbage answers
  | rwbWrite cfg _ _ nblocks => cfg.writebuffer = true → nblocks ≤ cfg.wrmaxblocks
  | libFread stream null _ =>
      null = false → stream.rdok = true → Stdio.Lock.FreadKeeps stream answers
  | libFwrite _ _ _ => True
  | libFflush stream _ => Stdio.Lock.FlushKeeps stream
  | fatRead handle _ => Fat.Lock.ReadKeeps handle answers
  | fatWrite handle buflen => Fat.Lock.WriteKeeps handle buflen answers
  | fatSeek _ _ _ => True

/-- A call gives back what it takes exactly where it stays clear of those branches. -/
theorem semaphores_balanced (c : Call) (answers : Nat → Int) :
    c.Balanced answers ↔ c.Keeps answers := by
  cases c with
  | rwbRead cfg rwb startblock nblocks garbage =>
      exact (forall_congr' fun count => Mtd.Sems.rwbRead_balanced).trans (forall_const _)
  | rwbWrite cfg rwb startblock nblocks =>
      exact (forall_congr' fun count => Mtd.Sems.rwbWrite_balanced).trans (forall_const _)
  | libFread stream null n =>
      exact (forall_congr' fun count => Stdio.Lock.libFread_balanced).trans (forall_const _)
  | libFwrite stream null n =>
      exact ⟨fun _ => trivial, fun _ count turns => Stdio.Lock.libFwrite_balanced⟩
  | libFflush stream bforce =>
      exact ⟨fun h => (Stdio.Lock.libFflush_balanced bforce).mp (h (fun _ => 1) 0),
        fun h count turns => (Stdio.Lock.libFflush_balanced bforce).mpr h⟩
  | fatRead handle buflen =>
      exact ⟨fun h => Fat.Lock.fatRead_balanced.mp (h (fun _ => 1) 0),
        fun h count turns => Fat.Lock.fatRead_balanced.mpr h⟩
  | fatWrite handle buflen =>
      exact ⟨fun h => Fat.Lock.fatWrite_balanced.mp (h (fun _ => 1) 0),
        fun h count turns => Fat.Lock.fatWrite_balanced.mpr h⟩
  | fatSeek handle offset whence =>
      exact ⟨fun _ => trivial, fun _ count turns => Fat.Lock.fatSeek_balanced offset whence⟩

def readAByte : Stdio.Lock.Stream where
  filedes := 3
  rdok := true
  wrok := true
  nungotten := 0
  mine := 0
  bufend := 256
  bufpos := 1
  bufread := 256

/-- A flush of it returns with the semaphore. -/
theorem flush_keeps_semaphore : ¬ ∀ c answers, Call.Balanced answers c := by
  intro hall
  have hflush := hall (.libFflush readAByte true) (fun _ => 0) (fun _ => 1) 0
  exact absurd ((Stdio.Lock.libFflush_balanced true).mp hflush) (by decide)

end NuttxAvr32.Balance
