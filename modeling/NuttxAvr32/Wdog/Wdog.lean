import NuttxAvr32.Sched.Tcb

/-! # Watchdog timers

`g_wdactivelist` holds the active watchdogs in the order of their expiration,
each with the ticks that lie between it and the one in front of it. `wd_timer` is
split where it calls a watchdog function, so that the function can call back.
`NULL` is zero.
-/

namespace NuttxAvr32.Wdog

open Sched (Errno)
open Function (update)

abbrev intMax : Int := 2 ^ 31 - 1

/-- The value of a 32-bit `int` after wrapping. -/
def wrapInt (x : Int) : Int := Int.bmod x (2 ^ 32)

structure Wdogs where
  gWdactivelist : List Nat
  gWdfreelist : List Nat
  lag : Nat → Int
  active : Nat → Bool
  func : Nat → Nat
  parm : Nat → List Nat

structure Config where
  preallocWdogs : Nat
  maxWdogparms : Nat

def wdInitialize (cfg : Config) : Wdogs where
  gWdactivelist := []
  gWdfreelist := List.range' 1 cfg.preallocWdogs
  lag _ := 0
  active _ := false
  func _ := 0
  parm _ := []

def wdCreate (s : Wdogs) : Wdogs × Nat :=
  match s.gWdfreelist with
  | [] => (s, 0)
  | w :: free =>
    ({ s with gWdfreelist := free, active := update s.active w false }, w)

def unlink (wdid : Nat) (s : Wdogs) : Wdogs :=
  let next := (s.gWdactivelist.dropWhile (· ≠ wdid)).tail.head?
  { s with
    gWdactivelist := s.gWdactivelist.erase wdid
    lag :=
      match next with
      | some n => update s.lag n (s.lag n + s.lag wdid)
      | none => s.lag
    active := update s.active wdid false }

/-- `none` is the panic for an active watchdog that is not in the list. -/
def wdCancel (wdid : Nat) (s : Wdogs) : Option (Wdogs × Bool) :=
  if wdid ≠ 0 ∧ s.active wdid = true then
    if wdid ∈ s.gWdactivelist then some (unlink wdid s, true) else none
  else some (s, false)

def wdDelete (wdId : Nat) (s : Wdogs) : Option (Except Errno Wdogs) :=
  if wdId = 0 then some (.error .einval)
  else do
    let (s, _) ← if s.active wdId = true then wdCancel wdId s else some (s, true)
    some (.ok { s with gWdfreelist := s.gWdfreelist ++ [wdId] })

/-- Calculates `delay + 1` and forces it into the range of an `int`. -/
def startDelay (delay : Int) : Int :=
  if delay ≤ 0 then 1
  else
    let delay := wrapInt (delay + 1)
    if delay ≤ 0 then wrapInt (delay - 1) else delay

/-- Where the search of `wd_start` stands: the entries before `curr`, `curr`, the
entries after it and the time at `curr`. -/
structure Cursor where
  before : List Nat
  curr : Nat
  after : List Nat
  now : Int

/-- "Advance to positive time" -/
def toPositive (lag : Nat → Int) (before : List Nat) (curr : Nat) (now : Int) :
    List Nat → Cursor
  | [] => ⟨before, curr, [], now + lag curr⟩
  | next :: after =>
    if now + lag curr < 0 then
      toPositive lag (before ++ [curr]) next (now + lag curr) after
    else ⟨before, curr, next :: after, now + lag curr⟩

/-- "Advance past shorter delays" -/
def pastShorter (lag : Nat → Int) (delay : Int) (before : List Nat) (curr : Nat) (now : Int) :
    List Nat → Cursor
  | [] => ⟨before, curr, [], now⟩
  | next :: after =>
    if now ≤ delay then
      pastShorter lag delay (before ++ [curr]) next (now + lag next) after
    else ⟨before, curr, next :: after, now⟩

/-- Links `wdog` in: the new list and the new lags. -/
def place (wdog : Nat) (delay : Int) (lag : Nat → Int) (c : Cursor) : List Nat × (Nat → Int) :=
  if delay < c.now then
    let delay := delay - (c.now - lag c.curr)
    (c.before ++ wdog :: c.curr :: c.after,
      update (update lag c.curr (lag c.curr - delay)) wdog delay)
  else
    let delay := delay - c.now
    match c.after with
    | [] => (c.before ++ [c.curr, wdog], update lag wdog delay)
    | next :: after =>
      (c.before ++ c.curr :: wdog :: next :: after,
        update (update lag next (lag next - delay)) wdog delay)

def search (wdog : Nat) (delay : Int) (lag : Nat → Int) : List Nat → List Nat × (Nat → Int)
  | [] => ([wdog], update lag wdog delay)
  | head :: rest =>
    let c := toPositive lag [] head 0 rest
    place wdog delay lag (pastShorter lag delay c.before c.curr c.now c.after)

/-- `wd_start` from where the watchdog is known to be inactive. -/
def link (wdog : Nat) (delay : Int) (wdentry : Nat) (parm : List Nat) (s : Wdogs) : Wdogs :=
  let placed := search wdog (startDelay delay) s.lag s.gWdactivelist
  { s with
    gWdactivelist := placed.1
    lag := placed.2
    active := update s.active wdog true
    func := update s.func wdog wdentry
    parm := update s.parm wdog parm }

def wdStart (cfg : Config) (wdog : Nat) (delay : Int) (wdentry : Nat) (parm : List Nat)
    (s : Wdogs) : Option (Except Errno Wdogs) :=
  if wdog = 0 ∨ cfg.maxWdogparms < parm.length ∨ delay < 0 then some (.error .einval)
  else do
    let (s, _) ← if s.active wdog = true then wdCancel wdog s else some (s, true)
    some (.ok (link wdog delay wdentry parm s))

/-- `wd_timer` up to its loop, and whether it enters the loop. -/
def wdTimer (s : Wdogs) : Wdogs × Bool :=
  match s.gWdactivelist with
  | [] => (s, false)
  | head :: _ =>
    let s := { s with lag := update s.lag head (s.lag head - 1) }
    (s, decide (s.lag head ≤ 0))

/-- One iteration of the loop of `wd_timer`: the watchdog whose function is called
next, `none` when the loop ends. -/
def wdExpire (s : Wdogs) : Wdogs × Option Nat :=
  match s.gWdactivelist with
  | [] => (s, none)
  | wdog :: rest =>
    if s.lag wdog ≤ 0 then
      let lag :=
        match rest with
        | [] => s.lag
        | next :: _ => update s.lag next (s.lag next + s.lag wdog)
      ({ s with
        gWdactivelist := rest
        lag := lag
        active := update s.active wdog false }, some wdog)
    else (s, none)

def findTime (wdog : Nat) (lag : Nat → Int) (delay : Int) : List Nat → Int
  | [] => 0
  | curr :: rest =>
    if curr = wdog then delay + lag curr else findTime wdog lag (delay + lag curr) rest

def wdGettime (wdog : Nat) (s : Wdogs) : Int :=
  if wdog ≠ 0 ∧ s.active wdog = true then findTime wdog s.lag 0 s.gWdactivelist else 0

end NuttxAvr32.Wdog
