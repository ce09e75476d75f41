import NuttxAvr32.Lib.Ring
import NuttxAvr32.Lib.Runs
import Mathlib.Data.List.Perm.Subperm

/-! # Pipes and FIFOs

`pipe_common.c` with any number of open files. `d_bfsem` makes what lies between two of its
releases one step. The counts of `d_rdsem` and `d_wrsem` are never positive: each is posted
only while it is negative, and then until no task waits for it. So a semaphore is the set of
its waiting tasks, and a task that was posted or got a signal goes on in a step of its own.
Calls that fail before they change anything are left out, and so is `poll`.
-/

namespace NuttxAvr32.Drivers.Pipe

open Ring Runs

def eagain : Int := -11
def eintr : Int := -4

/-- `struct pipe_dev_s` of a pipe with `size` bytes of buffer. The counts are `uint8_t`. -/
structure PipeDev where
  size : Nat
  wrndx : Nat
  rdndx : Nat
  refs : Nat
  nwriters : Nat
  buffer : Nat → UInt8
  size_pos : 0 < size

/-- Where a task stands that uses an open file: in no call, in `pipecommon_open` or
`pipecommon_read` waiting for `d_rdsem`, or in `pipecommon_write` waiting for `d_wrsem`. -/
inductive Phase
  | closed
  | idle
  | opening
  | reading (len : Nat)
  | writing (buffer : Nat → UInt8) (len nwritten last : Nat)

structure User where
  rdok : Bool
  wrok : Bool
  nonblock : Bool
  phase : Phase
  posted : Bool

def toByte (x : Nat) : Nat := x % 256

namespace PipeDev

def contents (dev : PipeDev) : List UInt8 :=
  Ring.contents dev.size dev.rdndx dev.wrndx dev.buffer

def full (dev : PipeDev) : Prop := next dev.size dev.wrndx = dev.rdndx

instance (dev : PipeDev) : Decidable dev.full := inferInstanceAs (Decidable (_ = _))

def put (dev : PipeDev) (byte : UInt8) : PipeDev :=
  { dev with
    buffer := Function.update dev.buffer dev.wrndx byte
    wrndx := next dev.size dev.wrndx }

def drain : Nat → PipeDev → List UInt8 × PipeDev
  | 0, dev => ([], dev)
  | len + 1, dev =>
    if dev.wrndx ≠ dev.rdndx then
      let r := drain len { dev with rdndx := next dev.size dev.rdndx }
      (dev.buffer dev.rdndx :: r.1, r.2)
    else ([], dev)

/-- The loop of `pipecommon_write` with `rest + 1` bytes to go. Its test for the end comes
after the first byte. Returns the number written, and whether it ended so. -/
def fill (buffer : Nat → UInt8) : Nat → PipeDev → Nat → PipeDev × Nat × Bool
  | 0, dev, nwritten =>
    if dev.full then (dev, nwritten, false)
    else (dev.put (buffer nwritten), nwritten + 1, true)
  | rest + 1, dev, nwritten =>
    if dev.full then (dev, nwritten, false)
    else fill buffer rest (dev.put (buffer nwritten)) (nwritten + 1)

end PipeDev

/-- What a step of a call leaves: the device, whether the waiting readers and writers are
posted, the phase of the task, the value returned, the bytes that a read returns, the
bytes that went into the buffer and those that a write reports. -/
structure Section where
  dev : PipeDev
  postsReaders : Bool
  postsWriters : Bool
  phase : Phase
  ret : Option Int
  taken : List UInt8
  stored : List UInt8
  reported : List UInt8

def Section.leave (dev : PipeDev) (ret : Int) : Section :=
  ⟨dev, false, false, .idle, some ret, [], [], []⟩

def openSection (u : User) (dev : PipeDev) : Section :=
  let dev := { dev with refs := toByte (dev.refs + 1) }
  let dev := if u.wrok then { dev with nwriters := toByte (dev.nwriters + 1) } else dev
  let posts := u.wrok && decide (dev.nwriters = 1)
  if u.rdok = true ∧ u.wrok = false ∧ dev.nwriters < 1 then
    ⟨dev, posts, false, .opening, none, [], [], []⟩
  else ⟨dev, posts, false, .idle, some 0, [], [], []⟩

def closeSection (u : User) (dev : PipeDev) (ret : Int) : Section :=
  if dev.refs > 1 then
    let dev := { dev with refs := dev.refs - 1 }
    if u.wrok then
      let dev := { dev with nwriters := toByte (dev.nwriters + 255) }
      ⟨dev, decide (dev.nwriters = 0), false, .closed, some ret, [], [], []⟩
    else ⟨dev, false, false, .closed, some ret, [], [], []⟩
  else
    ⟨{ dev with wrndx := 0, rdndx := 0, refs := 0, nwriters := 0 }, false, false, .closed,
      some ret, [], [], []⟩

def readSection (u : User) (dev : PipeDev) (len : Nat) : Section :=
  if dev.wrndx = dev.rdndx then
    if u.nonblock then .leave dev eagain
    else if dev.nwriters = 0 then .leave dev 0
    else ⟨dev, false, false, .reading len, none, [], [], []⟩
  else
    let r := dev.drain len
    ⟨r.2, false, true, .idle, some r.1.length, r.1, [], []⟩

def writeSection (u : User) (dev : PipeDev) (buffer : Nat → UInt8) (len nwritten last : Nat) :
    Section :=
  let r := dev.fill buffer (len - nwritten - 1) nwritten
  let stored := (List.range (r.2.1 - nwritten)).map fun i => buffer (nwritten + i)
  let written := (List.range r.2.1).map buffer
  if r.2.2 then ⟨r.1, true, false, .idle, some len, [], stored, (List.range len).map buffer⟩
  else if u.nonblock then
    ⟨r.1, decide (last < r.2.1), false, .idle,
      some (if r.2.1 = 0 then eagain else r.2.1), [], stored, written⟩
  else ⟨r.1, decide (last < r.2.1), false, .writing buffer len r.2.1 r.2.1, none, [], stored, []⟩

namespace PipeDev

structure Wf (dev : PipeDev) : Prop where
  wrndx : dev.wrndx < dev.size
  rdndx : dev.rdndx < dev.size

structure Same (dev dev' : PipeDev) : Prop where
  size : dev'.size = dev.size
  refs : dev'.refs = dev.refs
  nwriters : dev'.nwriters = dev.nwriters

variable {dev : PipeDev}

theorem Same.refl (dev : PipeDev) : Same dev dev := ⟨rfl, rfl, rfl⟩

theorem Wf.put (W : dev.Wf) (byte : UInt8) : (dev.put byte).Wf :=
  ⟨next_lt dev.size_pos _, W.rdndx⟩

theorem contents_put (W : dev.Wf) (h : ¬ dev.full) (byte : UInt8) :
    (dev.put byte).contents = dev.contents ++ [byte] :=
  contents_push W.rdndx W.wrndx h byte

theorem Wf.contents_nil (W : dev.Wf) : dev.contents = [] ↔ dev.wrndx = dev.rdndx := by
  rw [contents, Ring.contents_eq_nil W.rdndx]
  exact eq_comm

structure Drained (dev : PipeDev) (len : Nat) (r : List UInt8 × PipeDev) : Prop where
  wf : r.2.Wf
  same : Same dev r.2
  contents : dev.contents = r.1 ++ r.2.contents
  some : 0 < len → dev.wrndx ≠ dev.rdndx → r.1 ≠ []

theorem Wf.drained (W : dev.Wf) (len : Nat) : Drained dev len (dev.drain len) := by
  induction len generalizing dev with
  | zero => exact ⟨W, Same.refl _, rfl, fun h => absurd h (by omega)⟩
  | succ len ih =>
    by_cases h : dev.wrndx ≠ dev.rdndx
    · have W' : Wf { dev with rdndx := next dev.size dev.rdndx } :=
        ⟨W.wrndx, next_lt dev.size_pos _⟩
      have D := ih W'
      have hpop : dev.contents = dev.buffer dev.rdndx ::
          ({ dev with rdndx := next dev.size dev.rdndx } : PipeDev).contents :=
        contents_pop W.rdndx W.wrndx (Ne.symm h)
      rw [drain, if_pos h]
      refine ⟨D.wf, ⟨D.same.size, D.same.refs, D.same.nwriters⟩, ?_, fun _ _ => by simp⟩
      rw [hpop, D.contents]
      rfl
    · rw [drain, if_neg h]
      exact ⟨W, Same.refl _, rfl, fun _ hne => absurd hne h⟩

/-- What the writing loop stores goes to the back, byte after byte, up to the last one or
until the buffer is full. -/
structure Filled (buffer : Nat → UInt8) (rest : Nat) (dev : PipeDev) (nwritten : Nat)
    (r : PipeDev × Nat × Bool) : Prop where
  wf : r.1.Wf
  same : Same dev r.1
  more : nwritten ≤ r.2.1
  contents : r.1.contents = dev.contents ++
    (List.range (r.2.1 - nwritten)).map fun i => buffer (nwritten + i)
  done : r.2.2 = true → r.2.1 = nwritten + rest + 1
  pending : r.2.2 = false → r.2.1 ≤ nwritten + rest

theorem Filled.stop (W : dev.Wf) (buffer : Nat → UInt8) (rest nwritten : Nat) :
    Filled buffer rest dev nwritten (dev, nwritten, false) := by
  refine ⟨W, Same.refl _, Nat.le_refl _, ?_, fun h => (by cases h), fun _ => Nat.le_add_right _ _⟩
  simp

theorem Wf.filled (W : dev.Wf) (buffer : Nat → UInt8) (rest nwritten : Nat) :
    Filled buffer rest dev nwritten (dev.fill buffer rest nwritten) := by
  induction rest generalizing dev nwritten with
  | zero =>
    by_cases h : dev.full
    · rw [fill, if_pos h]
      exact Filled.stop W buffer 0 nwritten
    · rw [fill, if_neg h]
      refine ⟨W.put _, ⟨rfl, rfl, rfl⟩, Nat.le_succ _, ?_, fun _ => rfl, fun h => (by cases h)⟩
      rw [contents_put W h]
      simp
  | succ rest ih =>
    by_cases h : dev.full
    · rw [fill, if_pos h]
      exact Filled.stop W buffer (rest + 1) nwritten
    · rw [fill, if_neg h]
      have F := ih (W.put (buffer nwritten)) (nwritten + 1)
      have hmore := F.more
      refine ⟨F.wf, ⟨F.same.size, F.same.refs, F.same.nwriters⟩, by omega, ?_,
        fun hd => ?_, fun hp => ?_⟩
      · obtain ⟨k, hk⟩ := Nat.exists_eq_add_of_le hmore
        rw [F.contents, contents_put W h, hk, Nat.add_sub_cancel_left,
          show nwritten + 1 + k - nwritten = k + 1 by omega, List.range_succ_eq_map,
          List.map_cons, List.map_map, List.append_assoc]
        congr 1
        show _ :: _ = _ :: _
        congr 1
        apply List.map_congr_left
        intro i _
        simp only [Function.comp_apply]
        congr 1
        omega
      · have := F.done hd
        omega
      · have := F.pending hp
        omega

end PipeDev

/-- The pipe with its open files. `openers` and `writers` are the files that are open and
open for writing. The logs begin when the pipe is opened from closed: the bytes stored with
their writers, the bytes that reads returned, and the bytes that writes reported. -/
structure State where
  dev : PipeDev
  users : Nat → User
  openers : List Nat
  writers : List Nat
  stored : List (Nat × UInt8)
  taken : List UInt8
  reports : List (Nat × UInt8)

def User.post (u : User) (sec : Section) : User :=
  match u.phase with
  | .opening => { u with posted := u.posted || sec.postsReaders }
  | .reading _ => { u with posted := u.posted || sec.postsReaders }
  | .writing _ _ _ _ => { u with posted := u.posted || sec.postsWriters }
  | _ => u

def State.step (s : State) (i : Nat) (u : User) (sec : Section) : State :=
  { s with
    dev := sec.dev
    users := fun j =>
      if j = i then { u with phase := sec.phase, posted := false } else (s.users j).post sec
    stored := s.stored ++ sec.stored.map (i, ·)
    taken := s.taken ++ sec.taken
    reports := s.reports ++ sec.reported.map (i, ·) }

def State.opened (s : State) (i : Nat) (wrok : Bool) : State :=
  { s with
    openers := i :: s.openers
    writers := if wrok then i :: s.writers else s.writers }

/-- With the last file the logs end. -/
def State.left (s : State) (i : Nat) : State :=
  let s := { s with openers := s.openers.erase i, writers := s.writers.erase i }
  if s.openers = [] then { s with stored := [], taken := [], reports := [] } else s

inductive Op
  | open (i : Nat) (rdok wrok nonblock : Bool)
  | close (i : Nat)
  | read (i len : Nat)
  | write (i : Nat) (buffer : Nat → UInt8) (len : Nat)
  | resume (i : Nat)
  | interrupt (i : Nat)

/-- `interrupt` is a signal to a task that waits. `pipecommon_write` takes no notice of it. -/
def Op.exec (s : State) : Op → Option State
  | .open i rdok wrok nonblock =>
    let u : User := ⟨rdok, wrok, nonblock, .closed, false⟩
    some ((s.step i u (openSection u s.dev)).opened i wrok)
  | close i => some ((s.step i (s.users i) (closeSection (s.users i) s.dev 0)).left i)
  | read i len => some (s.step i (s.users i) (readSection (s.users i) s.dev len))
  | write i buffer len =>
    some (s.step i (s.users i) (writeSection (s.users i) s.dev buffer len 0 0))
  | resume i =>
    match (s.users i).phase with
    | .opening => some (s.step i (s.users i) (.leave s.dev 0))
    | .reading len => some (s.step i (s.users i) (readSection (s.users i) s.dev len))
    | .writing buffer len nwritten last =>
      some (s.step i (s.users i)
        (writeSection (s.users i) s.dev buffer len nwritten last))
    | _ => none
  | interrupt i =>
    match (s.users i).phase with
    | .opening =>
      some ((s.step i (s.users i) (closeSection (s.users i) s.dev eintr)).left i)
    | .reading _ => some (s.step i (s.users i) (.leave s.dev (-1)))
    | _ => none

/-- A file is used by one task at a time and for what it was opened. A write has at least
one byte and a length that `ssize_t` holds, and at most 255 files are open. -/
def Op.valid (s : State) : Op → Prop
  | .open i _ _ _ => (s.users i).phase = .closed ∧ s.openers.length < 255
  | close i => (s.users i).phase = .idle
  | read i _ => (s.users i).phase = .idle ∧ (s.users i).rdok = true
  | write i _ len => (s.users i).phase = .idle ∧ (s.users i).wrok = true ∧ 0 < len ∧
      len < 2147483648
  | resume i => (s.users i).posted = true
  | interrupt _ => True

def pipeMachine : Machine State Op where
  valid s i := i.valid s
  exec s i := i.exec s

structure Start (s : State) : Prop where
  closed : ∀ i, (s.users i).phase = .closed
  dev : s.dev.wrndx = 0 ∧ s.dev.rdndx = 0 ∧ s.dev.refs = 0 ∧ s.dev.nwriters = 0
  lists : s.openers = [] ∧ s.writers = []
  logs : s.stored = [] ∧ s.taken = [] ∧ s.reports = []

def ofWriter (i : Nat) (log : List (Nat × UInt8)) : List UInt8 :=
  (log.filter fun e => e.1 = i).map Prod.snd

def Phase.inFlight : Phase → List UInt8
  | writing buffer _ nwritten _ => (List.range nwritten).map buffer
  | _ => []

def Op.ReadsEnd (s : State) : Op → Prop
  | read i len => 0 < len ∧ (readSection (s.users i) s.dev len).ret = some 0
  | resume i =>
    match (s.users i).phase with
    | .reading len => 0 < len ∧ (readSection (s.users i) s.dev len).ret = some 0
    | _ => False
  | _ => False

structure Correct (s : State) : Prop where
  order : s.taken <+: s.stored.map Prod.snd
  sent : ∀ i, ofWriter i s.stored = ofWriter i s.reports ++ (s.users i).phase.inFlight
  indices : s.dev.wrndx < s.dev.size ∧ s.dev.rdndx < s.dev.size
  room : s.stored.length = s.taken.length + s.dev.contents.length ∧
    s.dev.contents.length ≤ s.dev.size - 1
  ends : ∀ i : Op, i.valid s → i.ReadsEnd s → s.dev.contents = [] ∧
    ∀ j, (s.users j).phase ≠ .closed → (s.users j).wrok = false

structure Inv (s : State) : Prop where
  wf : s.dev.Wf
  openers : s.openers.Nodup
  opened : ∀ i, i ∈ s.openers ↔ (s.users i).phase ≠ .closed
  writers : s.writers.Nodup
  writing : ∀ i, i ∈ s.writers ↔ (s.users i).phase ≠ .closed ∧ (s.users i).wrok = true
  refs : s.dev.refs = s.openers.length
  nwriters : s.dev.nwriters = s.writers.length
  few : s.openers.length ≤ 255
  log : s.stored.map Prod.snd = s.taken ++ s.dev.contents
  sent : ∀ i, ofWriter i s.stored = ofWriter i s.reports ++ (s.users i).phase.inFlight
  flight : ∀ i buffer len nwritten last,
    (s.users i).phase = .writing buffer len nwritten last → nwritten < len

/-- What a step of a task does that leaves its file open: bytes go through the buffer in
order, and what it has stored is what it reports or has in flight. -/
structure Fair (u : User) (dev : PipeDev) (sec : Section) : Prop where
  wf : sec.dev.Wf
  same : dev.Same sec.dev
  bytes : dev.contents ++ sec.stored = sec.taken ++ sec.dev.contents
  sent : u.phase.inFlight ++ sec.stored = sec.reported ++ sec.phase.inFlight
  stays : sec.phase ≠ .closed
  flight : ∀ buffer len nwritten last,
    sec.phase = .writing buffer len nwritten last → nwritten < len

section

variable {s : State} {i j : Nat} {u : User} {dev : PipeDev} {sec : Section} {len : Nat}

@[simp] theorem post_phase : (u.post sec).phase = u.phase := by
  unfold User.post
  split <;> rfl

@[simp] theorem post_wrok : (u.post sec).wrok = u.wrok := by
  unfold User.post
  split <;> rfl

theorem ofWriter_append (l l' : List (Nat × UInt8)) :
    ofWriter i (l ++ l') = ofWriter i l ++ ofWriter i l' := by
  simp [ofWriter]

theorem ofWriter_self (xs : List UInt8) : ofWriter i (xs.map (i, ·)) = xs := by
  induction xs with
  | nil => rfl
  | cons x xs ih => simpa [ofWriter] using ih

theorem ofWriter_of_ne (h : j ≠ i) (xs : List UInt8) : ofWriter j (xs.map (i, ·)) = [] := by
  simp [ofWriter, Ne.symm h]

theorem step_self : ((s.step i u sec).users i).phase = sec.phase := by
  simp [State.step]

theorem step_self_wrok : ((s.step i u sec).users i).wrok = u.wrok := by
  simp [State.step]

theorem step_other (h : j ≠ i) : ((s.step i u sec).users j).phase = (s.users j).phase := by
  simp [State.step, h]

theorem step_other_wrok (h : j ≠ i) : ((s.step i u sec).users j).wrok = (s.users j).wrok := by
  simp [State.step, h]

theorem step_stored (s : State) (i : Nat) (u : User) (sec : Section) :
    ((s.step i u sec).stored).map Prod.snd = s.stored.map Prod.snd ++ sec.stored := by
  simp [State.step, Function.comp_def]

theorem Inv.step_sent (I : Inv s) (h : u.phase.inFlight = (s.users i).phase.inFlight)
    (hs : u.phase.inFlight ++ sec.stored = sec.reported ++ sec.phase.inFlight) (j : Nat) :
    ofWriter j (s.step i u sec).stored = ofWriter j (s.step i u sec).reports ++
      ((s.step i u sec).users j).phase.inFlight := by
  have hj := I.sent j
  show ofWriter j (s.stored ++ sec.stored.map (i, ·)) =
    ofWriter j (s.reports ++ sec.reported.map (i, ·)) ++ _
  rw [ofWriter_append, ofWriter_append, hj]
  by_cases he : j = i
  · subst he
    rw [ofWriter_self, ofWriter_self, step_self, List.append_assoc, List.append_assoc, ← h, hs]
  · rw [ofWriter_of_ne he, ofWriter_of_ne he, step_other he, List.append_nil, List.append_nil]

theorem Inv.step (I : Inv s) (h : (s.users i).phase ≠ .closed) (F : Fair (s.users i) s.dev sec) :
    Inv (s.step i (s.users i) sec) := by
  refine ⟨F.wf, I.openers, fun j => ?_, I.writers, fun j => ?_, F.same.refs.trans I.refs,
    F.same.nwriters.trans I.nwriters, I.few, ?_, I.step_sent rfl F.sent,
    fun j buffer len nwritten last hp => ?_⟩
  · by_cases he : j = i
    · subst he
      rw [step_self]
      exact ⟨fun _ => F.stays, fun _ => (I.opened j).mpr h⟩
    · rw [step_other he]
      exact I.opened j
  · by_cases he : j = i
    · subst he
      rw [step_self, step_self_wrok]
      exact ⟨fun hm => ⟨F.stays, ((I.writing j).mp hm).2⟩, fun hm => (I.writing j).mpr ⟨h, hm.2⟩⟩
    · rw [step_other he, step_other_wrok he]
      exact I.writing j
  · rw [step_stored, I.log, List.append_assoc, F.bytes]
    exact (List.append_assoc _ _ _).symm
  · by_cases he : j = i
    · subst he
      rw [step_self] at hp
      exact F.flight buffer len nwritten last hp
    · rw [step_other he] at hp
      exact I.flight j buffer len nwritten last hp

theorem Fair.leave (W : dev.Wf) (h : u.phase.inFlight = []) (ret : Int) :
    Fair u dev (.leave dev ret) := by
  refine ⟨W, PipeDev.Same.refl dev, List.append_nil _, ?_, fun hc => (by cases hc),
    fun _ _ _ _ hp => (by cases hp)⟩
  rw [h]
  rfl

theorem Fair.read (W : dev.Wf) (h : u.phase.inFlight = []) (len : Nat) :
    Fair u dev (readSection u dev len) := by
  unfold readSection
  split
  · split
    · exact Fair.leave W h _
    · split
      · exact Fair.leave W h _
      · refine ⟨W, PipeDev.Same.refl dev, List.append_nil _, ?_, fun hc => (by cases hc),
          fun _ _ _ _ hp => (by cases hp)⟩
        rw [h]
        rfl
  · have D := W.drained len
    refine ⟨D.wf, D.same, ?_, ?_, fun hc => (by cases hc), fun _ _ _ _ hp => (by cases hp)⟩
    · rw [List.append_nil]
      exact D.contents
    · rw [h]
      rfl

theorem Fair.write (W : dev.Wf) {buffer : Nat → UInt8} {nwritten last : Nat}
    (h : u.phase.inFlight = (List.range nwritten).map buffer) (hlt : nwritten < len) :
    Fair u dev (writeSection u dev buffer len nwritten last) := by
  have F := W.filled buffer (len - nwritten - 1) nwritten
  obtain ⟨r, hr⟩ : ∃ r, dev.fill buffer (len - nwritten - 1) nwritten = r := ⟨_, rfl⟩
  rw [hr] at F
  have hmore := F.more
  have hall : u.phase.inFlight ++ ((List.range (r.2.1 - nwritten)).map fun i =>
      buffer (nwritten + i)) = (List.range r.2.1).map buffer := by
    obtain ⟨k, hk⟩ := Nat.exists_eq_add_of_le hmore
    rw [h, hk, Nat.add_sub_cancel_left, List.range_add, List.map_append, List.map_map]
    rfl
  unfold writeSection
  rw [hr]
  dsimp only
  split
  · rename_i hd
    have hlen : r.2.1 = len := by
      have := F.done hd
      omega
    refine ⟨F.wf, F.same, F.contents.symm, ?_, fun hc => (by cases hc),
      fun _ _ _ _ hp => (by cases hp)⟩
    dsimp only
    rw [hall, hlen]
    exact (List.append_nil _).symm
  · rename_i hd
    split
    · refine ⟨F.wf, F.same, F.contents.symm, ?_, fun hc => (by cases hc),
        fun _ _ _ _ hp => (by cases hp)⟩
      dsimp only
      rw [hall]
      exact (List.append_nil _).symm
    · refine ⟨F.wf, F.same, F.contents.symm, hall, fun hc => (by cases hc),
        fun b l n k hp => ?_⟩
      cases hp
      have := F.pending (by simpa using hd)
      omega

theorem Inv.writers_sub (I : Inv s) : s.writers ⊆ s.openers := fun j hj =>
  (I.opened j).mpr ((I.writing j).mp hj).1

theorem Inv.writers_le (I : Inv s) : s.writers.length ≤ s.openers.length :=
  (List.subperm_of_subset I.writers I.writers_sub).length_le

theorem toByte_of_lt {n : Nat} (h : n < 256) : toByte n = n := Nat.mod_eq_of_lt h

theorem openSection_fields (u : User) (dev : PipeDev) :
    (openSection u dev).dev.size = dev.size ∧ (openSection u dev).dev.wrndx = dev.wrndx ∧
      (openSection u dev).dev.rdndx = dev.rdndx ∧
      (openSection u dev).dev.contents = dev.contents ∧
      (openSection u dev).dev.refs = toByte (dev.refs + 1) ∧
      (openSection u dev).dev.nwriters =
        (if u.wrok then toByte (dev.nwriters + 1) else dev.nwriters) ∧
      ((openSection u dev).phase = .idle ∨ (openSection u dev).phase = .opening) ∧
      (openSection u dev).taken = [] ∧ (openSection u dev).stored = [] ∧
      (openSection u dev).reported = [] := by
  unfold openSection
  by_cases hw : u.wrok = true
  · simp [hw]
    rfl
  · simp only [hw, if_false, Bool.false_eq_true]
    split
    · exact ⟨rfl, rfl, rfl, rfl, rfl, rfl, .inr rfl, rfl, rfl, rfl⟩
    · exact ⟨rfl, rfl, rfl, rfl, rfl, rfl, .inl rfl, rfl, rfl, rfl⟩

theorem Inv.open (I : Inv s) (h : (s.users i).phase = .closed) (hfew : s.openers.length < 255)
    (hu : u.phase = .closed) :
    Inv ((s.step i u (openSection u s.dev)).opened i u.wrok) := by
  obtain ⟨hsize, hwr, hrd, hcont, hrefs, hnw, hphase, htaken, hstored, hrep⟩ :=
    openSection_fields u s.dev
  have hout : i ∉ s.openers := fun hm => (I.opened i).mp hm h
  have hwout : i ∉ s.writers := fun hm => hout (I.writers_sub hm)
  have hle := I.writers_le
  have hopen : (openSection u s.dev).phase ≠ .closed := by
    rcases hphase with hp | hp <;> rw [hp] <;> exact fun hc => (by cases hc)
  have hflight : (openSection u s.dev).phase.inFlight = [] := by
    rcases hphase with hp | hp <;> rw [hp] <;> rfl
  refine ⟨⟨?_, ?_⟩, List.nodup_cons.mpr ⟨hout, I.openers⟩, fun j => ?_, ?_, fun j => ?_, ?_, ?_,
    ?_, ?_, fun j => ?_, fun j buffer len nwritten last hp => ?_⟩
  · show (openSection u s.dev).dev.wrndx < (openSection u s.dev).dev.size
    rw [hsize, hwr]
    exact I.wf.wrndx
  · show (openSection u s.dev).dev.rdndx < (openSection u s.dev).dev.size
    rw [hsize, hrd]
    exact I.wf.rdndx
  · show j ∈ i :: s.openers ↔ ((s.step i u (openSection u s.dev)).users j).phase ≠ .closed
    rw [List.mem_cons]
    by_cases he : j = i
    · subst he
      rw [step_self]
      exact ⟨fun _ => hopen, fun _ => .inl rfl⟩
    · rw [step_other he, ← I.opened j]
      exact ⟨fun hm => hm.resolve_left he, .inr⟩
  · show (if u.wrok then i :: s.writers else s.writers).Nodup
    split
    · exact List.nodup_cons.mpr ⟨hwout, I.writers⟩
    · exact I.writers
  · show j ∈ (if u.wrok then i :: s.writers else s.writers) ↔
      ((s.step i u (openSection u s.dev)).users j).phase ≠ .closed ∧
        ((s.step i u (openSection u s.dev)).users j).wrok = true
    by_cases he : j = i
    · subst he
      rw [step_self, step_self_wrok]
      split
      · rename_i hw
        exact ⟨fun _ => ⟨hopen, hw⟩, fun _ => List.mem_cons_self⟩
      · rename_i hw
        exact ⟨fun hm => absurd hm hwout, fun hm => absurd hm.2 hw⟩
    · rw [step_other he, step_other_wrok he, ← I.writing j]
      split
      · rw [List.mem_cons]
        exact ⟨fun hm => hm.resolve_left he, .inr⟩
      · exact Iff.rfl
  · show (openSection u s.dev).dev.refs = (i :: s.openers).length
    rw [hrefs, I.refs, toByte_of_lt (by omega)]
    rfl
  · show (openSection u s.dev).dev.nwriters =
      (if u.wrok then i :: s.writers else s.writers).length
    rw [hnw, I.nwriters]
    split
    · rw [toByte_of_lt (by omega)]
      rfl
    · rfl
  · show (i :: s.openers).length ≤ 255
    rw [List.length_cons]
    omega
  · show (s.step i u (openSection u s.dev)).stored.map Prod.snd =
      (s.taken ++ (openSection u s.dev).taken) ++ (openSection u s.dev).dev.contents
    rw [step_stored, hstored, htaken, hcont, List.append_nil, List.append_nil]
    exact I.log
  · have hu' : u.phase.inFlight = (s.users i).phase.inFlight := by rw [hu, h]
    exact I.step_sent hu' (by rw [hu, hstored, hrep, hflight]; rfl) j
  · by_cases he : j = i
    · subst he
      have hp' : (openSection u s.dev).phase = .writing buffer len nwritten last :=
        (step_self (s := s) (i := j)).symm.trans hp
      rcases hphase with hq | hq <;> rw [hq] at hp' <;> cases hp'
    · have hp' : (s.users j).phase = .writing buffer len nwritten last :=
        (step_other he).symm.trans hp
      exact I.flight j buffer len nwritten last hp'

theorem closeSection_fields (u : User) (dev : PipeDev) (ret : Int) :
    (closeSection u dev ret).dev.size = dev.size ∧ (closeSection u dev ret).phase = .closed ∧
      (closeSection u dev ret).taken = [] ∧ (closeSection u dev ret).stored = [] ∧
      (closeSection u dev ret).reported = [] := by
  unfold closeSection
  split
  · split
    · exact ⟨rfl, rfl, rfl, rfl, rfl⟩
    · exact ⟨rfl, rfl, rfl, rfl, rfl⟩
  · exact ⟨rfl, rfl, rfl, rfl, rfl⟩

theorem closeSection_more (dev : PipeDev) (ret : Int) (h : dev.refs > 1) :
    (closeSection u dev ret).dev.wrndx = dev.wrndx ∧
      (closeSection u dev ret).dev.rdndx = dev.rdndx ∧
      (closeSection u dev ret).dev.contents = dev.contents ∧
      (closeSection u dev ret).dev.refs = dev.refs - 1 ∧
      (closeSection u dev ret).dev.nwriters =
        (if u.wrok then toByte (dev.nwriters + 255) else dev.nwriters) := by
  unfold closeSection
  rw [if_pos h]
  split
  · exact ⟨rfl, rfl, rfl, rfl, rfl⟩
  · exact ⟨rfl, rfl, rfl, rfl, rfl⟩

theorem closeSection_last (dev : PipeDev) (ret : Int) (h : ¬ dev.refs > 1) :
    (closeSection u dev ret).dev.wrndx = 0 ∧ (closeSection u dev ret).dev.rdndx = 0 ∧
      (closeSection u dev ret).dev.refs = 0 ∧ (closeSection u dev ret).dev.nwriters = 0 := by
  unfold closeSection
  rw [if_neg h]
  exact ⟨rfl, rfl, rfl, rfl⟩

theorem Inv.close_lists (I : Inv s) (h : (s.users i).phase ≠ .closed)
    (hsec : sec.phase = .closed) :
    (∀ j, j ∈ s.openers.erase i ↔ ((s.step i (s.users i) sec).users j).phase ≠ .closed) ∧
      (∀ j, j ∈ s.writers.erase i ↔ ((s.step i (s.users i) sec).users j).phase ≠ .closed ∧
        ((s.step i (s.users i) sec).users j).wrok = true) ∧
      (s.openers.erase i).length = s.openers.length - 1 ∧
      (s.writers.erase i).length =
        (if (s.users i).wrok then s.writers.length - 1 else s.writers.length) := by
  refine ⟨fun j => ?_, fun j => ?_, List.length_erase_of_mem ((I.opened i).mpr h), ?_⟩
  · rw [I.openers.mem_erase_iff]
    by_cases he : j = i
    · subst he
      rw [step_self, hsec]
      exact ⟨fun hm => absurd rfl hm.1, fun hc => absurd rfl hc⟩
    · rw [step_other he, ← I.opened j]
      exact ⟨fun hm => hm.2, fun hm => ⟨he, hm⟩⟩
  · rw [I.writers.mem_erase_iff]
    by_cases he : j = i
    · subst he
      rw [step_self, hsec]
      exact ⟨fun hm => absurd rfl hm.1, fun hc => absurd rfl hc.1⟩
    · rw [step_other he, step_other_wrok he, ← I.writing j]
      exact ⟨fun hm => hm.2, fun hm => ⟨he, hm⟩⟩
  · by_cases hw : (s.users i).wrok = true
    · rw [if_pos hw]
      exact List.length_erase_of_mem ((I.writing i).mpr ⟨h, hw⟩)
    · rw [if_neg hw, List.erase_of_not_mem fun hm => hw ((I.writing i).mp hm).2]

theorem Inv.close_flight (I : Inv s) (hsec : sec.phase = .closed) (j : Nat) (buffer : Nat → UInt8)
    (len nwritten last : Nat) (hp : ((s.step i (s.users i) sec).users j).phase =
      .writing buffer len nwritten last) : nwritten < len := by
  by_cases he : j = i
  · subst he
    rw [step_self, hsec] at hp
    cases hp
  · rw [step_other he] at hp
    exact I.flight j buffer len nwritten last hp

theorem Inv.close_more (I : Inv s) (h : (s.users i).phase ≠ .closed)
    (hflight : (s.users i).phase.inFlight = []) (ret : Int) (hmore : s.dev.refs > 1) :
    Inv ((s.step i (s.users i) (closeSection (s.users i) s.dev ret)).left i) := by
  obtain ⟨hsize, hphase, htaken, hstored, hrep⟩ := closeSection_fields (s.users i) s.dev ret
  obtain ⟨hopen, hwrite, hlen, hwlen⟩ := I.close_lists h hphase
  have hle := I.writers_le
  have hfew := I.few
  have hrefs := I.refs
  obtain ⟨hwr, hrd, hcont, hrefs', hnw⟩ := closeSection_more (u := s.users i) s.dev ret hmore
  have hne : s.openers.erase i ≠ [] := fun hc => by
    rw [hc] at hlen
    simp only [List.length_nil] at hlen
    omega
  have hleft : (s.step i (s.users i) (closeSection (s.users i) s.dev ret)).left i =
      { s.step i (s.users i) (closeSection (s.users i) s.dev ret) with
        openers := s.openers.erase i
        writers := s.writers.erase i } := if_neg hne
  rw [hleft]
  refine ⟨⟨?_, ?_⟩, I.openers.erase i, hopen, I.writers.erase i, hwrite, ?_, ?_, ?_, ?_,
    I.step_sent rfl (by rw [hflight, hstored, hrep, hphase]; rfl), I.close_flight hphase⟩
  · show (closeSection (s.users i) s.dev ret).dev.wrndx < _
    rw [hwr]
    exact hsize.symm ▸ I.wf.wrndx
  · show (closeSection (s.users i) s.dev ret).dev.rdndx < _
    rw [hrd]
    exact hsize.symm ▸ I.wf.rdndx
  · show (closeSection (s.users i) s.dev ret).dev.refs = (s.openers.erase i).length
    rw [hrefs', hlen, hrefs]
  · show (closeSection (s.users i) s.dev ret).dev.nwriters = (s.writers.erase i).length
    rw [hnw, hwlen, I.nwriters]
    split
    · rename_i hw
      have hwpos := List.length_pos_of_mem ((I.writing i).mpr ⟨h, hw⟩)
      unfold toByte
      omega
    · rfl
  · show (s.openers.erase i).length ≤ 255
    omega
  · show (s.step i (s.users i) (closeSection (s.users i) s.dev ret)).stored.map Prod.snd =
      (s.taken ++ (closeSection (s.users i) s.dev ret).taken) ++
        (closeSection (s.users i) s.dev ret).dev.contents
    rw [step_stored, hstored, htaken, hcont, List.append_nil, List.append_nil]
    exact I.log

theorem Inv.close_last (I : Inv s) (h : (s.users i).phase ≠ .closed) (ret : Int)
    (hmore : ¬ s.dev.refs > 1) :
    Inv ((s.step i (s.users i) (closeSection (s.users i) s.dev ret)).left i) := by
  obtain ⟨hsize, hphase, htaken, hstored, hrep⟩ := closeSection_fields (s.users i) s.dev ret
  obtain ⟨hopen, hwrite, hlen, hwlen⟩ := I.close_lists h hphase
  have hfew := I.few
  have hrefs := I.refs
  have hpos : 0 < s.openers.length := List.length_pos_of_mem ((I.opened i).mpr h)
  obtain ⟨hwr, hrd, hrefs', hnw⟩ := closeSection_last (u := s.users i) s.dev ret hmore
  have hnil : s.openers.erase i = [] := List.length_eq_zero_iff.mp (by omega)
  have hleft : (s.step i (s.users i) (closeSection (s.users i) s.dev ret)).left i =
      { s.step i (s.users i) (closeSection (s.users i) s.dev ret) with
        openers := s.openers.erase i
        writers := s.writers.erase i
        stored := []
        taken := []
        reports := [] } := if_pos hnil
  have hclosed : ∀ j,
      ((s.step i (s.users i) (closeSection (s.users i) s.dev ret)).users j).phase = .closed := by
    intro j
    by_contra hc
    have := (hopen j).mpr hc
    rw [hnil] at this
    cases this
  have hwnil : s.writers.erase i = [] := by
    rw [List.eq_nil_iff_forall_not_mem]
    exact fun j hj => ((hwrite j).mp hj).1 (hclosed j)
  have hcontents : (closeSection (s.users i) s.dev ret).dev.contents = [] := by
    rw [PipeDev.contents, hwr, hrd, contents_self]
  rw [hleft]
  refine ⟨⟨?_, ?_⟩, I.openers.erase i, hopen, I.writers.erase i, hwrite, ?_, ?_, ?_, ?_,
    fun j => ?_, I.close_flight hphase⟩
  · show (closeSection (s.users i) s.dev ret).dev.wrndx < _
    rw [hwr]
    exact hsize.symm ▸ s.dev.size_pos
  · show (closeSection (s.users i) s.dev ret).dev.rdndx < _
    rw [hrd]
    exact hsize.symm ▸ s.dev.size_pos
  · show (closeSection (s.users i) s.dev ret).dev.refs = (s.openers.erase i).length
    rw [hrefs', hnil]
    rfl
  · show (closeSection (s.users i) s.dev ret).dev.nwriters = (s.writers.erase i).length
    rw [hnw, hwnil]
    rfl
  · show (s.openers.erase i).length ≤ 255
    omega
  · exact hcontents.symm
  · show [] = [] ++ ((s.step i (s.users i)
      (closeSection (s.users i) s.dev ret)).users j).phase.inFlight
    rw [hclosed j]
    rfl

theorem Inv.close (I : Inv s) (h : (s.users i).phase ≠ .closed)
    (hflight : (s.users i).phase.inFlight = []) (ret : Int) :
    Inv ((s.step i (s.users i) (closeSection (s.users i) s.dev ret)).left i) := by
  by_cases hmore : s.dev.refs > 1
  · exact I.close_more h hflight ret hmore
  · exact I.close_last h ret hmore

theorem Inv.exec (I : Inv s) {a : Op} {s' : State} (hv : a.valid s) (he : a.exec s = some s') :
    Inv s' := by
  cases a with
  | «open» i rdok wrok nonblock =>
    cases he
    exact I.open hv.1 hv.2 rfl
  | close i =>
    cases he
    have hp : (s.users i).phase = .idle := hv
    exact I.close (by rw [hp]; exact fun hc => (by cases hc)) (by rw [hp]; rfl) 0
  | read i len =>
    cases he
    have hp : (s.users i).phase = .idle := hv.1
    exact I.step (by rw [hp]; exact fun hc => (by cases hc))
      (Fair.read I.wf (by rw [hp]; rfl) len)
  | write i buffer len =>
    cases he
    have hp : (s.users i).phase = .idle := hv.1
    exact I.step (by rw [hp]; exact fun hc => (by cases hc))
      (Fair.write I.wf (by rw [hp]; rfl) hv.2.2.1)
  | resume i =>
    rw [Op.exec] at he
    split at he
    · rename_i hp
      cases he
      exact I.step (by rw [hp]; exact fun hc => (by cases hc))
        (Fair.leave I.wf (by rw [hp]; rfl) 0)
    · rename_i len hp
      cases he
      exact I.step (by rw [hp]; exact fun hc => (by cases hc))
        (Fair.read I.wf (by rw [hp]; rfl) len)
    · rename_i buffer len nwritten last hp
      cases he
      exact I.step (by rw [hp]; exact fun hc => (by cases hc))
        (Fair.write I.wf (by rw [hp]; rfl) (I.flight i buffer len nwritten last hp))
    · cases he
  | interrupt i =>
    rw [Op.exec] at he
    split at he
    · rename_i hp
      cases he
      exact I.close (by rw [hp]; exact fun hc => (by cases hc)) (by rw [hp]; rfl) eintr
    · rename_i len hp
      cases he
      exact I.step (by rw [hp]; exact fun hc => (by cases hc))
        (Fair.leave I.wf (by rw [hp]; rfl) (-1))
    · cases he

theorem Start.inv (h : Start s) : Inv s := by
  obtain ⟨hwr, hrd, hrefs, hnw⟩ := h.dev
  obtain ⟨hop, hwo⟩ := h.lists
  obtain ⟨hst, htk, hrp⟩ := h.logs
  have hpos := s.dev.size_pos
  refine ⟨⟨hwr ▸ hpos, hrd ▸ hpos⟩, hop ▸ List.nodup_nil, fun i => ?_, hwo ▸ List.nodup_nil,
    fun i => ?_, by rw [hrefs, hop]; rfl, by rw [hnw, hwo]; rfl, by rw [hop]; exact Nat.zero_le _,
    ?_, fun i => ?_, fun i buffer len nwritten last hp => ?_⟩
  · rw [hop]
    exact ⟨fun hm => (by cases hm), fun hc => absurd (h.closed i) hc⟩
  · rw [hwo]
    exact ⟨fun hm => (by cases hm), fun hc => absurd (h.closed i) hc.1⟩
  · rw [hst, htk, PipeDev.contents, hwr, hrd, contents_self]
    rfl
  · rw [hst, hrp, h.closed i]
    rfl
  · rw [h.closed i] at hp
    cases hp

/-- A read of at least one byte returns zero for an empty buffer without writers only. -/
theorem readSection_zero (W : dev.Wf) (hlen : 0 < len)
    (h : (readSection u dev len).ret = some 0) : dev.contents = [] ∧ dev.nwriters = 0 := by
  unfold readSection at h
  split at h
  · rename_i he
    split at h
    · cases h
    · split at h
      · rename_i hn
        exact ⟨W.contents_nil.mpr he, hn⟩
      · cases h
  · rename_i hne
    have hsome := (W.drained len).some hlen hne
    have hz : ((dev.drain len).1.length : Int) = 0 := Option.some.inj h
    have : (dev.drain len).1.length = 0 := by omega
    exact absurd (List.length_eq_zero_iff.mp this) hsome

theorem Inv.ends (I : Inv s) {a : Op} (h : a.ReadsEnd s) :
    s.dev.contents = [] ∧ ∀ j, (s.users j).phase ≠ .closed → (s.users j).wrok = false := by
  have hzero : s.dev.contents = [] ∧ s.dev.nwriters = 0 := by
    cases a with
    | read i len => exact readSection_zero I.wf h.1 h.2
    | resume i =>
      rw [Op.ReadsEnd] at h
      split at h
      · exact readSection_zero I.wf h.1 h.2
      · exact absurd h id
    | _ => exact absurd h id
  refine ⟨hzero.1, fun j hj => ?_⟩
  by_contra hw
  have hm := (I.writing j).mpr ⟨hj, by simpa using hw⟩
  have hlen := List.length_pos_of_mem hm
  have := I.nwriters
  omega

theorem Inv.correct (I : Inv s) : Correct s := by
  have hlt : s.dev.contents.length < s.dev.size := by
    rw [PipeDev.contents, length_contents]
    exact count_lt I.wf.rdndx I.wf.wrndx
  have hlog := congrArg List.length I.log
  rw [List.length_map, List.length_append] at hlog
  exact ⟨⟨s.dev.contents, I.log.symm⟩, I.sent, ⟨I.wf.wrndx, I.wf.rdndx⟩, ⟨hlog, by omega⟩,
    fun _ _ h => I.ends h⟩

end

/-- Bytes leave a pipe in the order in which they were stored, each writer has stored what
its calls reported and what its waiting call has in flight, and a reader gets end of file
only from an empty pipe that nobody has open for writing. -/
theorem pipe_stream {s : State} (h : Reachable pipeMachine Start s) : Correct s := by
  have I : Inv s := by
    apply Reach.invariant (I := Inv) (fun _ hs => hs.inv) _ h
    intro s a s' I hv _ he
    exact I.exec hv he
  exact I.correct

def created : State where
  dev := ⟨3, 0, 0, 0, 0, fun _ => 0, by decide⟩
  users _ := ⟨false, false, false, .closed, false⟩
  openers := []
  writers := []
  stored := []
  taken := []
  reports := []

theorem created_start : Start created :=
  ⟨fun _ => rfl, ⟨rfl, rfl, rfl, rfl⟩, ⟨rfl, rfl⟩, rfl, rfl, rfl⟩

instance (p : Phase) : Decidable (p = .closed) :=
  match p with
  | .closed => .isTrue rfl
  | .idle => .isFalse fun h => (by cases h)
  | .opening => .isFalse fun h => (by cases h)
  | .reading _ => .isFalse fun h => (by cases h)
  | .writing _ _ _ _ => .isFalse fun h => (by cases h)

instance (p : Phase) : Decidable (p = .idle) :=
  match p with
  | .idle => .isTrue rfl
  | .closed => .isFalse fun h => (by cases h)
  | .opening => .isFalse fun h => (by cases h)
  | .reading _ => .isFalse fun h => (by cases h)
  | .writing _ _ _ _ => .isFalse fun h => (by cases h)

instance (s : State) : ∀ a : Op, Decidable (pipeMachine.valid s a)
  | .open _ _ _ _ => inferInstanceAs (Decidable (_ ∧ _))
  | .close i => inferInstanceAs (Decidable ((s.users i).phase = .idle))
  | .read i _ => inferInstanceAs (Decidable ((s.users i).phase = .idle ∧ _))
  | .write i _ _ => inferInstanceAs (Decidable ((s.users i).phase = .idle ∧ _))
  | .resume _ => inferInstanceAs (Decidable (_ = _))
  | .interrupt _ => inferInstanceAs (Decidable True)

/-- A reader opens first and waits. The writer has four bytes and waits for the reader. -/
def fourBytes : List Op :=
  [.open 0 true false false, .open 1 false true false, .resume 0,
    .write 1 (fun i => UInt8.ofNat (i + 5)) 4, .read 0 1]

theorem pipe_stream_run : ∃ s, runAll pipeMachine (fun _ _ => True) created
      (fourBytes ++ [.resume 1, .read 0 9, .resume 1, .close 1, .read 0 9]) = some s ∧
      s.taken = [5, 6, 7, 8] ∧ s.reports.map Prod.snd = [5, 6, 7, 8] ∧ Correct s :=
  have h : ∃ s, runAll pipeMachine (fun _ _ => True) created
      (fourBytes ++ [.resume 1, .read 0 9, .resume 1, .close 1, .read 0 9]) = some s ∧
      s.taken = [5, 6, 7, 8] ∧ s.reports.map Prod.snd = [5, 6, 7, 8] := by
    decide +kernel
  h.elim fun s hs =>
    ⟨s, hs.1, hs.2.1, hs.2.2, pipe_stream (.runAll (.init created_start) hs.1)⟩

/-- A reader has taken a byte of a write that has reported nothing yet, and a read of
length zero returns zero while there is a byte and a writer. -/
theorem taken_before_reported : ∃ s, Reachable pipeMachine Start s ∧
    ¬ s.taken <+: s.reports.map Prod.snd ∧
      (readSection (s.users 0) s.dev 0).ret = some 0 ∧ s.dev.contents ≠ [] := by
  have h : ∃ s, runAll pipeMachine (fun _ _ => True) created fourBytes = some s ∧
      s.taken = [5] ∧ s.reports = [] ∧ (readSection (s.users 0) s.dev 0).ret = some 0 ∧
      s.dev.contents = [6] := by
    decide +kernel
  obtain ⟨s, hs, htaken, hreports, hret, hcontents⟩ := h
  refine ⟨s, .runAll (.init created_start) hs, fun hp => ?_, hret, fun hc => ?_⟩
  · rw [htaken, hreports] at hp
    have := hp.length_le
    exact absurd this (by decide)
  · rw [hc] at hcontents
    cases hcontents

end NuttxAvr32.Drivers.Pipe
