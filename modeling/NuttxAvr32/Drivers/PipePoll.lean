import NuttxAvr32.Drivers.Pipe

/-! # Polling a pipe

`pipecommon_poll` beside the reads and writes of the pipe: the table `d_fds` of those who
poll, and the notifications that the exits of the loops make.
-/

namespace NuttxAvr32.Drivers.Pipe

open Ring Runs

structure Events where
  input : Bool
  output : Bool
deriving DecidableEq, Repr

namespace Events

def none : Events := ⟨false, false⟩

def union (a b : Events) : Events := ⟨a.input || b.input, a.output || b.output⟩

def inter (a b : Events) : Events := ⟨a.input && b.input, a.output && b.output⟩

end Events

structure Pollfd where
  events : Events
  revents : Events
  posts : Nat
deriving DecidableEq, Repr

def Pollfd.notify (eventset : Events) (f : Pollfd) : Pollfd :=
  let revents := f.revents.union (f.events.inter eventset)
  { f with
    revents := revents
    posts := if revents ≠ .none then f.posts + 1 else f.posts }

abbrev Waiters := List (Option Pollfd)

def pollnotify (fds : Waiters) (eventset : Events) : Waiters :=
  fds.map (Option.map (Pollfd.notify eventset))

def PipeDev.nbytes (dev : PipeDev) : Nat :=
  if dev.wrndx ≥ dev.rdndx then dev.wrndx - dev.rdndx else dev.size - 1 + dev.wrndx - dev.rdndx

def PipeDev.eventset (dev : PipeDev) : Events :=
  ⟨decide (dev.nbytes > 0), decide (dev.nbytes < dev.size - 1)⟩

/-- `pipecommon_poll` at setup, with the entry that it takes; `none` is `-EBUSY`. -/
def pollSetup (dev : PipeDev) (fds : Waiters) (f : Pollfd) : Option (Nat × Waiters) :=
  (fds.findIdx? Option.isNone).map fun k =>
    let fds := fds.set k (some f)
    (k, if dev.eventset ≠ .none then pollnotify fds dev.eventset else fds)

/-- A read that takes bytes notifies `POLLOUT`, where it posts the writers. A write notifies
`POLLIN` where it returns its whole length, and at no other exit. -/
def Op.notifies (s : State) : Op → Events
  | read i len => ⟨false, (readSection (s.users i) s.dev len).postsWriters⟩
  | write _ buffer len => ⟨(s.dev.fill buffer (len - 1) 0).2.2, false⟩
  | resume i =>
      match (s.users i).phase with
      | .reading len => ⟨false, (readSection (s.users i) s.dev len).postsWriters⟩
      | .writing buffer len nwritten _ =>
          ⟨(s.dev.fill buffer (len - nwritten - 1) nwritten).2.2, false⟩
      | _ => .none
  | _ => .none

structure Polled where
  pipe : State
  fds : Waiters

inductive PollOp
  | pipe (op : Op)
  | setup (f : Pollfd)
  | teardown (k : Nat)

def Polled.after (s : Polled) (op : Op) (pipe : State) : Polled :=
  ⟨pipe, if op.notifies s.pipe ≠ .none then pollnotify s.fds (op.notifies s.pipe) else s.fds⟩

def PollOp.exec (s : Polled) : PollOp → Option Polled
  | pipe op => (op.exec s.pipe).map (s.after op)
  | setup f =>
      match pollSetup s.pipe.dev s.fds f with
      | none => some s
      | some r => some { s with fds := r.2 }
  | teardown k => some { s with fds := s.fds.set k none }

def PollOp.valid (s : Polled) : PollOp → Prop
  | pipe op => op.valid s.pipe
  | setup f => f.revents = .none
  | teardown _ => True

def pollMachine : Machine Polled PollOp where
  valid s i := i.valid s
  exec s i := i.exec s

structure PollStart (s : Polled) : Prop where
  pipe : Start s.pipe
  fds : ∀ f ∈ s.fds, f = none

/-- Every read of at least one byte returns data without blocking. -/
def Readable (dev : PipeDev) : Prop :=
  ∀ u len, u.nonblock = false → 0 < len → (readSection u dev len).taken ≠ []

/-- Every write of one byte returns without blocking. -/
def Writable (dev : PipeDev) : Prop :=
  ∀ u buffer, u.nonblock = false → (writeSection u dev buffer 1 0 0).phase = .idle

/-- Those who poll for the input or the output get a post if there is something to read, or
room to write, that was not there before. -/
structure Announced (s s' : Polled) : Prop where
  input : s.pipe.dev.contents = [] → s'.pipe.dev.contents ≠ [] → ∀ (k : Nat) (f : Pollfd),
    s.fds[k]? = some (some f) → f.events.input = true →
      ∃ f' : Pollfd, s'.fds[k]? = some (some f') ∧ f.posts < f'.posts
  output : s.pipe.dev.full → ¬ s'.pipe.dev.full → ∀ (k : Nat) (f : Pollfd),
    s.fds[k]? = some (some f) → f.events.output = true →
      ∃ f' : Pollfd, s'.fds[k]? = some (some f') ∧ f.posts < f'.posts

def Op.Transfers : Op → Prop
  | read _ _ => True
  | write _ _ _ => True
  | resume _ => True
  | _ => False

def PollOp.Right (s : Polled) : PollOp → Prop
  | pipe op => op.Transfers → ∀ p, op.exec s.pipe = some p → Announced s (s.after op p)
  | setup f => ∀ r, pollSetup s.pipe.dev s.fds f = some r →
      ∃ g : Pollfd, r.2[r.1]? = some (some g) ∧
        (g.revents.input = true ↔ f.events.input = true ∧ Readable s.pipe.dev) ∧
        (g.revents.output = true ↔ f.events.output = true ∧ Writable s.pipe.dev)
  | teardown _ => True

/-- The contents wrap round, and it matters that they are counted one short. -/
def Miscounts (dev : PipeDev) (events : Events) : Prop :=
  dev.wrndx < dev.rdndx ∧
    (events.input = true ∧ dev.contents.length = 1 ∨ events.output = true ∧ dev.full)

/-- A write into the empty pipe fills it and waits, or gives up, with the rest. -/
def Silent (s : Polled) (rest : Nat) : Prop :=
  s.pipe.dev.contents = [] ∧ 1 < s.pipe.dev.size ∧ s.pipe.dev.size ≤ rest ∧
    ∃ f : Pollfd, some f ∈ s.fds ∧ f.events.input = true

def PollOp.keeps (s : Polled) : PollOp → Prop
  | pipe (.write _ _ len) => ¬ Silent s len
  | pipe (.resume i) =>
      match (s.pipe.users i).phase with
      | .writing _ len nwritten _ => ¬ Silent s (len - nwritten)
      | _ => True
  | setup f => s.fds.findIdx? Option.isNone = none ∨ ¬ Miscounts s.pipe.dev f.events
  | _ => True

section

variable {dev : PipeDev} {buffer : Nat → UInt8} {rest nwritten : Nat}

theorem PipeDev.Wf.length_lt (W : dev.Wf) : dev.contents.length < dev.size := by
  rw [PipeDev.contents, length_contents]
  exact count_lt W.rdndx W.wrndx

theorem PipeDev.Wf.full_iff (W : dev.Wf) : dev.full ↔ dev.contents.length + 1 = dev.size := by
  have hw := W.wrndx
  have hr := W.rdndx
  rw [PipeDev.full, PipeDev.contents, length_contents, Ring.next, Ring.count]
  split <;> split <;> omega

theorem PipeDev.fill_full (h : (dev.fill buffer rest nwritten).2.2 = false) :
    (dev.fill buffer rest nwritten).1.full := by
  induction rest generalizing dev nwritten with
  | zero =>
    rw [PipeDev.fill] at h ⊢
    split at h
    · rename_i hf
      rwa [if_pos hf]
    · cases h
  | succ rest ih =>
    rw [PipeDev.fill] at h ⊢
    split at h
    · rename_i hf
      rwa [if_pos hf]
    · rename_i hf
      rw [if_neg hf]
      exact ih h

theorem PipeDev.Wf.fill_done_iff (W : dev.Wf) (he : dev.contents = []) :
    (dev.fill buffer rest nwritten).2.2 = true ↔ rest + 1 < dev.size := by
  have F := W.filled buffer rest nwritten
  have hlen := congrArg List.length F.contents
  rw [he, List.nil_append, List.length_map, List.length_range] at hlen
  have hlt := F.wf.length_lt
  rw [F.same.size] at hlt
  cases hd : (dev.fill buffer rest nwritten).2.2 with
  | true =>
    have := F.done hd
    exact ⟨fun _ => by omega, fun _ => rfl⟩
  | false =>
    have hfull := F.wf.full_iff.mp (PipeDev.fill_full hd)
    have := F.pending hd
    rw [F.same.size] at hfull
    exact ⟨fun h => (by cases h), fun _ => by omega⟩

theorem PipeDev.fill_of_full (h : dev.full) :
    dev.fill buffer rest nwritten = (dev, nwritten, false) := by
  cases rest with
  | zero => exact if_pos h
  | succ rest => exact if_pos h

theorem readSection_empty (u : User) (len : Nat) (h : dev.wrndx = dev.rdndx) :
    (readSection u dev len).dev = dev ∧ (readSection u dev len).taken = [] := by
  unfold readSection
  rw [if_pos h]
  split
  · exact ⟨rfl, rfl⟩
  · split
    · exact ⟨rfl, rfl⟩
    · exact ⟨rfl, rfl⟩

theorem readSection_nonempty (u : User) (len : Nat) (h : dev.wrndx ≠ dev.rdndx) :
    (readSection u dev len).dev = (dev.drain len).2 ∧
      (readSection u dev len).taken = (dev.drain len).1 ∧
      (readSection u dev len).postsWriters = true := by
  unfold readSection
  rw [if_neg h]
  exact ⟨rfl, rfl, rfl⟩

theorem writeSection_dev (u : User) (len last : Nat) :
    (writeSection u dev buffer len nwritten last).dev =
      (dev.fill buffer (len - nwritten - 1) nwritten).1 := by
  unfold writeSection
  dsimp only
  split
  · rfl
  · split
    · rfl
    · rfl

theorem PipeDev.Wf.readable_iff (W : dev.Wf) : Readable dev ↔ dev.contents ≠ [] := by
  rw [Ne, W.contents_nil]
  constructor
  · intro h he
    exact h ⟨true, false, false, .idle, false⟩ 1 rfl Nat.one_pos (readSection_empty _ 1 he).2
  · intro h u len _ hlen
    rw [(readSection_nonempty u len h).2.1]
    exact (W.drained len).some hlen h

theorem writable_iff : Writable dev ↔ ¬ dev.full := by
  constructor
  · intro h hf
    have hw := h ⟨false, true, false, .idle, false⟩ (fun _ => 0) rfl
    unfold writeSection at hw
    rw [PipeDev.fill_of_full hf] at hw
    cases hw
  · intro h u buffer _
    unfold writeSection
    rw [PipeDev.fill, if_neg h]
    rfl

theorem PipeDev.Wf.eventset_input (W : dev.Wf) :
    dev.eventset.input = true ↔ dev.contents ≠ [] ∧
      ¬ (dev.wrndx < dev.rdndx ∧ dev.contents.length = 1) := by
  have hw := W.wrndx
  have hr := W.rdndx
  rw [Ne, W.contents_nil, PipeDev.contents, length_contents, Ring.count]
  simp only [PipeDev.eventset, PipeDev.nbytes]
  split
  · rw [decide_eq_true_iff]
    omega
  · rw [decide_eq_true_iff]
    omega

theorem PipeDev.Wf.eventset_output (W : dev.Wf) :
    dev.eventset.output = true ↔ ¬ dev.full ∨ dev.wrndx < dev.rdndx := by
  have hw := W.wrndx
  have hr := W.rdndx
  rw [W.full_iff, PipeDev.contents, length_contents, Ring.count]
  simp only [PipeDev.eventset, PipeDev.nbytes]
  split
  · rw [decide_eq_true_iff]
    omega
  · rw [decide_eq_true_iff]
    omega

end

section

variable {dev : PipeDev} {fds : Waiters} {f : Pollfd} {r : Nat × Waiters} {k : Nat}

theorem getElem_pollnotify (eventset : Events) (h : fds[k]? = some (some f)) :
    (pollnotify fds eventset)[k]? = some (some (f.notify eventset)) := by
  rw [pollnotify, List.getElem?_map, h]
  rfl

theorem notify_posts {eventset : Events}
    (h : f.events.input = true ∧ eventset.input = true ∨
      f.events.output = true ∧ eventset.output = true) :
    f.posts < (f.notify eventset).posts := by
  have hne : f.revents.union (f.events.inter eventset) ≠ .none := by
    intro he
    have hi := congrArg Events.input he
    have ho := congrArg Events.output he
    simp only [Events.union, Events.inter, Events.none, Bool.or_eq_false_iff,
      Bool.and_eq_false_iff] at hi ho
    rcases h with h | h
    · rw [h.1, h.2] at hi
      rcases hi.2 with hc | hc <;> cases hc
    · rw [h.1, h.2] at ho
      rcases ho.2 with hc | hc <;> cases hc
  show f.posts < if f.revents.union (f.events.inter eventset) ≠ .none then f.posts + 1 else f.posts
  rw [if_pos hne]
  exact Nat.lt_succ_self _

theorem pollSetup_reports (hf : f.revents = .none) (h : pollSetup dev fds f = some r) :
    ∃ g : Pollfd, r.2[r.1]? = some (some g) ∧ g.revents = f.events.inter dev.eventset := by
  obtain ⟨k, hk, rfl⟩ := Option.map_eq_some_iff.mp h
  have hlt : k < fds.length := (List.findIdx?_eq_some_iff_getElem.mp hk).1
  have hset : (fds.set k (some f))[k]? = some (some f) := by
    rw [List.getElem?_set_self hlt]
  dsimp only
  split
  · refine ⟨_, getElem_pollnotify _ hset, ?_⟩
    show f.revents.union (f.events.inter dev.eventset) = _
    rw [hf]
    simp [Events.union, Events.none]
  · rename_i he
    refine ⟨f, hset, ?_⟩
    rw [hf, not_not.mp he]
    simp [Events.inter, Events.none]

theorem PipeDev.Wf.setup_right_iff (W : dev.Wf) (events : Events) :
    (((events.inter dev.eventset).input = true ↔ events.input = true ∧ Readable dev) ∧
      ((events.inter dev.eventset).output = true ↔ events.output = true ∧ Writable dev)) ↔
      ¬ Miscounts dev events := by
  rw [W.readable_iff, writable_iff]
  simp only [Events.inter, Bool.and_eq_true, W.eventset_input, W.eventset_output]
  have hone : dev.contents.length = 1 → dev.contents ≠ [] := by
    intro h hc
    rw [hc] at h
    cases h
  unfold Miscounts
  tauto

end

section

variable {s : Polled} {op : Op} {p : State} {f : Pollfd}

theorem after_posts {k : Nat} (hf : s.fds[k]? = some (some f))
    (h : f.events.input = true ∧ (op.notifies s.pipe).input = true ∨
      f.events.output = true ∧ (op.notifies s.pipe).output = true) :
    ∃ f' : Pollfd, (s.after op p).fds[k]? = some (some f') ∧ f.posts < f'.posts := by
  have hne : op.notifies s.pipe ≠ .none := by
    intro he
    rw [he] at h
    rcases h with h | h <;> cases h.2
  refine ⟨f.notify (op.notifies s.pipe), ?_, notify_posts h⟩
  show (if op.notifies s.pipe ≠ .none then pollnotify s.fds (op.notifies s.pipe) else s.fds)[k]? = _
  rw [if_pos hne]
  exact getElem_pollnotify _ hf

theorem announced_of_same (h : p.dev = s.pipe.dev) : Announced s (s.after op p) := by
  constructor
  · intro he hne
    exact absurd (show p.dev.contents = [] by rw [h, he]) hne
  · intro hf hnf
    exact absurd (show p.dev.full by rw [h]; exact hf) hnf

theorem announced_read (W : s.pipe.dev.Wf) (u : User) (len : Nat)
    (hdev : p.dev = (readSection u s.pipe.dev len).dev)
    (hn : op.notifies s.pipe = ⟨false, (readSection u s.pipe.dev len).postsWriters⟩) :
    Announced s (s.after op p) := by
  by_cases he : s.pipe.dev.wrndx = s.pipe.dev.rdndx
  · exact announced_of_same (hdev.trans (readSection_empty u len he).1)
  · constructor
    · intro hnil
      exact absurd (W.contents_nil.mp hnil) he
    · intro _ _ k f hf hout
      refine after_posts hf (.inr ⟨hout, ?_⟩)
      rw [hn]
      exact (readSection_nonempty u len he).2.2

theorem announced_write_iff (W : s.pipe.dev.Wf) {buffer : Nat → UInt8} {rest nwritten : Nat}
    (hdev : p.dev = (s.pipe.dev.fill buffer rest nwritten).1)
    (hn : op.notifies s.pipe = ⟨(s.pipe.dev.fill buffer rest nwritten).2.2, false⟩) :
    Announced s (s.after op p) ↔ ¬ Silent s (rest + 1) := by
  have F := W.filled buffer rest nwritten
  have hsize : p.dev.size = s.pipe.dev.size := by
    rw [hdev]
    exact F.same.size
  have W' : p.dev.Wf := by
    rw [hdev]
    exact F.wf
  constructor
  · intro A ⟨he, hone, hle, f, hmem, hin⟩
    have hpart : (s.pipe.dev.fill buffer rest nwritten).2.2 = false := by
      rw [← Bool.not_eq_true, W.fill_done_iff he]
      omega
    have hfull : p.dev.full := by
      rw [hdev]
      exact PipeDev.fill_full hpart
    have hlen := W'.full_iff.mp hfull
    have hne : p.dev.contents ≠ [] := by
      intro hc
      rw [hc, List.length_nil] at hlen
      omega
    obtain ⟨k, hk⟩ := List.mem_iff_getElem?.mp hmem
    obtain ⟨f', hf', hlt⟩ := A.input he hne k f hk hin
    rw [Polled.after, hn, hpart, if_neg (by decide), hk] at hf'
    cases hf'
    exact absurd hlt (Nat.lt_irrefl _)
  · intro hS
    constructor
    · intro he hne k f hf hin
      have hpos : p.dev.contents.length ≠ 0 := fun hc => hne (List.length_eq_zero_iff.mp hc)
      have hlt := W'.length_lt
      refine after_posts hf (.inl ⟨hin, ?_⟩)
      rw [hn]
      refine (W.fill_done_iff he).mpr ?_
      by_contra hge
      exact hS ⟨he, by omega, by omega, f, List.mem_of_getElem? hf, hin⟩
    · intro hf hnf
      refine absurd ?_ hnf
      show p.dev.full
      rw [hdev, PipeDev.fill_of_full hf]
      exact hf

theorem right_setup_iff (W : s.pipe.dev.Wf) (hf : f.revents = .none) :
    (PollOp.setup f).Right s ↔ (PollOp.setup f).keeps s := by
  unfold PollOp.Right PollOp.keeps
  dsimp only
  cases hk : s.fds.findIdx? Option.isNone with
  | none =>
    have hbusy : pollSetup s.pipe.dev s.fds f = none := by
      rw [pollSetup, hk]
      rfl
    rw [hbusy]
    exact ⟨fun _ => .inl rfl, fun _ r hr => (by cases hr)⟩
  | some k =>
    obtain ⟨r, hr⟩ : ∃ r, pollSetup s.pipe.dev s.fds f = some r := by
      rw [pollSetup, hk]
      exact ⟨_, rfl⟩
    obtain ⟨g, hg, hrep⟩ := pollSetup_reports hf hr
    have hiff := W.setup_right_iff f.events
    rw [← hrep] at hiff
    constructor
    · intro h
      obtain ⟨g', hg', hright⟩ := h r hr
      rw [hg] at hg'
      cases hg'
      exact .inr (hiff.mp hright)
    · intro h r' hr'
      rw [hr] at hr'
      cases hr'
      exact ⟨g, hg, hiff.mpr (h.resolve_left (fun hc => (by cases hc)))⟩

theorem right_iff (I : Inv s.pipe) {a : PollOp} (hv : a.valid s) : a.Right s ↔ a.keeps s := by
  cases a with
  | setup f => exact right_setup_iff I.wf hv
  | teardown k => exact Iff.rfl
  | pipe op =>
    unfold PollOp.Right
    cases op with
    | «open» _ _ _ _ => exact ⟨fun _ => trivial, fun _ h => absurd h id⟩
    | close _ => exact ⟨fun _ => trivial, fun _ h => absurd h id⟩
    | interrupt _ => exact ⟨fun _ => trivial, fun _ h => absurd h id⟩
    | read i len =>
      refine ⟨fun _ => trivial, fun _ _ p hp => ?_⟩
      cases hp
      exact announced_read I.wf _ _ rfl rfl
    | write i buffer len =>
      have hpos : len - 1 + 1 = len := Nat.sub_add_cancel hv.2.2.1
      have hiff : Announced s (s.after (.write i buffer len)
          (s.pipe.step i (s.pipe.users i)
            (writeSection (s.pipe.users i) s.pipe.dev buffer len 0 0))) ↔
      ¬ Silent s (len - 1 + 1) :=
        announced_write_iff I.wf (writeSection_dev _ _ _) rfl
      rw [hpos] at hiff
      constructor
      · intro h
        exact hiff.mp (h trivial _ rfl)
      · intro h _ p hp
        cases hp
        exact hiff.mpr h
    | resume i =>
      unfold PollOp.keeps
      dsimp only [Op.exec]
      cases hp : (s.pipe.users i).phase with
      | closed => exact ⟨fun _ => trivial, fun _ _ p hq => (by cases hq)⟩
      | idle => exact ⟨fun _ => trivial, fun _ _ p hq => (by cases hq)⟩
      | opening =>
        refine ⟨fun _ => trivial, fun _ _ p hq => ?_⟩
        cases hq
        exact announced_of_same rfl
      | reading len =>
        refine ⟨fun _ => trivial, fun _ _ p hq => ?_⟩
        cases hq
        refine announced_read I.wf (s.pipe.users i) len rfl ?_
        simp only [Op.notifies, hp]
      | writing buffer len nwritten last =>
        have hlt := I.flight i buffer len nwritten last hp
        have hpos : len - nwritten - 1 + 1 = len - nwritten := by omega
        have hiff : Announced s (s.after (.resume i) (s.pipe.step i (s.pipe.users i)
            (writeSection (s.pipe.users i) s.pipe.dev buffer len nwritten last))) ↔
              ¬ Silent s (len - nwritten - 1 + 1) := by
          refine announced_write_iff I.wf (writeSection_dev _ _ _) ?_
          simp only [Op.notifies, hp]
        rw [hpos] at hiff
        constructor
        · intro h
          exact hiff.mp (h trivial _ rfl)
        · intro h _ p hq
          cases hq
          exact hiff.mpr h

theorem PollOp.exec_inv (I : Inv s.pipe) {a : PollOp} {s' : Polled} (hv : a.valid s)
    (he : a.exec s = some s') : Inv s'.pipe := by
  cases a with
  | pipe op =>
    obtain ⟨p, hp, rfl⟩ := Option.map_eq_some_iff.mp he
    exact I.exec hv hp
  | setup f =>
    unfold PollOp.exec at he
    dsimp only at he
    split at he <;> cases he <;> exact I
  | teardown k =>
    cases he
    exact I

theorem polled_inv (h : Reachable pollMachine PollStart s) : Inv s.pipe := by
  apply Reach.invariant (I := fun s => Inv s.pipe) (fun _ hs => hs.pipe.inv) _ h
  intro s a s' I hv _ he
  exact a.exec_inv I hv he

end

/-- In every state reached, a setup reports what can be done, and a step of a read or write
makes the posts it has to, exactly under the condition. -/
theorem poll_ready_iff {s : Polled} (h : Reachable pollMachine PollStart s) (a : PollOp)
    (hv : a.valid s) : a.Right s ↔ a.keeps s :=
  right_iff (polled_inv h) hv

def polledStart : Polled := ⟨created, [none, none]⟩

theorem polledStart_start : PollStart polledStart := ⟨created_start, by
  intro f hf
  simpa [polledStart] using hf⟩

instance (s : Polled) : ∀ a : PollOp, Decidable (pollMachine.valid s a)
  | .pipe op => inferInstanceAs (Decidable (pipeMachine.valid s.pipe op))
  | .setup _ => inferInstanceAs (Decidable (_ = _))
  | .teardown _ => inferInstanceAs (Decidable True)

/-- One who polls for input, and one who polls for output. -/
def wantInput : Pollfd := ⟨⟨true, false⟩, .none, 0⟩
def wantOutput : Pollfd := ⟨⟨false, true⟩, .none, 0⟩

def bothPoll : List PollOp :=
  [.pipe (.open 0 true false false), .pipe (.open 1 false true false), .pipe (.resume 0),
    .setup wantInput, .setup wantOutput]

theorem bothPoll_run : ∃ s, runAll pollMachine (fun _ _ => True) polledStart bothPoll = some s ∧
    s.pipe.dev.contents = [] ∧ s.pipe.dev.size = 3 ∧ s.fds[0]? = some (some wantInput) ∧
      (s.pipe.users 1).phase = .idle ∧ (s.pipe.users 1).wrok = true := by
  refine ⟨_, rfl, ?_⟩
  exact ⟨rfl, rfl, rfl, rfl, rfl⟩

/-- Two bytes are written, and who polls for input gets a post. -/
theorem poll_ready_two : ∃ s, Reachable pollMachine PollStart s ∧
    (PollOp.pipe (.write 1 (fun _ => 7) 2)).Right s := by
  obtain ⟨s, hs, -, hsize, -, hidle, hwrok⟩ := bothPoll_run
  have hr : Reachable pollMachine PollStart s := .runAll (.init polledStart_start) hs
  refine ⟨s, hr, (poll_ready_iff hr (.pipe (.write 1 (fun _ => 7) 2))
    ⟨hidle, hwrok, by decide, by decide⟩).mpr fun h => ?_⟩
  have hle := h.2.2.1
  rw [hsize] at hle
  cases hle with
  | step h => cases h with
    | step h => cases h

/-- One byte that wraps round is not reported, and a write of four bytes into the empty pipe
puts two there without a post. -/
theorem poll_not_ready :
    (∃ s, Reachable pollMachine PollStart s ∧ s.pipe.dev.contents = [7] ∧
      ¬ (PollOp.setup wantInput).Right s) ∧
    ∃ s, Reachable pollMachine PollStart s ∧ s.pipe.dev.contents = [] ∧
      ¬ (PollOp.pipe (.write 1 (fun _ => 7) 4)).Right s := by
  constructor
  · have h : ∃ s, runAll pollMachine (fun _ _ => True) polledStart
        [.pipe (.open 0 true false false), .pipe (.open 1 false true false), .pipe (.resume 0),
          .pipe (.write 1 (fun _ => 7) 2), .pipe (.read 0 2), .pipe (.write 1 (fun _ => 7) 1)] =
          some s ∧ s.pipe.dev.contents = [7] ∧ s.pipe.dev.wrndx = 0 ∧ s.pipe.dev.rdndx = 2 ∧
            s.fds = [none, none] := by
      decide +kernel
    obtain ⟨s, hs, hcontents, hw, hr, hfds⟩ := h
    have hreach : Reachable pollMachine PollStart s := .runAll (.init polledStart_start) hs
    refine ⟨s, hreach, hcontents, fun hright => ?_⟩
    have hk := (right_iff (polled_inv hreach) (a := .setup wantInput) rfl).mp hright
    rcases hk with hk | hk
    · rw [hfds] at hk
      cases hk
    · exact hk ⟨by omega, .inl ⟨rfl, by rw [hcontents]; rfl⟩⟩
  · obtain ⟨s, hs, hnil, hsize, hpoll, hidle, hwrok⟩ := bothPoll_run
    have hreach : Reachable pollMachine PollStart s := .runAll (.init polledStart_start) hs
    refine ⟨s, hreach, hnil, fun hright => ?_⟩
    have hk := (right_iff (polled_inv hreach) (a := .pipe (.write 1 (fun _ => 7) 4))
      ⟨hidle, hwrok, by decide, by decide⟩).mp hright
    exact hk ⟨hnil, by omega, by omega, wantInput, List.mem_of_getElem? hpoll, rfl⟩

end NuttxAvr32.Drivers.Pipe
