import Mathlib.Data.Fintype.Basic
import NuttxAvr32.Lib.Runs

/-! # The environment of a task

`environ_t` packs the variables as `name=value` strings in one block, which threads share.
Strings are byte lists without their NUL. A function that would read outside the block, or a
block that was freed, has no result.
-/

namespace NuttxAvr32.Env

open Runs

abbrev Name := List UInt8

abbrev Value := List UInt8

abbrev Addr := Nat

def eq : UInt8 := 61

/-- `environ_t`; `evEnv` is as long as the block has room for. -/
structure Environ where
  evCrefs : Nat
  evAlloc : Nat
  evEnv : List UInt8
deriving DecidableEq

def strlen : List UInt8 → Option Nat
  | [] => none
  | c :: s => if c = 0 then some 0 else (strlen s).map (· + 1)

def strchr (c : UInt8) : List UInt8 → Option (Option Nat)
  | [] => none
  | d :: s =>
    if d = c then some (some 0) else if d = 0 then some none
    else (strchr c s).map fun r => r.map (· + 1)

def string : List UInt8 → Option (List UInt8)
  | [] => none
  | c :: s => if c = 0 then some [] else (string s).map (c :: ·)

/-- `env_cmpname`: where name and string both end, the loop goes on behind the name. -/
def envCmpname : Name → List UInt8 → Option Bool
  | _, [] => none
  | [], c :: _ => if c = 0 then none else some (decide (c = eq))
  | n :: pszname, c :: peqname => if n = c then envCmpname pszname peqname else some false

def findLoop (pname : Name) (e : Environ) : Nat → Nat → Option (Option Nat)
  | 0, _ => none
  | fuel + 1, ptr =>
    if ptr < e.evAlloc then
      match envCmpname pname (e.evEnv.drop ptr) with
      | none => none
      | some true => some (some ptr)
      | some false =>
        match strlen (e.evEnv.drop ptr) with
        | none => none
        | some n => findLoop pname e fuel (ptr + (n + 1))
    else some none

def envFindvar (e : Environ) (pname : Name) : Option (Option Nat) :=
  findLoop pname e (e.evAlloc + 1) 0

def copyDown : Nat → Nat → Nat → List UInt8 → List UInt8
  | 0, _, _, env => env
  | count + 1, dest, src, env =>
    copyDown count (dest + 1) (src + 1) (env.set dest ((env[src]?).getD 0))

def envRemovevar (e : Environ) (pvar : Nat) : Option Environ :=
  if pvar < e.evAlloc then
    match strlen (e.evEnv.drop pvar) with
    | none => none
    | some n =>
      some { e with
        evEnv := copyDown (e.evAlloc - (pvar + (n + 1))) pvar (pvar + (n + 1)) e.evEnv
        evAlloc := e.evAlloc - (n + 1) }
  else some e

/-- `sprintf(pvar, "%s=%s", name, value)` at the end of the first `alloc` bytes. -/
def sprintf (env : List UInt8) (alloc : Nat) (name : Name) (value : Value) : List UInt8 :=
  env.take alloc ++ (name ++ eq :: value ++ [0]) ++
    env.drop (alloc + (name.length + value.length + 2))

/-- A block from `malloc` or `realloc`, with what is in its new bytes. -/
structure Block where
  addr : Addr
  fill : UInt8
deriving DecidableEq

/-- `envp` of the TCBs and the blocks in the heap. `vars` is for each group of threads what the
calls that succeeded have set. -/
structure State (τ γ : Type) where
  envp : τ → Option Addr
  heap : Addr → Option Environ
  vars : γ → Name → Option Value

section

variable {τ γ : Type} [DecidableEq τ]

namespace State

def setHeap (a : Addr) (e : Option Environ) (s : State τ γ) : State τ γ :=
  { s with heap := fun x => if x = a then e else s.heap x }

def setEnvp (t : τ) (a : Addr) (s : State τ γ) : State τ γ :=
  { s with envp := fun x => if x = t then some a else s.envp x }

end State

/-- What `realloc` keeps of the bytes of a block. -/
def resize (fill : UInt8) (n : Nat) (e : Environ) : Environ :=
  { e with evEnv := e.evEnv.take n ++ List.replicate (n - e.evEnv.length) fill }

/-- The block of the caller is freed and `e` lies in the one from `realloc`. -/
def move (t : τ) (a : Addr) (m : Addr) (e : Environ) (s : State τ γ) : State τ γ :=
  ((s.setHeap a none).setHeap m (some e)).setEnvp t m

/-- `mem` is what `realloc` returns. -/
def unsetenv (t : τ) (name : Name) (mem : Option Block) (s : State τ γ) :
    Option (Bool × State τ γ) :=
  match s.envp t with
  | none => some (true, s)
  | some envp =>
    match s.heap envp with
    | none => none
    | some e =>
      match envFindvar e name with
      | none => none
      | some none => some (true, s)
      | some (some pvar) =>
        match envRemovevar e pvar with
        | none => none
        | some e =>
          match mem with
          | none => some (false, s.setHeap envp (some e))
          | some m => some (true, move t envp m.addr (resize m.fill e.evAlloc e) s)

def appendvar (t : τ) (envp : Addr) (e : Environ) (name : Name) (value : Value)
    (mem : Option Block) (s : State τ γ) : Bool × State τ γ :=
  let varlen := name.length + value.length + 2
  match mem with
  | none => (false, s.setHeap envp (some e))
  | some m =>
    let r := resize m.fill (e.evAlloc + varlen) e
    (true, move t envp m.addr { r with
      evAlloc := e.evAlloc + varlen
      evEnv := sprintf r.evEnv e.evAlloc name value } s)

/-- `value` is none for a null pointer, and `mem` what `realloc` or `malloc` returns. -/
def setenv (t : τ) (name : Name) (value : Option Value) (overwrite : Bool) (mem : Option Block)
    (s : State τ γ) : Option (Bool × State τ γ) :=
  let value := value.getD []
  if value = [] then
    if overwrite then unsetenv t name mem s else some (true, s)
  else
    match s.envp t with
    | none =>
      match mem with
      | none => some (false, s)
      | some m =>
        let varlen := name.length + value.length + 2
        some (true, (s.setHeap m.addr (some ⟨1, varlen,
          sprintf (List.replicate varlen m.fill) 0 name value⟩)).setEnvp t m.addr)
    | some envp =>
      match s.heap envp with
      | none => none
      | some e =>
        match envFindvar e name with
        | none => none
        | some none => some (appendvar t envp e name value mem s)
        | some (some pvar) =>
          if overwrite = false then some (true, s)
          else
            match envRemovevar e pvar with
            | none => none
            | some e => some (appendvar t envp e name value mem s)

/-- The value at the pointer that `getenv` returns. -/
def getenv (t : τ) (name : Name) (s : State τ γ) : Option (Option Value) :=
  match s.envp t with
  | none => some none
  | some envp =>
    match s.heap envp with
    | none => none
    | some e =>
      match envFindvar e name with
      | none => none
      | some none => some none
      | some (some pvar) =>
        match strchr eq (e.evEnv.drop pvar) with
        | none => none
        | some none => some none
        | some (some n) => (string (e.evEnv.drop (pvar + (n + 1)))).map some

end

def entry (v : Name × Value) : List UInt8 := v.1 ++ eq :: v.2 ++ [0]

def pack (l : List (Name × Value)) : List UInt8 := l.flatMap entry

def GoodName (name : Name) : Prop := ∀ c ∈ name, c ≠ 0 ∧ c ≠ eq

def GoodValue (value : Value) : Prop := ∀ c ∈ value, c ≠ 0

structure Packed (e : Environ) (l : List (Name × Value)) : Prop where
  evEnv : e.evEnv = pack l
  evAlloc : e.evAlloc = (pack l).length
  nodup : (l.map Prod.fst).Nodup
  names : ∀ v ∈ l, GoodName v.1
  values : ∀ v ∈ l, GoodValue v.2

theorem pack_append (l l' : List (Name × Value)) : pack (l ++ l') = pack l ++ pack l' :=
  List.flatMap_append

theorem pack_cons (v : Name × Value) (l : List (Name × Value)) :
    pack (v :: l) = entry v ++ pack l := rfl

theorem length_entry (v : Name × Value) :
    (entry v).length = v.1.length + v.2.length + 2 := by
  simp only [entry, List.length_append, List.length_cons, List.length_nil]
  omega

theorem strlen_append {xs : List UInt8} (h : ∀ c ∈ xs, c ≠ 0) (rest : List UInt8) :
    strlen (xs ++ 0 :: rest) = some xs.length := by
  induction xs with
  | nil => rfl
  | cons c xs ih =>
    have hc : c ≠ 0 := h c List.mem_cons_self
    have ih := ih fun d hd => h d (List.mem_cons_of_mem c hd)
    simp only [List.cons_append, strlen, if_neg hc, ih, Option.map_some, List.length_cons]

theorem string_append {xs : List UInt8} (h : ∀ c ∈ xs, c ≠ 0) (rest : List UInt8) :
    string (xs ++ 0 :: rest) = some xs := by
  induction xs with
  | nil => rfl
  | cons c xs ih =>
    have hc : c ≠ 0 := h c List.mem_cons_self
    have ih := ih fun d hd => h d (List.mem_cons_of_mem c hd)
    simp only [List.cons_append, string, if_neg hc, ih, Option.map_some]

theorem strchr_append {xs : List UInt8} (h : GoodName xs) (rest : List UInt8) :
    strchr eq (xs ++ eq :: rest) = some (some xs.length) := by
  induction xs with
  | nil => rfl
  | cons c xs ih =>
    obtain ⟨h0, hc⟩ := h c List.mem_cons_self
    have ih := ih fun d hd => h d (List.mem_cons_of_mem c hd)
    simp only [List.cons_append, strchr, if_neg hc, if_neg h0, ih, Option.map_some,
      List.length_cons]

theorem envCmpname_append {name n : Name} (hname : GoodName name) (hn : GoodName n)
    (rest : List UInt8) : envCmpname name (n ++ eq :: rest) = some (decide (name = n)) := by
  induction name generalizing n with
  | nil =>
    cases n with
    | nil => rfl
    | cons c n =>
      obtain ⟨h0, hc⟩ := hn c List.mem_cons_self
      simp [envCmpname, h0, hc]
  | cons d name ih =>
    obtain ⟨-, hd⟩ := hname d List.mem_cons_self
    cases n with
    | nil => simp [envCmpname, hd]
    | cons c n =>
      have ih := ih (fun x hx => hname x (List.mem_cons_of_mem d hx))
        fun x hx => hn x (List.mem_cons_of_mem c hx)
      by_cases hdc : d = c
      · simp [envCmpname, hdc, ih]
      · simp [envCmpname, hdc]

theorem strlen_entry {v : Name × Value} (hn : GoodName v.1) (hv : GoodValue v.2)
    (rest : List UInt8) : strlen (entry v ++ rest) = some (v.1.length + v.2.length + 1) := by
  have h : ∀ c ∈ v.1 ++ eq :: v.2, c ≠ 0 := by
    intro c hc
    rcases List.mem_append.mp hc with h | h
    · exact (hn c h).1
    · rcases List.mem_cons.mp h with rfl | h
      · decide
      · exact hv c h
  have he : entry v ++ rest = (v.1 ++ eq :: v.2) ++ 0 :: rest := by
    simp only [entry, List.append_assoc, List.singleton_append]
  rw [he, strlen_append h]
  simp only [List.length_append, List.length_cons]
  congr 1

variable {e : Environ} {l pre mid post : List (Name × Value)} {name : Name}

theorem Packed.drop (P : Packed e (pre ++ post)) : e.evEnv.drop (pack pre).length = pack post := by
  rw [P.evEnv, pack_append, List.drop_left]

theorem Packed.findLoop_skip (hname : GoodName name) (fuel : Nat) :
    ∀ (pre : List (Name × Value)) {mid : List (Name × Value)}, Packed e (pre ++ (mid ++ post)) →
      (∀ v ∈ mid, v.1 ≠ name) → mid.length ≤ fuel →
      findLoop name e fuel (pack pre).length =
        findLoop name e (fuel - mid.length) (pack (pre ++ mid)).length := by
  induction fuel with
  | zero =>
    intro pre mid P hm hf
    have hnil : mid = [] := List.length_eq_zero_iff.mp (by omega)
    subst hnil
    simp
  | succ fuel ih =>
    intro pre mid P hm hf
    cases mid with
    | nil => simp
    | cons v mid =>
      have hvm : v ∈ pre ++ (v :: mid ++ post) := by simp
      have hdrop := P.drop
      rw [List.cons_append, pack_cons] at hdrop
      have hlt : (pack pre).length < e.evAlloc := by
        rw [P.evAlloc, pack_append, List.cons_append, pack_cons, List.length_append,
          List.length_append, length_entry]
        omega
      have hcmp : envCmpname name (entry v ++ pack (mid ++ post)) = some false := by
        have h := envCmpname_append hname (P.names v hvm)
          (v.2 ++ 0 :: pack (mid ++ post))
        have he : entry v ++ pack (mid ++ post) =
            v.1 ++ eq :: (v.2 ++ 0 :: pack (mid ++ post)) := by
          simp only [entry, List.append_assoc, List.cons_append, List.nil_append]
        rw [he, h, decide_eq_false fun h => hm v List.mem_cons_self h.symm]
      have hlen := strlen_entry (P.names v hvm) (P.values v hvm) (pack (mid ++ post))
      have hnext : (pack pre).length + (v.1.length + v.2.length + 1 + 1) =
          (pack (pre ++ [v])).length := by
        rw [pack_append, List.length_append, pack_cons, List.length_append, length_entry]
        simp [pack]
      have P' : Packed e ((pre ++ [v]) ++ (mid ++ post)) := by
        simpa only [List.append_assoc, List.cons_append, List.nil_append] using P
      have h := ih _ P' (fun w hw => hm w (List.mem_cons_of_mem v hw))
        (Nat.le_of_succ_le_succ hf)
      simp only [findLoop, if_pos hlt, hdrop, hcmp, hlen, hnext, h]
      simp only [List.length_cons, List.append_assoc, List.cons_append, List.nil_append,
        Nat.add_sub_add_right]

theorem length_le_pack (l : List (Name × Value)) : l.length ≤ (pack l).length := by
  induction l with
  | nil => exact Nat.le_refl 0
  | cons v l ih =>
    rw [pack_cons, List.length_append, length_entry, List.length_cons]
    omega

theorem Packed.findvar_none (P : Packed e l) (hname : GoodName name)
    (h : ∀ v ∈ l, v.1 ≠ name) : envFindvar e name = some none := by
  have P' : Packed e ([] ++ (l ++ [])) := by simpa using P
  have hle := length_le_pack l
  have hs := P'.findLoop_skip hname (e.evAlloc + 1) [] h (by rw [P.evAlloc]; omega)
  unfold envFindvar
  have h0 : findLoop name e (e.evAlloc + 1) 0 =
      findLoop name e (e.evAlloc + 1) (pack []).length := rfl
  rw [h0, hs, P.evAlloc, List.nil_append]
  obtain ⟨k, hk⟩ : ∃ k, (pack l).length + 1 - l.length = k + 1 :=
    ⟨(pack l).length - l.length, by omega⟩
  rw [hk, findLoop, if_neg (by rw [P.evAlloc]; omega)]

theorem Packed.findvar_some {value : Value} (P : Packed e (mid ++ (name, value) :: post))
    (h : ∀ v ∈ mid, v.1 ≠ name) : envFindvar e name = some (some (pack mid).length) := by
  have hvm : (name, value) ∈ mid ++ (name, value) :: post := by simp
  have hname : GoodName name := P.names _ hvm
  have hle := length_le_pack (mid ++ (name, value) :: post)
  simp only [List.length_append, List.length_cons] at hle
  have P' : Packed e ([] ++ (mid ++ (name, value) :: post)) := by simpa using P
  have hs := P'.findLoop_skip hname (e.evAlloc + 1) [] h (by rw [P.evAlloc]; omega)
  have hdrop := P.drop
  rw [pack_cons] at hdrop
  have hlt : (pack mid).length < e.evAlloc := by
    rw [P.evAlloc, pack_append, List.length_append, pack_cons, List.length_append, length_entry]
    omega
  have hcmp : envCmpname name (entry (name, value) ++ pack post) = some true := by
    have h := envCmpname_append hname hname (value ++ 0 :: pack post)
    have he : entry (name, value) ++ pack post = name ++ eq :: (value ++ 0 :: pack post) := by
      simp only [entry, List.append_assoc, List.cons_append, List.nil_append]
    rw [he, h, decide_eq_true rfl]
  obtain ⟨k, hk⟩ : ∃ k, e.evAlloc + 1 - mid.length = k + 1 :=
    ⟨e.evAlloc - mid.length, by rw [P.evAlloc]; omega⟩
  have h0 : envFindvar e name = findLoop name e (e.evAlloc + 1) (pack []).length := rfl
  rw [h0, hs, hk, List.nil_append, findLoop, if_pos hlt, hdrop, hcmp]

theorem copyDown_eq {count dest src : Nat} {env : List UInt8} (hd : dest ≤ src)
    (hs : src + count ≤ env.length) : copyDown count dest src env =
      env.take dest ++ (env.drop src).take count ++ env.drop (dest + count) := by
  induction count generalizing dest src env with
  | zero => simp [copyDown]
  | succ count ih =>
    have hsrc : src < env.length := by omega
    have hdest : dest < env.length := by omega
    have hlen : (env.set dest env[src]).length = env.length := List.length_set
    have htake : (env.set dest env[src]).take (dest + 1) = env.take dest ++ [env[src]] := by
      rw [List.take_succ_eq_append_getElem (by omega), List.getElem_set_self,
        List.take_set_of_le (Nat.le_refl dest)]
    have hdrop : (env.drop src).take (count + 1) =
        env[src] :: (env.drop (src + 1)).take count := by
      rw [List.drop_eq_getElem_cons hsrc, List.take_succ_cons]
    rw [copyDown, List.getElem?_eq_getElem hsrc, Option.getD_some, ih (by omega) (by omega),
      htake, hdrop, List.drop_set_of_lt (by omega), List.drop_set_of_lt (by omega)]
    simp only [List.append_assoc, List.cons_append, List.nil_append]
    congr 4
    omega

/-- The variables are packed in the first `ev_alloc` bytes. -/
structure Holds (e : Environ) (l : List (Name × Value)) : Prop where
  evEnv : e.evEnv.take e.evAlloc = pack l
  evAlloc : e.evAlloc = (pack l).length
  nodup : (l.map Prod.fst).Nodup
  names : ∀ v ∈ l, GoodName v.1
  values : ∀ v ∈ l, GoodValue v.2

theorem Packed.holds (P : Packed e l) : Holds e l where
  evEnv := by
    rw [P.evEnv, P.evAlloc, List.take_length]
  evAlloc := P.evAlloc
  nodup := P.nodup
  names := P.names
  values := P.values

theorem Holds.le_length (H : Holds e l) : e.evAlloc ≤ e.evEnv.length := by
  have h := congrArg List.length H.evEnv
  rw [List.length_take, ← H.evAlloc] at h
  omega

theorem Packed.removevar {value : Value} (P : Packed e (mid ++ (name, value) :: post)) :
    ∃ e', envRemovevar e (pack mid).length = some e' ∧ Holds e' (mid ++ post) := by
  have hvm : (name, value) ∈ mid ++ (name, value) :: post := by simp
  have hdrop := P.drop
  rw [pack_cons] at hdrop
  have hlen := strlen_entry (P.names _ hvm) (P.values _ hvm) (pack post)
  have halloc : e.evAlloc =
      (pack mid).length + ((name.length + value.length + 2) + (pack post).length) := by
    rw [P.evAlloc, pack_append, pack_cons, List.length_append, List.length_append, length_entry]
  have hlt : (pack mid).length < e.evAlloc := by omega
  have hl : e.evEnv.length = e.evAlloc := by
    rw [P.evEnv, P.evAlloc]
  refine ⟨_, by rw [envRemovevar, if_pos hlt, hdrop, hlen], ?_⟩
  have hpost : e.evEnv.drop ((pack mid).length + (name.length + value.length + 1 + 1)) =
      pack post := by
    rw [← List.drop_drop, hdrop]
    exact List.drop_left' (length_entry (name, value))
  have hmid : e.evEnv.take (pack mid).length = pack mid := by
    rw [P.evEnv, pack_append, List.take_left]
  constructor
  · simp only
    have hall : (pack post).take (e.evAlloc - ((pack mid).length +
        (name.length + value.length + 1 + 1))) = pack post := List.take_of_length_le (by omega)
    rw [copyDown_eq (by omega) (by omega), hpost, hmid, hall, pack_append]
    apply List.take_left'
    rw [List.length_append]
    omega
  · simp only
    rw [pack_append, List.length_append]
    omega
  · have hn := P.nodup
    rw [List.map_append, List.map_cons] at hn
    rw [List.map_append]
    exact hn.sublist (List.Sublist.append_left (List.sublist_cons_self _ _) _)
  · intro v hv
    apply P.names
    rcases List.mem_append.mp hv with h | h
    · exact List.mem_append_left _ h
    · exact List.mem_append_right _ (List.mem_cons_of_mem _ h)
  · intro v hv
    apply P.values
    rcases List.mem_append.mp hv with h | h
    · exact List.mem_append_left _ h
    · exact List.mem_append_right _ (List.mem_cons_of_mem _ h)

theorem Holds.resize (H : Holds e l) (fill : UInt8) : Packed (resize fill e.evAlloc e) l where
  evEnv := by
    have hle := H.le_length
    have h0 : e.evAlloc - e.evEnv.length = 0 := by omega
    simp only [Env.resize, h0, List.replicate_zero, List.append_nil]
    exact H.evEnv
  evAlloc := H.evAlloc
  nodup := H.nodup
  names := H.names
  values := H.values

theorem Holds.sprintf {value : Value} (H : Holds e l) (hname : GoodName name)
    (hvalue : GoodValue value) (hnew : ∀ v ∈ l, v.1 ≠ name) {env : List UInt8}
    (hkeep : env.take e.evAlloc = pack l)
    (hlen : env.length = e.evAlloc + (name.length + value.length + 2)) (crefs : Nat) :
    Packed ⟨crefs, e.evAlloc + (name.length + value.length + 2),
      Env.sprintf env e.evAlloc name value⟩ (l ++ [(name, value)]) where
  evEnv := by
    have hd : env.drop (e.evAlloc + (name.length + value.length + 2)) = [] :=
      List.drop_eq_nil_of_le (Nat.le_of_eq hlen)
    have hone : pack [(name, value)] = name ++ eq :: value ++ [0] := List.append_nil _
    rw [Env.sprintf, hkeep, hd, pack_append, hone, List.append_nil]
  evAlloc := by
    have hnil : pack [] = [] := rfl
    rw [pack_append, pack_cons, hnil, List.append_nil, List.length_append, length_entry,
      H.evAlloc]
  nodup := by
    rw [List.map_append, List.map_cons, List.map_nil]
    apply List.Nodup.append H.nodup (List.nodup_singleton _)
    intro n hn hn'
    obtain ⟨v, hv, rfl⟩ := List.mem_map.mp hn
    exact hnew v hv (List.mem_singleton.mp hn')
  names := by
    intro v hv
    rcases List.mem_append.mp hv with h | h
    · exact H.names v h
    · rw [List.mem_singleton.mp h]
      exact hname
  values := by
    intro v hv
    rcases List.mem_append.mp hv with h | h
    · exact H.values v h
    · rw [List.mem_singleton.mp h]
      exact hvalue

theorem Holds.append {value : Value} (H : Holds e l) (hname : GoodName name)
    (hvalue : GoodValue value) (hnew : ∀ v ∈ l, v.1 ≠ name) (fill : UInt8) :
    Packed { Env.resize fill (e.evAlloc + (name.length + value.length + 2)) e with
      evAlloc := e.evAlloc + (name.length + value.length + 2)
      evEnv := Env.sprintf (Env.resize fill (e.evAlloc + (name.length + value.length + 2))
        e).evEnv e.evAlloc name value } (l ++ [(name, value)]) := by
  have hle := H.le_length
  apply H.sprintf hname hvalue hnew
  · simp only [Env.resize]
    rw [List.take_append_of_le_length (by rw [List.length_take]; omega), List.take_take,
      Nat.min_eq_left (by omega), H.evEnv]
  · simp only [Env.resize, List.length_append, List.length_take, List.length_replicate]
    omega

def lookup (l : List (Name × Value)) (name : Name) : Option Value :=
  (l.find? fun v => v.1 = name).map Prod.snd

theorem lookup_none (h : ∀ v ∈ l, v.1 ≠ name) : lookup l name = none := by
  have hf : (l.find? fun v => decide (v.1 = name)) = none := by
    apply List.find?_eq_none.mpr
    intro v hv
    simpa using h v hv
  rw [lookup, hf]
  rfl

theorem lookup_append (l l' : List (Name × Value)) (name : Name) :
    lookup (l ++ l') name = (lookup l name).or (lookup l' name) := by
  simp only [lookup, List.find?_append]
  cases l.find? fun v => decide (v.1 = name) <;> rfl

theorem lookup_cons (n : Name) (value : Value) (l : List (Name × Value)) (name : Name) :
    lookup ((n, value) :: l) name = if n = name then some value else lookup l name := by
  by_cases h : n = name
  · simp [lookup, h]
  · simp [lookup, h]

theorem split_name (l : List (Name × Value)) (name : Name) :
    (∀ v ∈ l, v.1 ≠ name) ∨ ∃ mid value post, l = mid ++ (name, value) :: post ∧
      ∀ v ∈ mid, v.1 ≠ name := by
  induction l with
  | nil => exact .inl fun v hv => by cases hv
  | cons w l ih =>
    by_cases hw : w.1 = name
    · exact .inr ⟨[], w.2, l, by rw [← hw]; rfl, fun v hv => by cases hv⟩
    · rcases ih with h | ⟨mid, value, post, rfl, h⟩
      · left
        intro v hv
        rcases List.mem_cons.mp hv with rfl | hv
        · exact hw
        · exact h v hv
      · right
        refine ⟨w :: mid, value, post, rfl, ?_⟩
        intro v hv
        rcases List.mem_cons.mp hv with rfl | hv
        · exact hw
        · exact h v hv

theorem names_rest {value : Value}
    (h : ((mid ++ (name, value) :: post).map Prod.fst).Nodup) : ∀ v ∈ mid ++ post, v.1 ≠ name := by
  rw [List.map_append, List.map_cons, List.nodup_append] at h
  obtain ⟨-, h2, h3⟩ := h
  intro v hv hvn
  rcases List.mem_append.mp hv with hm | hp
  · exact h3 v.1 (List.mem_map_of_mem hm) name List.mem_cons_self hvn
  · have hm := List.mem_map_of_mem (f := Prod.fst) hp
    rw [hvn] at hm
    exact (List.nodup_cons.mp h2).1 hm

section

variable {τ γ : Type} [DecidableEq τ] [DecidableEq γ]

inductive Op (τ : Type)
  | setenv (t : τ) (name : Name) (value : Option Value) (overwrite : Bool) (mem : Option Block)
  | unsetenv (t : τ) (name : Name) (mem : Option Block)
  | getenv (t : τ) (name : Name)

/-- The map after a value was set; an empty value stands for none. -/
def put (name : Name) (value : Value) (overwrite : Bool) (f : Name → Option Value) :
    Name → Option Value :=
  if value = [] then
    if overwrite then fun n => if n = name then none else f n else f
  else if overwrite = false ∧ (f name).isSome then f
  else fun n => if n = name then some value else f n

def State.note (g : γ) (f : Name → Option Value) (s : State τ γ) : State τ γ :=
  { s with vars := fun x => if x = g then f else s.vars x }

namespace Op

def exec (group : τ → γ) : Op τ → State τ γ → Option (State τ γ)
  | setenv t name value overwrite mem, s =>
    (Env.setenv t name value overwrite mem s).map fun r =>
      if r.1 then
        r.2.note (group t) (put name (value.getD []) overwrite (s.vars (group t)))
      else r.2
  | unsetenv t name mem, s =>
    (Env.unsetenv t name mem s).map fun r =>
      if r.1 then r.2.note (group t) (put name [] true (s.vars (group t))) else r.2
  | getenv t name, s => (Env.getenv t name s).map fun _ => s

/-- A block from the heap is free, or the one that is passed to `realloc`. -/
def fits (t : τ) (mem : Option Block) (s : State τ γ) : Prop :=
  ∀ m ∈ mem, s.heap m.addr = none ∨ s.envp t = some m.addr

def valid (s : State τ γ) : Op τ → Prop
  | setenv t name value _ mem =>
    name ≠ [] ∧ GoodName name ∧ GoodValue (value.getD []) ∧ fits t mem s
  | unsetenv t name mem => name ≠ [] ∧ GoodName name ∧ fits t mem s
  | getenv _ name => name ≠ [] ∧ GoodName name

/-- `realloc` succeeds where a variable has been taken out before, and it does not move a block
that another thread shares. -/
def spares (t : τ) (name : Name) (writes : Bool) (mem : Option Block) (s : State τ γ) : Prop :=
  (writes = true → ∀ a ∈ s.envp t, ∀ e ∈ s.heap a, ∀ p ∈ envFindvar e name, p ≠ none →
    mem ≠ none) ∧
  ∀ a ∈ s.envp t, ∀ m ∈ mem, m.addr = a ∨ ∀ t', s.envp t' = some a → t' = t

def keeps (s : State τ γ) : Op τ → Prop
  | setenv t name _ overwrite mem => spares t name overwrite mem s
  | unsetenv t name mem => spares t name true mem s
  | getenv _ _ => True

end Op

def envMachine (group : τ → γ) : Machine (State τ γ) (Op τ) where
  valid s i := i.valid s
  exec s i := i.exec group s

/-- The map is what the calls say it is: no lookup fails or leaves the block, the block holds
its variables and nothing else, and threads that share an environment go on sharing it. -/
structure Correct (group : τ → γ) (s : State τ γ) : Prop where
  getenv : ∀ t name, GoodName name → Env.getenv t name s = some (s.vars (group t) name)
  packed : ∀ t a, s.envp t = some a → ∃ e l, s.heap a = some e ∧ Packed e l
  shared : ∀ t t', group t = group t' → s.envp t = s.envp t'

/-- Each thread is in a group, the threads of a group share a block, and a thread without
a block is alone. -/
structure Start (group : τ → γ) (s : State τ γ) : Prop where
  blocks : ∀ t a, s.envp t = some a → ∃ e l, s.heap a = some e ∧ Packed e l ∧
    ∀ name, lookup l name = s.vars (group t) name
  empty : ∀ t, s.envp t = none → ∀ name, s.vars (group t) name = none
  shared : ∀ t t', group t = group t' → s.envp t = s.envp t'
  apart : ∀ t t' a, s.envp t = some a → s.envp t' = some a → group t = group t'
  alone : ∀ t t', s.envp t = none → group t' = group t → t' = t

variable {group : τ → γ} {s s' : State τ γ}

omit [DecidableEq τ] [DecidableEq γ] in
theorem Start.correct (I : Start group s) : Correct group s where
  getenv t name hname := by
    unfold Env.getenv
    cases ha : s.envp t with
    | none => rw [I.empty t ha]
    | some a =>
      obtain ⟨e, l, he, P, hl⟩ := I.blocks t a ha
      simp only [he]
      rw [← hl name]
      rcases split_name l name with h | ⟨mid, value, post, rfl, h⟩
      · rw [P.findvar_none hname h, lookup_none h]
      · have hv : GoodValue value := P.values (name, value) (by simp)
        have hdrop : e.evEnv.drop (pack mid).length =
            name ++ eq :: (value ++ 0 :: pack post) := by
          rw [P.drop, pack_cons]
          simp only [entry, List.append_assoc, List.cons_append, List.nil_append]
        have hval : e.evEnv.drop ((pack mid).length + (name.length + 1)) =
            value ++ 0 :: pack post := by
          rw [← List.drop_drop, hdrop, ← List.drop_drop, List.drop_left]
          rfl
        rw [P.findvar_some h, lookup_append, lookup_none h, lookup_cons, if_pos rfl]
        simp only [hdrop, strchr_append hname, hval, string_append hv, Option.map_some,
          Option.none_or]
  packed t a ha := by
    obtain ⟨e, l, he, P, -⟩ := I.blocks t a ha
    exact ⟨e, l, he, P⟩
  shared := I.shared

omit [DecidableEq τ] in
theorem Start.note_same (I : Start group s) {t : τ} {f : Name → Option Value}
    (hf : ∀ name, f name = s.vars (group t) name) : Start group (s.note (group t) f) where
  blocks u a ha := by
    obtain ⟨e, l, he, P, hl⟩ := I.blocks u a ha
    refine ⟨e, l, he, P, ?_⟩
    intro name
    simp only [State.note]
    split
    · rename_i hg
      rw [hf, ← hg]
      exact hl name
    · exact hl name
  empty u hu name := by
    simp only [State.note]
    split
    · rename_i hg
      rw [hf, ← hg]
      exact I.empty u hu name
    · exact I.empty u hu name
  shared := I.shared
  apart := I.apart
  alone := I.alone

theorem Start.move {t : τ} {a : Addr} (I : Start group s) (ha : s.envp t = some a)
    {m : Addr} (hm : s.heap m = none ∨ s.envp t = some m)
    (hmove : m = a ∨ ∀ t', s.envp t' = some a → t' = t) {e : Environ}
    {l : List (Name × Value)} (P : Packed e l) {f : Name → Option Value}
    (hf : ∀ name, lookup l name = f name) :
    Start group ((Env.move t a m e s).note (group t) f) := by
  have hmem : ∀ u, group u = group t → (Env.move t a m e s).envp u = some m := by
    intro u hu
    simp only [Env.move, State.setEnvp, State.setHeap]
    split
    · rfl
    · rename_i hut
      have hua : s.envp u = some a := (I.shared u t hu).trans ha
      rcases hmove with rfl | halone
      · exact hua
      · exact absurd (halone u hua) hut
  have hother : ∀ u, group u ≠ group t → (Env.move t a m e s).envp u = s.envp u := by
    intro u hu
    simp only [Env.move, State.setEnvp, State.setHeap]
    rw [if_neg]
    rintro rfl
    exact hu rfl
  -- the block of another group is neither the old one nor the new one
  have hne : ∀ u b, group u ≠ group t → s.envp u = some b → b ≠ a ∧ b ≠ m := by
    intro u b hu hb
    constructor
    · rintro rfl
      exact hu (I.apart u t b hb ha)
    · rintro rfl
      rcases hm with h | h
      · obtain ⟨e', -, he', -⟩ := I.blocks u b hb
        rw [h] at he'
        cases he'
      · exact hu (I.apart u t b hb h)
  have henvp : ∀ u, ((Env.move t a m e s).note (group t) f).envp u = (Env.move t a m e s).envp u :=
    fun _ => rfl
  constructor
  · intro u b hb
    rw [henvp] at hb
    by_cases hu : group u = group t
    · rw [hmem u hu] at hb
      cases hb
      refine ⟨e, l, ?_, P, ?_⟩
      · simp [State.note, Env.move, State.setEnvp, State.setHeap]
      · intro name
        simp only [State.note, if_pos hu]
        exact hf name
    · rw [hother u hu] at hb
      obtain ⟨e', l', he', P', hl'⟩ := I.blocks u b hb
      obtain ⟨hba, hbm⟩ := hne u b hu hb
      refine ⟨e', l', ?_, P', ?_⟩
      · simp only [State.note, Env.move, State.setEnvp, State.setHeap, if_neg hbm, if_neg hba]
        exact he'
      · intro name
        simp only [State.note, if_neg hu]
        exact hl' name
  · intro u hu
    rw [henvp] at hu
    by_cases hg : group u = group t
    · rw [hmem u hg] at hu
      cases hu
    · rw [hother u hg] at hu
      intro name
      simp only [State.note, if_neg hg]
      exact I.empty u hu name
  · intro u u' hg
    rw [henvp, henvp]
    by_cases hu : group u = group t
    · rw [hmem u hu, hmem u' (hg ▸ hu)]
    · rw [hother u hu, hother u' (fun h => hu (hg.trans h))]
      exact I.shared u u' hg
  · intro u u' b hb hb'
    rw [henvp] at hb hb'
    by_cases hu : group u = group t
    · by_cases hu' : group u' = group t
      · exact hu.trans hu'.symm
      · rw [hmem u hu] at hb
        rw [hother u' hu'] at hb'
        cases hb
        exact absurd rfl (hne u' m hu' hb').2
    · rw [hother u hu] at hb
      by_cases hu' : group u' = group t
      · rw [hmem u' hu'] at hb'
        cases hb'
        exact absurd rfl (hne u m hu hb).2
      · rw [hother u' hu'] at hb'
        exact I.apart u u' b hb hb'
  · intro u u' hu hg
    rw [henvp] at hu
    by_cases hut : group u = group t
    · rw [hmem u hut] at hu
      cases hu
    · rw [hother u hut] at hu
      exact I.alone u u' hu hg

omit [DecidableEq τ] [DecidableEq γ] in
theorem Start.find (I : Start group s) {t : τ} {a : Addr} (ha : s.envp t = some a) {name : Name}
    (hname : GoodName name) : ∃ e, s.heap a = some e ∧
      ((∃ l, envFindvar e name = some none ∧ Packed e l ∧ (∀ v ∈ l, v.1 ≠ name) ∧
          ∀ n, lookup l n = s.vars (group t) n) ∨
        ∃ mid value post, envFindvar e name = some (some (pack mid).length) ∧
          Packed e (mid ++ (name, value) :: post) ∧
          (∀ v ∈ mid ++ post, v.1 ≠ name) ∧
          s.vars (group t) name = some value ∧
          ∀ n, n ≠ name → lookup (mid ++ post) n = s.vars (group t) n) := by
  obtain ⟨e, l, he, P, hl⟩ := I.blocks t a ha
  refine ⟨e, he, ?_⟩
  rcases split_name l name with h | ⟨mid, value, post, rfl, h⟩
  · exact .inl ⟨l, P.findvar_none hname h, P, h, hl⟩
  · refine .inr ⟨mid, value, post, P.findvar_some h, P, names_rest P.nodup, ?_, ?_⟩
    · rw [← hl, lookup_append, lookup_none h, lookup_cons, if_pos rfl]
      rfl
    · intro n hn
      rw [← hl, lookup_append, lookup_append, lookup_cons, if_neg (Ne.symm hn)]

omit [DecidableEq τ] [DecidableEq γ] in
theorem setHeap_same {a : Addr} {e : Environ} (h : s.heap a = some e) :
    s.setHeap a (some e) = s := by
  have hf : (fun x => if x = a then some e else s.heap x) = s.heap := by
    funext x
    by_cases hx : x = a
    · rw [if_pos hx, hx, h]
    · rw [if_neg hx]
  simp only [State.setHeap, hf]

theorem Start.unsetenv (I : Start group s) {t : τ} {name : Name} {mem : Option Block}
    (hv : (Op.unsetenv t name mem).valid s) (hk : Op.spares t name true mem s) :
    ∃ r, Env.unsetenv t name mem s = some r ∧ r.1 = true ∧
      Start group (r.2.note (group t) (put name [] true (s.vars (group t)))) := by
  obtain ⟨-, hname, hfits⟩ := hv
  have hput : ∀ n, put name [] true (s.vars (group t)) n =
      if n = name then none else s.vars (group t) n := fun _ => rfl
  unfold Env.unsetenv
  cases ha : s.envp t with
  | none =>
    refine ⟨_, rfl, rfl, I.note_same ?_⟩
    intro n
    rw [hput, I.empty t ha, ite_self]
  | some a =>
    obtain ⟨e, he, hfound⟩ := I.find ha hname
    simp only [he]
    rcases hfound with ⟨l, hfind, -, hnone, hl⟩ | ⟨mid, value, post, hfind, P, hnone, -, hl⟩
    · rw [hfind]
      refine ⟨_, rfl, rfl, I.note_same ?_⟩
      intro n
      rw [hput]
      split
      · rename_i hn
        rw [← hl, hn, lookup_none hnone]
      · rfl
    · obtain ⟨e', hrem, H⟩ := P.removevar
      rw [hfind]
      simp only [hrem]
      obtain ⟨m, rfl⟩ := Option.ne_none_iff_exists'.mp
        (hk.1 rfl a ha e he _ hfind (by simp))
      refine ⟨_, rfl, rfl, I.move ha (hfits m rfl) (hk.2 a ha m rfl) (H.resize m.fill) ?_⟩
      intro n
      rw [hput]
      split
      · rename_i hn
        rw [hn, lookup_none hnone]
      · rename_i hn
        exact hl n hn

theorem Start.appendvar (I : Start group s) {t : τ} {a : Addr} (ha : s.envp t = some a)
    {e : Environ} {l : List (Name × Value)} (H : Holds e l) {name : Name} {value : Value}
    (hname : GoodName name) (hvalue : GoodValue value) (hnew : ∀ v ∈ l, v.1 ≠ name)
    (hl : ∀ n, n ≠ name → lookup l n = s.vars (group t) n) {m : Block}
    (hfit : s.heap m.addr = none ∨ s.envp t = some m.addr)
    (hmove : m.addr = a ∨ ∀ t', s.envp t' = some a → t' = t) :
    (Env.appendvar t a e name value (some m) s).1 = true ∧
      Start group ((Env.appendvar t a e name value (some m) s).2.note (group t)
        fun n => if n = name then some value else s.vars (group t) n) := by
  refine ⟨rfl, I.move ha hfit hmove (H.append hname hvalue hnew m.fill) ?_⟩
  intro n
  rw [lookup_append, lookup_cons]
  by_cases hn : n = name
  · rw [hn, lookup_none hnew, if_pos rfl, if_pos rfl]
    rfl
  · rw [hl n hn, if_neg (Ne.symm hn), if_neg hn]
    exact Option.or_none

theorem Start.first (I : Start group s) {t : τ} (ht : s.envp t = none) {m : Addr}
    (hm : s.heap m = none) {e : Environ} {l : List (Name × Value)} (P : Packed e l)
    {f : Name → Option Value} (hf : ∀ n, lookup l n = f n) :
    Start group (((s.setHeap m (some e)).setEnvp t m).note (group t) f) := by
  have hfree : ∀ u, s.envp u ≠ some m := by
    intro u hu
    obtain ⟨e', -, he', -⟩ := I.blocks u m hu
    rw [hm] at he'
    cases he'
  have hself : ∀ u, group u = group t → u = t := fun u hu => I.alone t u ht hu
  constructor
  · intro u b hb
    simp only [State.note, State.setEnvp, State.setHeap] at hb ⊢
    by_cases hu : u = t
    · subst hu
      rw [if_pos rfl] at hb
      cases hb
      refine ⟨e, l, by simp, P, ?_⟩
      intro n
      rw [if_pos rfl]
      exact hf n
    · rw [if_neg hu] at hb
      obtain ⟨e', l', he', P', hl'⟩ := I.blocks u b hb
      have hbm : b ≠ m := by
        rintro rfl
        exact hfree u hb
      refine ⟨e', l', by rw [if_neg hbm]; exact he', P', ?_⟩
      intro n
      rw [if_neg fun h => hu (hself u h)]
      exact hl' n
  · intro u hu
    simp only [State.note, State.setEnvp, State.setHeap] at hu ⊢
    by_cases hut : u = t
    · rw [if_pos hut] at hu
      cases hu
    · rw [if_neg hut] at hu
      intro n
      rw [if_neg fun h => hut (hself u h)]
      exact I.empty u hu n
  · intro u u' hg
    simp only [State.note, State.setEnvp, State.setHeap]
    by_cases hu : u = t
    · have hu' : u' = t := hself u' (by rw [← hg, hu])
      rw [if_pos hu, if_pos hu']
    · have hu' : u' ≠ t := fun h => hu (hself u (by rw [hg, h]))
      rw [if_neg hu, if_neg hu']
      exact I.shared u u' hg
  · intro u u' b hb hb'
    simp only [State.note, State.setEnvp, State.setHeap] at hb hb'
    by_cases hu : u = t
    · rw [if_pos hu] at hb
      cases hb
      by_cases hu' : u' = t
      · rw [hu, hu']
      · rw [if_neg hu'] at hb'
        exact absurd hb' (hfree u')
    · rw [if_neg hu] at hb
      by_cases hu' : u' = t
      · rw [if_pos hu'] at hb'
        cases hb'
        exact absurd hb (hfree u)
      · rw [if_neg hu'] at hb'
        exact I.apart u u' b hb hb'
  · intro u u' hu hg
    simp only [State.note, State.setEnvp, State.setHeap] at hu
    by_cases hut : u = t
    · rw [if_pos hut] at hu
      cases hu
    · rw [if_neg hut] at hu
      exact I.alone u u' hu hg

theorem put_some {name : Name} {value : Value} {f : Name → Option Value} {overwrite : Bool}
    (hv : value ≠ []) (h : overwrite = true ∨ f name = none) :
    put name value overwrite f = fun n => if n = name then some value else f n := by
  have hc : ¬ (overwrite = false ∧ (f name).isSome = true) := by
    rintro ⟨ho, hs⟩
    rcases h with h | h
    · rw [h] at ho
      cases ho
    · rw [h] at hs
      cases hs
  rw [put, if_neg hv, if_neg hc]

/-- After a call the map is as the call says, also if it failed. -/
def Done (group : τ → γ) (t : τ) (f : Name → Option Value) (s : State τ γ)
    (r : Bool × State τ γ) : Prop :=
  (r.1 = true ∧ Start group (r.2.note (group t) f)) ∨ (r.1 = false ∧ r.2 = s)

theorem Start.setenv (I : Start group s) {t : τ} {name : Name} {value : Option Value}
    {overwrite : Bool} {mem : Option Block}
    (hv : (Op.setenv t name value overwrite mem).valid s)
    (hk : Op.spares t name overwrite mem s) :
    ∃ r, Env.setenv t name value overwrite mem s = some r ∧
      Done group t (put name (value.getD []) overwrite (s.vars (group t))) s r := by
  obtain ⟨hne, hname, hvalue, hfits⟩ := hv
  simp only [Env.setenv]
  generalize value.getD [] = value at hvalue
  by_cases h0 : value = []
  · rw [if_pos h0, h0]
    cases overwrite with
    | true =>
      obtain ⟨r, hr, h1, h2⟩ := I.unsetenv ⟨hne, hname, hfits⟩ hk
      exact ⟨r, hr, .inl ⟨h1, h2⟩⟩
    | false => exact ⟨_, rfl, .inl ⟨rfl, I.note_same fun _ => rfl⟩⟩
  · rw [if_neg h0]
    cases ha : s.envp t with
    | none =>
      cases mem with
      | none => exact ⟨_, rfl, .inr ⟨rfl, rfl⟩⟩
      | some m =>
        refine ⟨_, rfl, .inl ⟨rfl, ?_⟩⟩
        have hm : s.heap m.addr = none := by
          rcases hfits m rfl with h | h
          · exact h
          · rw [ha] at h
            cases h
        have H : Holds ⟨1, 0, []⟩ [] := ⟨rfl, rfl, List.nodup_nil, by simp, by simp⟩
        have hlen : (List.replicate (name.length + value.length + 2) m.fill).length =
            0 + (name.length + value.length + 2) := by
          rw [List.length_replicate, Nat.zero_add]
        have P := H.sprintf hname hvalue (by simp) rfl hlen 1
        simp only [Nat.zero_add, List.nil_append] at P
        apply I.first ha hm P
        intro n
        rw [put_some h0 (.inr (I.empty t ha name)), lookup_cons]
        simp only
        by_cases hn : n = name
        · rw [if_pos hn, if_pos hn.symm]
        · rw [if_neg hn, if_neg (Ne.symm hn), I.empty t ha]
          rfl
    | some a =>
      obtain ⟨e, he, hfound⟩ := I.find ha hname
      simp only [he]
      rcases hfound with ⟨l, hfind, P, hnone, hl⟩ | ⟨mid, old, post, hfind, P, hnone, hold, hl⟩
      · rw [hfind]
        refine ⟨_, rfl, ?_⟩
        have hvars : s.vars (group t) name = none := by
          rw [← hl, lookup_none hnone]
        cases mem with
        | none => exact .inr ⟨rfl, setHeap_same he⟩
        | some m =>
          left
          rw [put_some h0 (.inr hvars)]
          exact I.appendvar ha P.holds hname hvalue hnone (fun n _ => hl n) (hfits m rfl)
            (hk.2 a ha m rfl)
      · rw [hfind]
        cases overwrite with
        | false =>
          refine ⟨_, rfl, .inl ⟨rfl, I.note_same ?_⟩⟩
          intro n
          simp [put, h0, hold]
        | true =>
          obtain ⟨e', hrem, H⟩ := P.removevar
          simp only [Bool.true_eq_false, if_false, hrem]
          obtain ⟨m, rfl⟩ := Option.ne_none_iff_exists'.mp
            (hk.1 rfl a ha e he _ hfind (by simp))
          refine ⟨_, rfl, .inl ?_⟩
          rw [put_some h0 (.inl rfl)]
          exact I.appendvar ha H hname hvalue hnone hl (hfits m rfl) (hk.2 a ha m rfl)

theorem Start.step {i : Op τ} (I : Start group s) (hv : i.valid s) (hk : i.keeps s) :
    ∃ s', i.exec group s = some s' ∧ Start group s' := by
  cases i with
  | setenv t name value overwrite mem =>
    obtain ⟨r, hr, hd⟩ := I.setenv hv hk
    refine ⟨_, by rw [Op.exec, hr]; rfl, ?_⟩
    simp only
    rcases hd with ⟨h1, h2⟩ | ⟨h1, h2⟩
    · rw [if_pos h1]
      exact h2
    · rw [h1, h2]
      exact I
  | unsetenv t name mem =>
    obtain ⟨r, hr, h1, h2⟩ := I.unsetenv hv hk
    refine ⟨_, by rw [Op.exec, hr]; rfl, ?_⟩
    simp only
    rw [if_pos h1]
    exact h2
  | getenv t name =>
    refine ⟨s, ?_, I⟩
    rw [Op.exec, I.correct.getenv t name hv.2]
    rfl

/-- In every state of every run the environment is the map that the calls have made, and each
further call returns. -/
theorem environ_correct {s : State τ γ}
    (h : Reach (envMachine group) (Start group) (fun s i => i.keeps s) s) :
    Correct group s ∧ ∀ i : Op τ, i.valid s → i.keeps s → (i.exec group s).isSome := by
  have I : Start group s := by
    apply h.invariant fun _ S => S
    intro s i s' I hv hk he
    obtain ⟨t, ht, J⟩ := I.step hv hk
    have he' : i.exec group s = some s' := he
    rw [ht] at he'
    cases he'
    exact J
  refine ⟨I.correct, ?_⟩
  intro i hv hk
  obtain ⟨t, ht, -⟩ := I.step hv hk
  rw [ht]
  rfl

instance decidableGoodName (name : Name) : Decidable (GoodName name) :=
  inferInstanceAs (Decidable (∀ c ∈ name, c ≠ 0 ∧ c ≠ eq))

instance decidableGoodValue (value : Value) : Decidable (GoodValue value) :=
  inferInstanceAs (Decidable (∀ c ∈ value, c ≠ 0))

instance decidableFits (t : τ) (mem : Option Block) (s : State τ γ) :
    Decidable (Op.fits t mem s) :=
  inferInstanceAs (Decidable (∀ m ∈ mem, s.heap m.addr = none ∨ s.envp t = some m.addr))

instance decidableEnvValid (s : State τ γ) (i : Op τ) : Decidable (i.valid s) :=
  match i with
  | .setenv t name value _ mem => inferInstanceAs (Decidable
      (name ≠ [] ∧ GoodName name ∧ GoodValue (value.getD []) ∧ Op.fits t mem s))
  | .unsetenv t name mem =>
    inferInstanceAs (Decidable (name ≠ [] ∧ GoodName name ∧ Op.fits t mem s))
  | .getenv _ name => inferInstanceAs (Decidable (name ≠ [] ∧ GoodName name))

instance decidableEnvSpares [Fintype τ] (t : τ) (name : Name) (writes : Bool)
    (mem : Option Block) (s : State τ γ) : Decidable (Op.spares t name writes mem s) :=
  inferInstanceAs (Decidable ((writes = true → ∀ a ∈ s.envp t, ∀ e ∈ s.heap a,
    ∀ p ∈ envFindvar e name, p ≠ none → mem ≠ none) ∧
    ∀ a ∈ s.envp t, ∀ m ∈ mem, m.addr = a ∨ ∀ t', s.envp t' = some a → t' = t))

instance decidableEnvKeeps [Fintype τ] (s : State τ γ) (i : Op τ) : Decidable (i.keeps s) :=
  match i with
  | .setenv t name _ overwrite mem =>
    inferInstanceAs (Decidable (Op.spares t name overwrite mem s))
  | .unsetenv t name mem => inferInstanceAs (Decidable (Op.spares t name true mem s))
  | .getenv _ _ => inferInstanceAs (Decidable True)

instance decidableEnvMachineValid (s : State τ γ) (i : Op τ) :
    Decidable ((envMachine group).valid s i) :=
  inferInstanceAs (Decidable (i.valid s))

end

def oneGroup (_ : Bool) : Unit := ()

def sharedEmpty : State Bool Unit where
  envp _ := some 8
  heap a := if a = 8 then some ⟨2, 0, []⟩ else none
  vars _ _ := none

theorem sharedEmpty_start : Start oneGroup sharedEmpty where
  blocks t a ha := by
    cases ha
    exact ⟨⟨2, 0, []⟩, [], rfl,
      ⟨rfl, rfl, List.nodup_nil, by simp, by simp⟩,
      fun _ => rfl⟩
  empty t ht := by cases ht
  shared _ _ _ := rfl
  apart _ _ _ _ _ := rfl
  alone t _ ht := by cases ht

def nameA : Name := [65]

def sampleOps : List (Op Bool) :=
  [.setenv true nameA (some [49, 61, 50]) false (some ⟨8, 170⟩), .getenv false nameA,
    .setenv false [66] (some [51]) true (some ⟨8, 170⟩),
    .setenv false nameA (some [52]) true (some ⟨8, 170⟩), .setenv true [67] (some [53]) true none,
    .unsetenv true [66] (some ⟨8, 170⟩)]

theorem environ_correct_run : ∃ s, runAll (envMachine oneGroup) (fun s i => i.keeps s)
    sharedEmpty sampleOps = some s ∧ s.vars () nameA = some [52] ∧
    (Correct oneGroup s ∧ ∀ i : Op Bool, i.valid s → i.keeps s → (i.exec oneGroup s).isSome) :=
  have h : ∃ s, runAll (envMachine oneGroup) (fun s i => i.keeps s) sharedEmpty sampleOps =
      some s ∧ s.vars () nameA = some [52] := by decide +kernel
  h.elim fun s hs => ⟨s, hs.1, hs.2,
    environ_correct (.runAll (.init sharedEmpty_start) hs.1)⟩

/-- An empty value is no value: `setenv` removes the variable. -/
theorem setenv_empty : ¬ ∀ (s s' : State Bool Unit) (t : Bool) (name : Name) (value : Value)
    (mem : Option Block), Reachable (envMachine oneGroup) (Start oneGroup) s →
    (Op.setenv t name (some value) true mem).valid s →
    setenv t name (some value) true mem s = some (true, s') →
    getenv t name s' = some (some value) := by
  intro hall
  have h := hall sharedEmpty sharedEmpty true nameA [] none (.init sharedEmpty_start)
    (by decide +kernel) rfl
  have hget : getenv true nameA sharedEmpty = some none := by rfl
  rw [hget] at h
  cases h

end NuttxAvr32.Env
