import Nachos.Threads.InterleavingLocks
import Nachos.Userprog.BitMap

/-!
# Locks and conditions of the user programs

`class SynchManager` (`userprog/SynchManager.cc`). A table maps the index that a user program has
to an entry on the heap, which owns the lock or the condition. An entry that is deleted stays in
its slot as a dangling pointer; a number that names an entry is never used again.

The system calls of all processes run in threads that switch at kernel calls. A step faults if an
assertion fails, or if it uses a slot outside the array or an entry that has been deleted.

* `Table.Ok`, `Table.entry_eq_ok`: the bits that are set are those of the slots with an entry.
* `managerStep_cases`: what a step can do.
-/

namespace Nachos.Userprog

open Nachos.Lib Nachos.Threads

/-! ## The tables -/

/-- SynchManager.h:16. -/
abbrev MaxNumLocks : ℕ := 10000

/-- SynchManager.h:17. -/
abbrev MaxNumCVs : ℕ := 40000

/-- What goes wrong. -/
inductive Fault
  /-- `ASSERT` in `BitMap::Test`. -/
  | assertion
  /-- A slot outside `lockEntries` or `cvEntries`. -/
  | outside
  /-- An entry that has been deleted. -/
  | deleted
  /-- The thread cannot run. -/
  | impossible
  deriving DecidableEq

/-- `struct LockEntry` and `struct CVEntry` (SynchManager.h:21, 40). The lock, or the condition, has
    the number of the entry. -/
structure Entry where
  ownerProcess : Option ℕ
  toBeUsed : Bool
  toBeDeleted : Bool
  deriving DecidableEq

/-- The constructor. -/
def Entry.new : Entry := ⟨none, false, false⟩

/-- A bitmap, an array of `MaxNumLocks` pointers, and the entries on the heap. -/
structure Table where
  bitMap : BitMap
  /-- `none` for a pointer that is not initialised. -/
  entries : ℕ → Option ℕ
  heap : ℕ → Option Entry
  /-- The number of the next new entry. -/
  next : ℕ

namespace Table

/-- The bitmap is new, and the array is not initialised. -/
def new : Table := ⟨.new MaxNumLocks, fun _ => none, fun _ => none, 0⟩

/-- `!(index < 0 || index > limit || !bitMap->Test(index))`. -/
def valid (T : Table) (limit index : ℤ) : Except Fault Bool :=
  if index < 0 ∨ limit < index then .ok false
  else
    match T.bitMap.test index with
    | none => .error .assertion
    | some b => .ok b

/-- `entries[index]`, and what it points to. -/
def entry (T : Table) (index : ℤ) : Except Fault (ℕ × Entry) :=
  if 0 ≤ index ∧ index < MaxNumLocks then
    match T.entries index.toNat with
    | none => .error .deleted
    | some n =>
      match T.heap n with
      | none => .error .deleted
      | some e => .ok (n, e)
  else .error .outside

/-- The entry `n` changes. -/
def set (T : Table) (n : ℕ) (e : Entry) : Table :=
  { T with heap := Function.update T.heap n (some e) }

/-- `delete entries[index]`, which is the entry `n`, and `bitMap->Clear(index)`. -/
def delete (T : Table) (index n : ℕ) : Table :=
  { T with bitMap := T.bitMap.clear index, heap := Function.update T.heap n none }

/-- `CreateLock` and `CreateCondition` (SynchManager.cc:42, 61). -/
def create (T : Table) : Table × ℤ :=
  match T.bitMap.find with
  | none => (T, -1)
  | some (index, bitMap) =>
    ({ bitMap := bitMap
       entries := Function.update T.entries index (some T.next)
       heap := Function.update T.heap T.next (some .new)
       next := T.next + 1 }, index)

/-- `DestroyLock` and `DestroyCondition` (SynchManager.cc:84, 109). -/
def destroy (T : Table) (limit index : ℤ) : Except Fault Table := do
  if ← T.valid limit index then
    let (n, e) ← T.entry index
    if e.ownerProcess = none ∧ e.toBeUsed = false then return T.delete index.toNat n
    else return T.set n { e with toBeDeleted := true }
  else return T

/-- The entry gets other fields. -/
def modify (T : Table) (index : ℤ) (f : Entry → Entry) : Except Fault (ℕ × Table) := do
  let (n, e) ← T.entry index
  return (n, T.set n (f e))

end Table

/-! ## The manager -/

/-- `class SynchManager` (SynchManager.h:60). -/
structure Manager where
  lockTable : Table
  cvTable : Table

/-- The constructor (SynchManager.cc:15). -/
def Manager.new : Manager := ⟨.new, .new⟩

/-- `lock_ForLockTable`, `lock_ForCVTable` and the locks of the entries. -/
inductive LockName
  | forLockTable
  | forCVTable
  | user (entry : ℕ)
  deriving DecidableEq

/-- The calls with a condition and a lock. -/
inductive CVCall
  | wait
  | signal
  | broadcast
  deriving DecidableEq

/-- What a user program does next. -/
inductive Request
  | createLock
  | createCondition
  | destroyLock (index : ℤ)
  | destroyCondition (index : ℤ)
  | acquire (lockIndex : ℤ)
  | release (lockIndex : ℤ)
  | onCondition (call : CVCall) (cvIndex lockIndex : ℤ)
  /-- `Fork`, or `Exec` of another process. -/
  | fork (space : ℕ)
  | exit
  deriving DecidableEq

/-- Where a thread goes on after a kernel call. -/
inductive Point
  /-- In the user program, with what the last call has returned. -/
  | user (result : Option ℤ)
  | createLock
  | createCondition
  | destroyLock (index : ℤ)
  | destroyCondition (index : ℤ)
  | acquire (lockIndex : ℤ)
  /-- `Acquire`, without the lock of the table. -/
  | acquiring (lockIndex : ℤ)
  | acquired (lockIndex : ℤ)
  | release (lockIndex : ℤ)
  | released (lockIndex : ℤ)
  /-- With the lock of the conditions' table. -/
  | onCondition (call : CVCall) (cvIndex lockIndex : ℤ)
  /-- With both. -/
  | validate (call : CVCall) (cvIndex lockIndex : ℤ)
  | waitLeave (cvIndex lockIndex : ℤ)
  | waiting (cvIndex lockIndex : ℤ)
  | waited (cvIndex lockIndex : ℤ)
  | signalled (cvIndex lockIndex : ℤ)
  | leave
  deriving DecidableEq

/-- A thread in a process. -/
structure Pc where
  /-- `currentThread->space`. -/
  space : ℕ
  point : Point
  deriving DecidableEq

/-- The system. -/
abbrev System := Machine LockName ℕ Pc Manager

/-- What a thread does up to its next kernel call. -/
abbrev Code := Action LockName ℕ Pc Manager

/-- A system call takes the lock of its table first. -/
def call (s : Manager) (space : ℕ) : Request → Code
  | .createLock => ⟨s, .acquire .forLockTable, ⟨space, .createLock⟩⟩
  | .createCondition => ⟨s, .acquire .forCVTable, ⟨space, .createCondition⟩⟩
  | .destroyLock i => ⟨s, .acquire .forLockTable, ⟨space, .destroyLock i⟩⟩
  | .destroyCondition c => ⟨s, .acquire .forCVTable, ⟨space, .destroyCondition c⟩⟩
  | .acquire i => ⟨s, .acquire .forLockTable, ⟨space, .acquire i⟩⟩
  | .release i => ⟨s, .acquire .forLockTable, ⟨space, .release i⟩⟩
  | .onCondition f c i => ⟨s, .acquire .forCVTable, ⟨space, .onCondition f c i⟩⟩
  | .fork child => ⟨s, .fork ⟨child, .user none⟩, ⟨space, .user none⟩⟩
  | .exit => ⟨s, .finish, ⟨space, .user none⟩⟩

/-- `SynchManager::CreateLock` (SynchManager.cc:42). -/
def createLock (s : Manager) (space : ℕ) : Code :=
  ⟨{ s with lockTable := s.lockTable.create.1 }, .release .forLockTable,
    ⟨space, .user (some s.lockTable.create.2)⟩⟩

/-- `SynchManager::CreateCondition` (SynchManager.cc:61). -/
def createCondition (s : Manager) (space : ℕ) : Code :=
  ⟨{ s with cvTable := s.cvTable.create.1 }, .release .forCVTable,
    ⟨space, .user (some s.cvTable.create.2)⟩⟩

/-- `SynchManager::DestroyLock` (SynchManager.cc:84). -/
def destroyLock (s : Manager) (space : ℕ) (index : ℤ) : Except Fault Code := do
  let T ← s.lockTable.destroy MaxNumLocks index
  return ⟨{ s with lockTable := T }, .release .forLockTable, ⟨space, .user none⟩⟩

/-- `SynchManager::DestroyCondition` (SynchManager.cc:109). -/
def destroyCondition (s : Manager) (space : ℕ) (index : ℤ) : Except Fault Code := do
  let T ← s.cvTable.destroy MaxNumCVs index
  return ⟨{ s with cvTable := T }, .release .forCVTable, ⟨space, .user none⟩⟩

/-- `SynchManager::Acquire` (SynchManager.cc:137), up to the `Release` of the table. -/
def acquire (s : Manager) (space : ℕ) (lockIndex : ℤ) : Except Fault Code := do
  if ← s.lockTable.valid MaxNumCVs lockIndex then
    let (_, T) ← s.lockTable.modify lockIndex fun e => { e with toBeUsed := true }
    return ⟨{ s with lockTable := T }, .release .forLockTable, ⟨space, .acquiring lockIndex⟩⟩
  -- an error is printed, and the table is not released
  else return ⟨s, .yield, ⟨space, .user none⟩⟩

/-- `lockEntries[lockIndex]->lock->Acquire()`. -/
def acquiring (s : Manager) (space : ℕ) (lockIndex : ℤ) : Except Fault Code := do
  let (n, _) ← s.lockTable.entry lockIndex
  return ⟨s, .acquire (.user n), ⟨space, .acquired lockIndex⟩⟩

/-- The rest of `Acquire`. -/
def acquired (s : Manager) (space : ℕ) (lockIndex : ℤ) : Except Fault Code := do
  let (_, T) ← s.lockTable.modify lockIndex
    fun e => { e with ownerProcess := some space, toBeUsed := false }
  return ⟨{ s with lockTable := T }, .yield, ⟨space, .user none⟩⟩

/-- `SynchManager::Release` (SynchManager.cc:154), up to the `Release` of the user's lock. -/
def release (s : Manager) (space : ℕ) (lockIndex : ℤ) : Except Fault Code := do
  if ← s.lockTable.valid MaxNumCVs lockIndex then
    let (n, _) ← s.lockTable.entry lockIndex
    return ⟨s, .release (.user n), ⟨space, .released lockIndex⟩⟩
  -- an error is printed, and the table is not released
  else return ⟨s, .yield, ⟨space, .user none⟩⟩

/-- The rest of `Release`. -/
def released (s : Manager) (space : ℕ) (lockIndex : ℤ) : Except Fault Code := do
  let (n, e) ← s.lockTable.entry lockIndex
  let T := s.lockTable.set n { e with ownerProcess := none }
  let T := if e.toBeDeleted then T.delete lockIndex.toNat n else T
  return ⟨{ s with lockTable := T }, .release .forLockTable, ⟨space, .user none⟩⟩

/-- What `Wait`, `Signal` and `Broadcast` do with the entries. -/
def onCondition (s : Manager) (space : ℕ) (cvIndex lockIndex : ℤ) :
    CVCall → Except Fault Code
  | .wait => do
    let (_, T) ← s.cvTable.modify cvIndex fun e => { e with toBeUsed := true }
    return ⟨{ s with cvTable := T }, .release .forLockTable,
      ⟨space, .waitLeave cvIndex lockIndex⟩⟩
  | .signal => do
    let (c, _) ← s.cvTable.entry cvIndex
    let (n, _) ← s.lockTable.entry lockIndex
    return ⟨s, .signal c (.user n), ⟨space, .signalled cvIndex lockIndex⟩⟩
  | .broadcast => do
    let (c, _) ← s.cvTable.entry cvIndex
    let (n, _) ← s.lockTable.entry lockIndex
    return ⟨s, .broadcast c (.user n), ⟨space, .signalled cvIndex lockIndex⟩⟩

/-- The checks of `Wait`, `Signal` and `Broadcast` (SynchManager.cc:182, 214, 240). -/
def validate (s : Manager) (space : ℕ) (f : CVCall) (cvIndex lockIndex : ℤ) :
    Except Fault Code := do
  if ← s.cvTable.valid MaxNumCVs cvIndex then
    if ← s.lockTable.valid MaxNumCVs lockIndex then onCondition s space cvIndex lockIndex f
    else return ⟨s, .release .forLockTable, ⟨space, .leave⟩⟩
  else return ⟨s, .release .forLockTable, ⟨space, .leave⟩⟩

/-- `cvEntries[cvIndex]->cv->Wait(lockEntries[lockIndex]->lock)`. -/
def waiting (s : Manager) (space : ℕ) (cvIndex lockIndex : ℤ) : Except Fault Code := do
  let (c, T) ← s.cvTable.modify cvIndex fun e => { e with ownerProcess := some space }
  let (n, _) ← s.lockTable.entry lockIndex
  return ⟨{ s with cvTable := T }, .wait c (.user n), ⟨space, .waited cvIndex lockIndex⟩⟩

/-- The rest of `Wait`. -/
def waited (s : Manager) (space : ℕ) (cvIndex : ℤ) : Except Fault Code := do
  let (_, T) ← s.cvTable.modify cvIndex
    fun e => { e with ownerProcess := none, toBeUsed := false }
  return ⟨{ s with cvTable := T }, .yield, ⟨space, .user none⟩⟩

/-- What a thread does at a point, up to its next kernel call. -/
def code (pc : Pc) (x : Request) (s : Manager) : Except Fault Code :=
  match pc.point with
  | .user _ => .ok (call s pc.space x)
  | .createLock => .ok (createLock s pc.space)
  | .createCondition => .ok (createCondition s pc.space)
  | .destroyLock i => destroyLock s pc.space i
  | .destroyCondition c => destroyCondition s pc.space c
  | .acquire i => acquire s pc.space i
  | .acquiring i => acquiring s pc.space i
  | .acquired i => acquired s pc.space i
  | .release i => release s pc.space i
  | .released i => released s pc.space i
  | .onCondition f c i => .ok ⟨s, .acquire .forLockTable, ⟨pc.space, .validate f c i⟩⟩
  | .validate f c i => validate s pc.space f c i
  | .waitLeave c i => .ok ⟨s, .release .forCVTable, ⟨pc.space, .waiting c i⟩⟩
  | .waiting c i => waiting s pc.space c i
  | .waited c _ => waited s pc.space c
  | .signalled _ _ => .ok ⟨s, .release .forLockTable, ⟨pc.space, .leave⟩⟩
  | .leave => .ok ⟨s, .release .forCVTable, ⟨pc.space, .user none⟩⟩

/-- The program, where it does not fault. -/
def program (pc : Pc) (x : Request) (s : Manager) : Code :=
  match code pc x s with
  | .ok a => a
  | .error _ => ⟨s, .yield, pc⟩

/-- The lock of an entry is deleted with it. -/
def Manager.HasLock (s : Manager) : LockName → Prop
  | .user n => s.lockTable.heap n ≠ none
  | .forLockTable | .forCVTable => True

instance (s : Manager) (l : LockName) : Decidable (s.HasLock l) := by
  unfold Manager.HasLock
  split <;> infer_instance

/-- What a step touches is there. -/
def check (m : System) (tx : ℕ × Request) : Except Fault Unit :=
  match m.pc tx.1 with
  | none => .error .impossible
  | some pc =>
    match m.status tx.1 with
    | .ready =>
      match code pc tx.2 m.shared with
      | .ok _ => .ok ()
      | .error f => .error f
    | .woken l => if m.shared.HasLock l then .ok () else .error .deleted
    | .broadcasting c l =>
      if m.shared.HasLock l ∧ m.shared.cvTable.heap c ≠ none then .ok () else .error .deleted
    | .acquiring _ | .waiting _ _ | .finished => .error .impossible

/-- **A step** of a thread. -/
def managerStep (m : System) (tx : ℕ × Request) : Except Fault System :=
  match check m tx with
  | .error f => .error f
  | .ok _ =>
    match Machine.step program m tx with
    | .ok m' => .ok m'
    | .error _ => .error .impossible

/-- The first process, in the address space 0. -/
def start : System := Machine.init ⟨0, .user none⟩ .new

/-! ## Steps -/

section

variable {m m' : System} {t : ℕ} {x : Request} {pc : Pc}

/-- A step of a thread that is between two kernel calls. -/
theorem managerStep_ready (hp : m.pc t = some pc) (ht : m.status t = .ready) (x : Request) :
    managerStep m (t, x) = (code pc x m.shared).map
      fun a => (m.compute t a.shared a.pc).perform t a.op := by
  unfold managerStep check Machine.step program
  simp only [hp, ht]
  cases code pc x m.shared <;> rfl

/-- **What a step can do.** -/
theorem managerStep_cases (h : managerStep m (t, x) = .ok m') :
    (∃ pc a, m.pc t = some pc ∧ m.status t = .ready ∧ code pc x m.shared = .ok a ∧
        m' = (m.compute t a.shared a.pc).perform t a.op) ∨
      (∃ pc l, m.pc t = some pc ∧ m.status t = .woken l ∧ m.shared.HasLock l ∧
        m' = m.acquire t l) ∨
      ∃ pc c l, m.pc t = some pc ∧ m.status t = .broadcasting c l ∧ m.shared.HasLock l ∧
        m.shared.cvTable.heap c ≠ none ∧ m' = m.broadcast t c l := by
  unfold managerStep check Machine.step at h
  simp only at h
  cases hp : m.pc t with
  | none => simp [hp] at h
  | some pc =>
    cases ht : m.status t <;> simp only [hp, ht, reduceCtorEq] at h
    case ready =>
      left
      cases ha : code pc x m.shared with
      | error f => simp [ha] at h
      | ok a =>
        simp only [ha, program, Except.ok.injEq] at h
        exact ⟨pc, a, rfl, rfl, ha, h.symm⟩
    case woken l =>
      split_ifs at h with hl
      · simp only [Except.ok.injEq] at h
        exact Or.inr (Or.inl ⟨pc, l, rfl, rfl, hl, h.symm⟩)
    case broadcasting c l =>
      split_ifs at h with hl
      · simp only [Except.ok.injEq] at h
        exact Or.inr (Or.inr ⟨pc, c, l, rfl, rfl, hl.1, hl.2, h.symm⟩)

/-- A step that does not fault is a step of the machine. -/
theorem step_of_managerStep (h : managerStep m (t, x) = .ok m') :
    Machine.step program m (t, x) = .ok m' := by
  unfold managerStep at h
  split at h
  next => cases h
  next =>
    split at h
    next m'' hm => rw [hm, ← Except.ok.inj h]
    next => cases h

end

/-! ## The slots -/

namespace Table

/-- The bit of the index is set. -/
def Live (T : Table) (index : ℤ) : Prop :=
  0 ≤ index ∧ index < MaxNumLocks ∧ T.bitMap.map index.toNat = true

instance (T : Table) (index : ℤ) : Decidable (T.Live index) := inferInstanceAs (Decidable (_ ∧ _))

/-- **The bits that are set are those of the slots with an entry**, and no entry is in two slots. -/
structure Ok (T : Table) : Prop where
  numBits : T.bitMap.numBits = MaxNumLocks
  live : ∀ i, T.bitMap.map i = true →
    i < MaxNumLocks ∧ ∃ n, T.entries i = some n ∧ T.heap n ≠ none
  dead : ∀ i n, T.entries i = some n → T.heap n ≠ none → T.bitMap.map i = true
  inj : ∀ i j n, T.entries i = some n → T.entries j = some n → i = j
  fresh : ∀ i n, T.entries i = some n → n < T.next
  fresh_heap : ∀ n, T.next ≤ n → T.heap n = none

variable {T T' : Table} {index limit : ℤ} {i n : ℕ} {e : Entry}

theorem Ok.new : new.Ok := by
  constructor
  · rfl
  · intro i hi
    cases hi
  · intro i n hn
    cases hn
  · intro i j n hn
    cases hn
  · intro i n hn
    cases hn
  · intro n _
    rfl

/-- The slot that is read has a live index. -/
theorem entry_eq_ok (h : T.Ok) : T.entry index = .ok (n, e) ↔
    T.Live index ∧ T.entries index.toNat = some n ∧ T.heap n = some e := by
  unfold entry Live
  constructor
  · intro heq
    split_ifs at heq with hrange
    cases hn : T.entries index.toNat with
    | none => simp [hn] at heq
    | some k =>
      cases he : T.heap k with
      | none => simp [hn, he] at heq
      | some e' =>
        simp only [hn, he, Except.ok.injEq, Prod.mk.injEq] at heq
        obtain ⟨rfl, rfl⟩ := heq
        exact ⟨⟨hrange.1, hrange.2, h.dead _ _ hn (by simp [he])⟩, rfl, he⟩
  · rintro ⟨⟨h0, hlt, -⟩, hn, he⟩
    rw [if_pos ⟨h0, hlt⟩]
    simp only [hn, he]

/-- An index that is live has an entry. -/
theorem exists_entry (h : T.Ok) (hlive : T.Live index) : ∃ n e, T.entry index = .ok (n, e) := by
  obtain ⟨-, n, hn, he⟩ := h.live index.toNat hlive.2.2
  obtain ⟨e, he⟩ := Option.ne_none_iff_exists'.mp he
  exact ⟨n, e, (entry_eq_ok h).mpr ⟨hlive, hn, he⟩⟩

/-- **The check of an index** fails in the assertion if the index is beyond the bitmap and within
    the limit. -/
theorem valid_eq (h : T.Ok) (hlimit : (MaxNumLocks : ℤ) ≤ limit) : T.valid limit index =
    if (MaxNumLocks : ℤ) ≤ index ∧ index ≤ limit then .error .assertion
    else .ok (decide (T.Live index)) := by
  have hdead (hout : index < 0 ∨ (MaxNumLocks : ℤ) ≤ index) : decide (T.Live index) = false := by
    rw [decide_eq_false_iff_not]
    intro hlive
    have h0 := hlive.1
    have hlt := hlive.2.1
    omega
  unfold valid BitMap.test
  rw [h.numBits]
  by_cases hneg : index < 0
  · rw [if_pos (Or.inl hneg), if_neg (by omega), hdead (Or.inl hneg)]
  · by_cases hbig : limit < index
    · rw [if_pos (Or.inr hbig), if_neg (by omega), hdead (Or.inr (by omega))]
    · rw [if_neg (by omega)]
      by_cases hlt : index < (MaxNumLocks : ℤ)
      · have hlive : decide (T.Live index) = T.bitMap.map index.toNat := by
          have hlt' : index < 10000 := hlt
          unfold Live
          simp [show 0 ≤ index by omega, hlt']
        rw [if_pos ⟨by omega, hlt⟩, if_neg (by omega), hlive]
      · rw [if_neg (by omega), if_pos (by omega)]

/-! ## The operations -/

/-- What an operation on a table leaves: the slots that are live, unless it deletes them. -/
structure Keeps (deletes : ℤ → Prop) (T T' : Table) : Prop where
  ok : T'.Ok
  live : ∀ index, T.Live index → ¬ deletes index →
    T'.Live index ∧ T'.entries index.toNat = T.entries index.toNat

variable {deletes : ℤ → Prop}

theorem Keeps.refl (h : T.Ok) : Keeps deletes T T := ⟨h, fun _ hlive _ => ⟨hlive, rfl⟩⟩

theorem Keeps.set (h : T.Ok) (hn : T.heap n ≠ none) (e : Entry) : Keeps deletes T (T.set n e) := by
  have hheap (k : ℕ) : Function.update T.heap n (some e) k ≠ none ↔ T.heap k ≠ none := by
    by_cases hk : k = n
    · subst hk
      simp [hn]
    · rw [Function.update_of_ne hk]
  refine ⟨⟨h.numBits, ?_, ?_, h.inj, h.fresh, ?_⟩, fun _ hlive _ => ⟨hlive, rfl⟩⟩
  · intro i hi
    obtain ⟨hlt, k, hk, hlive⟩ := h.live i hi
    exact ⟨hlt, k, hk, (hheap k).mpr hlive⟩
  · intro i k hk hlive
    exact h.dead i k hk ((hheap k).mp hlive)
  · intro k hk
    show Function.update T.heap n (some e) k = none
    have hne : k ≠ n := by
      rintro rfl
      exact hn (h.fresh_heap k hk)
    rw [Function.update_of_ne hne]
    exact h.fresh_heap k hk

theorem Keeps.create (h : T.Ok) : Keeps deletes T T.create.1 := by
  unfold Table.create
  cases hfind : T.bitMap.find with
  | none => exact Keeps.refl h
  | some found =>
    obtain ⟨i, bitMap⟩ := found
    obtain ⟨hlt, hclear, -, rfl⟩ := BitMap.find_eq_some hfind
    rw [h.numBits] at hlt
    have hentry {j k : ℕ} (hk : Function.update T.entries i (some T.next) j = some k) :
        j = i ∧ k = T.next ∨ j ≠ i ∧ T.entries j = some k := by
      by_cases hj : j = i
      · subst hj
        rw [Function.update_self] at hk
        exact Or.inl ⟨rfl, (Option.some_injective _ hk).symm⟩
      · rw [Function.update_of_ne hj] at hk
        exact Or.inr ⟨hj, hk⟩
    have hheap {k : ℕ} (hk : k < T.next) :
        Function.update T.heap T.next (some Entry.new) k = T.heap k :=
      Function.update_of_ne (Nat.ne_of_lt hk) _ _
    refine ⟨⟨h.numBits, ?_, ?_, ?_, ?_, ?_⟩, ?_⟩
    · intro j hj
      change (T.bitMap.mark i).map j = true at hj
      by_cases hji : j = i
      · subst hji
        exact ⟨hlt, T.next, Function.update_self .., by simp⟩
      · rw [BitMap.map_mark_of_ne hji] at hj
        obtain ⟨hlt', k, hk, hlive⟩ := h.live j hj
        refine ⟨hlt', k, (Function.update_of_ne hji _ _).trans hk, ?_⟩
        show Function.update T.heap T.next (some Entry.new) k ≠ none
        rwa [hheap (h.fresh j k hk)]
    · intro j k hk hlive
      show (T.bitMap.mark i).map j = true
      rcases hentry hk with ⟨rfl, -⟩ | ⟨hji, hk⟩
      · exact BitMap.map_mark_self
      · rw [BitMap.map_mark_of_ne hji]
        change Function.update T.heap T.next (some Entry.new) k ≠ none at hlive
        rw [hheap (h.fresh j k hk)] at hlive
        exact h.dead j k hk hlive
    · intro j j' k hk hk'
      rcases hentry hk with ⟨hj, hnext⟩ | ⟨-, hold⟩ <;>
        rcases hentry hk' with ⟨hj', hnext'⟩ | ⟨-, hold'⟩
      · rw [hj, hj']
      · have hlt' := h.fresh j' k hold'
        omega
      · have hlt' := h.fresh j k hold
        omega
      · exact h.inj j j' k hold hold'
    · intro j k hk
      show k < T.next + 1
      rcases hentry hk with ⟨-, rfl⟩ | ⟨-, hk⟩
      · omega
      · have := h.fresh j k hk
        omega
    · intro k hk
      change T.next + 1 ≤ k at hk
      exact (Function.update_of_ne (by omega) _ _).trans (h.fresh_heap k (by omega))
    · intro index hlive _
      have hne : index.toNat ≠ i := by
        intro heq
        rw [← heq, hlive.2.2] at hclear
        cases hclear
      refine ⟨⟨hlive.1, hlive.2.1, ?_⟩, Function.update_of_ne hne _ _⟩
      show (T.bitMap.mark i).map index.toNat = true
      rw [BitMap.map_mark_of_ne hne]
      exact hlive.2.2

theorem Keeps.delete (h : T.Ok) (hn : T.entries index.toNat = some n)
    (hdeletes : ∀ j : ℤ, T.Live j → j.toNat = index.toNat → deletes j) :
    Keeps deletes T (T.delete index.toNat n) := by
  refine ⟨⟨h.numBits, ?_, ?_, h.inj, h.fresh, ?_⟩, ?_⟩
  · intro j hj
    change (T.bitMap.clear index.toNat).map j = true at hj
    have hne : j ≠ index.toNat := by
      rintro rfl
      rw [BitMap.map_clear_self] at hj
      cases hj
    rw [BitMap.map_clear_of_ne hne] at hj
    obtain ⟨hlt, k, hk, hlive⟩ := h.live j hj
    refine ⟨hlt, k, hk, ?_⟩
    show Function.update T.heap n none k ≠ none
    have hkn : k ≠ n := by
      rintro rfl
      exact hne (h.inj j _ k hk hn)
    rwa [Function.update_of_ne hkn]
  · intro j k hk hlive
    change Function.update T.heap n none k ≠ none at hlive
    show (T.bitMap.clear index.toNat).map j = true
    have hkn : k ≠ n := by
      rintro rfl
      simp at hlive
    rw [Function.update_of_ne hkn] at hlive
    have hne : j ≠ index.toNat := by
      rintro rfl
      exact hkn (Option.some_injective _ ((show T.entries _ = _ from hk).symm.trans hn))
    rw [BitMap.map_clear_of_ne hne]
    exact h.dead j k hk hlive
  · intro k hk
    show Function.update T.heap n none k = none
    by_cases hkn : k = n
    · subst hkn
      exact Function.update_self ..
    · rw [Function.update_of_ne hkn]
      exact h.fresh_heap k hk
  · intro j hlive hj
    have hne : j.toNat ≠ index.toNat := fun heq => hj (hdeletes j hlive heq)
    refine ⟨⟨hlive.1, hlive.2.1, ?_⟩, rfl⟩
    show (T.bitMap.clear index.toNat).map j.toNat = true
    rw [BitMap.map_clear_of_ne hne]
    exact hlive.2.2

/-- A field of an entry changes. -/
theorem Keeps.modify {f : Entry → Entry} (h : T.Ok) (hm : T.modify index f = .ok (n, T')) :
    Keeps deletes T T' ∧ T'.Live index ∧ T'.entries index.toNat = some n := by
  unfold Table.modify at hm
  obtain ⟨⟨k, e⟩, he, hm⟩ := bind_eq_ok.mp hm
  obtain ⟨hlive, hk, he⟩ := (entry_eq_ok h).mp he
  cases hm
  exact ⟨Keeps.set h (by simp [he]) _, hlive, hk⟩

end Table

end Nachos.Userprog
