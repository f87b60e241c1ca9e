import Nachos.Threads.InterleavingOwners
import Nachos.Userprog.Entries

/-!
# The locks of the tables

Every call of `SynchManager` takes the lock of a table first, and `Wait`, `Signal` and `Broadcast`
take both, always in the same order. `Acquire` and `Release` return from their error branch with
the lock that they have taken.

* `table_locks_given_back_iff`: in which runs every call gives its locks back.
-/

namespace Nachos.Userprog

open Nachos.Lib Nachos.Threads

/-! ## The property -/

/-- `lock_ForLockTable` or `lock_ForCVTable`. -/
def LockName.OfTable : LockName → Prop
  | .forLockTable | .forCVTable => True
  | .user _ => False

/-- The thread sleeps in a lock or a condition of the users. -/
def Blocked : Status LockName ℕ → Prop
  | .acquiring l => ¬ l.OfTable
  | .waiting _ _ | .woken _ => True
  | .ready | .broadcasting _ _ | .finished => False

/-- **The tables' locks are given back.** -/
structure GivenBack (m : System) : Prop where
  /-- A thread that is in the user program, or sleeps in a user's lock or condition, has none. -/
  returned : ∀ t pc l, m.pc t = some pc → (∃ r, pc.point = .user r) ∨ Blocked (m.status t) →
    l.OfTable → (m.locks l).owner ≠ some t
  /-- No two threads have one each and wait for the other one. -/
  noDeadlock : ∀ t u, (m.locks .forLockTable).owner = some t →
    m.status t = .acquiring .forCVTable → (m.locks .forCVTable).owner = some u →
      m.status u ≠ .acquiring .forLockTable

/-- The index of `Acquire` or `Release` is live. -/
def IndexLive (m : System) (tx : ℕ × Request) : Prop :=
  ∀ pc i, m.pc tx.1 = some pc → m.status tx.1 = .ready →
    pc.point = .acquire i ∨ pc.point = .release i → m.shared.lockTable.Live i

/-! ## Where the locks are held -/

/-- The locks of the tables that a call has at a point. -/
def Point.Holds : Point → LockName → Prop
  | .createLock, l | .destroyLock _, l | .acquire _, l | .release _, l | .released _, l =>
    l = .forLockTable
  | .createCondition, l | .destroyCondition _, l | .onCondition _ _ _, l | .waitLeave _ _, l
  | .leave, l => l = .forCVTable
  | .validate _ _ _, l | .signalled _ _, l => l = .forLockTable ∨ l = .forCVTable
  | .user _, _ | .acquiring _, _ | .acquired _, _ | .waiting _ _, _ | .waited _ _, _ => False

/-- What a thread holds while it sleeps in a kernel call. -/
def Rests (q : Point) : Status LockName ℕ → Prop
  | .acquiring (.user _) => ∀ l, ¬ q.Holds l
  | .waiting _ k | .woken k => ¬ k.OfTable ∧ ∀ l, ¬ q.Holds l
  | .acquiring .forCVTable => q.Holds .forCVTable ∧ ¬ q.Holds .forLockTable
  | .acquiring .forLockTable => q.Holds .forLockTable
  | .ready | .broadcasting _ _ | .finished => True

/-- The same of a kernel call that a thread makes. -/
def OpRests (q : Point) : Op LockName ℕ Pc → Prop
  | .acquire l => Rests q (.acquiring l)
  | .wait c l => Rests q (.waiting c l)
  | .fork child => child.point = .user none
  | .release _ | .signal _ _ | .broadcast _ _ | .yield | .finish => True

/-- **What a thread does with the locks of the tables** up to its next kernel call. -/
structure Locking (s : Manager) (q : Point) (a : Code) : Prop where
  /-- It has one more that it acquires, and one less that it releases. -/
  keeps : ∀ l, a.pc.point.Holds l → a.op = .acquire l ∨ a.op ≠ .release l ∧ q.Holds l
  /-- It loses none otherwise, but for an index that is not live. -/
  kept : (∀ i, q = .acquire i ∨ q = .release i → s.lockTable.Live i) →
    ∀ l, q.Holds l → a.op = .release l ∨ a.pc.point.Holds l
  rests : OpRests a.pc.point a.op
  releases : ∀ i, q = .acquire i ∨ q = .release i → ¬ s.lockTable.Live i →
    a.op = .yield ∧ a.pc.point = .user none

section

variable {s : Manager} {space : ℕ} {a : Code} {i c : ℤ} {q : Point} {pc : Pc} {x : Request}

/-- A point that is not at the test of `Acquire` or `Release`. -/
theorem Locking.of_other (hq : ∀ i, ¬ (q = .acquire i ∨ q = .release i))
    (hkeeps : ∀ l, a.pc.point.Holds l → a.op = .acquire l ∨ a.op ≠ .release l ∧ q.Holds l)
    (hkept : ∀ l, q.Holds l → a.op = .release l ∨ a.pc.point.Holds l)
    (hrests : OpRests a.pc.point a.op) : Locking s q a :=
  ⟨hkeeps, fun _ => hkept, hrests, fun i hi => absurd hi (hq i)⟩

theorem acquire_locking (h : s.lockTable.Ok) (ha : acquire s space i = .ok a) :
    Locking s (.acquire i) a := by
  unfold acquire at ha
  obtain ⟨b, hb, ha⟩ := bind_eq_ok.mp ha
  rw [Table.valid_eq h (by simp)] at hb
  split_ifs at hb
  have hlive : s.lockTable.Live i ↔ b = true := by
    rw [← Except.ok.inj hb, decide_eq_true_iff]
  split_ifs at ha with htrue
  · obtain ⟨⟨n, T⟩, -, ha⟩ := bind_eq_ok.mp ha
    cases ha
    refine ⟨by simp [Point.Holds], by simp [Point.Holds], trivial, ?_⟩
    rintro j (hj | hj) hdead <;> cases hj
    exact absurd (hlive.mpr htrue) hdead
  · cases ha
    refine ⟨by simp [Point.Holds], ?_, trivial, fun _ _ _ => ⟨rfl, rfl⟩⟩
    intro hall
    exact absurd (hlive.mp (hall i (Or.inl rfl))) htrue

theorem release_locking (h : s.lockTable.Ok) (ha : release s space i = .ok a) :
    Locking s (.release i) a := by
  unfold release at ha
  obtain ⟨b, hb, ha⟩ := bind_eq_ok.mp ha
  rw [Table.valid_eq h (by simp)] at hb
  split_ifs at hb
  have hlive : s.lockTable.Live i ↔ b = true := by
    rw [← Except.ok.inj hb, decide_eq_true_iff]
  split_ifs at ha with htrue
  · obtain ⟨⟨n, e⟩, -, ha⟩ := bind_eq_ok.mp ha
    cases ha
    refine ⟨by simp [Point.Holds], by simp [Point.Holds], trivial, ?_⟩
    rintro j (hj | hj) hdead <;> cases hj
    exact absurd (hlive.mpr htrue) hdead
  · cases ha
    refine ⟨by simp [Point.Holds], ?_, trivial, fun _ _ _ => ⟨rfl, rfl⟩⟩
    intro hall
    exact absurd (hlive.mp (hall i (Or.inr rfl))) htrue

theorem validate_locking {f : CVCall} (ha : validate s space f c i = .ok a) :
    Locking s (.validate f c i) a := by
  unfold validate at ha
  obtain ⟨b, -, ha⟩ := bind_eq_ok.mp ha
  split_ifs at ha
  · obtain ⟨b', -, ha⟩ := bind_eq_ok.mp ha
    split_ifs at ha
    · cases f with
      | wait =>
        obtain ⟨⟨n, T⟩, -, ha⟩ := bind_eq_ok.mp ha
        cases ha
        apply Locking.of_other <;> simp [Point.Holds, OpRests]
      | signal =>
        obtain ⟨⟨d, e⟩, -, ha⟩ := bind_eq_ok.mp ha
        obtain ⟨⟨n, e'⟩, -, ha⟩ := bind_eq_ok.mp ha
        cases ha
        apply Locking.of_other <;> simp [Point.Holds, OpRests]
      | broadcast =>
        obtain ⟨⟨d, e⟩, -, ha⟩ := bind_eq_ok.mp ha
        obtain ⟨⟨n, e'⟩, -, ha⟩ := bind_eq_ok.mp ha
        cases ha
        apply Locking.of_other <;> simp [Point.Holds, OpRests]
    · cases ha
      apply Locking.of_other <;> simp [Point.Holds, OpRests]
  · cases ha
    apply Locking.of_other <;> simp [Point.Holds, OpRests]

theorem call_locking {r : Option ℤ} (x : Request) : Locking s (.user r) (call s space x) := by
  cases x <;> apply Locking.of_other <;> simp [call, Point.Holds, OpRests, Rests]

/-- **Every point of the program.** -/
theorem code_locking (h : s.lockTable.Ok) (ha : code pc x s = .ok a) : Locking s pc.point a := by
  obtain ⟨space, q⟩ := pc
  unfold code at ha
  cases q with
  | user r =>
    cases ha
    exact call_locking x
  | createLock =>
    cases ha
    apply Locking.of_other <;> simp [createLock, Point.Holds, OpRests]
  | createCondition =>
    cases ha
    apply Locking.of_other <;> simp [createCondition, Point.Holds, OpRests]
  | destroyLock i =>
    obtain ⟨T, -, ha⟩ := bind_eq_ok.mp ha
    cases ha
    apply Locking.of_other <;> simp [Point.Holds, OpRests]
  | destroyCondition c =>
    obtain ⟨T, -, ha⟩ := bind_eq_ok.mp ha
    cases ha
    apply Locking.of_other <;> simp [Point.Holds, OpRests]
  | acquire i => exact acquire_locking h ha
  | acquiring i =>
    obtain ⟨⟨n, e⟩, -, ha⟩ := bind_eq_ok.mp ha
    cases ha
    apply Locking.of_other <;> simp [Point.Holds, OpRests, Rests]
  | acquired i =>
    obtain ⟨⟨n, T⟩, -, ha⟩ := bind_eq_ok.mp ha
    cases ha
    apply Locking.of_other <;> simp [Point.Holds, OpRests]
  | release i => exact release_locking h ha
  | released i =>
    obtain ⟨⟨n, e⟩, -, ha⟩ := bind_eq_ok.mp ha
    cases ha
    apply Locking.of_other <;> simp [Point.Holds, OpRests]
  | onCondition f c i =>
    cases ha
    apply Locking.of_other <;> simp [Point.Holds, OpRests, Rests]
  | validate f c i => exact validate_locking ha
  | waitLeave c i =>
    cases ha
    apply Locking.of_other <;> simp [Point.Holds, OpRests]
  | waiting c i =>
    obtain ⟨⟨d, T⟩, -, ha⟩ := bind_eq_ok.mp ha
    obtain ⟨⟨n, e⟩, -, ha⟩ := bind_eq_ok.mp ha
    cases ha
    apply Locking.of_other <;> simp [Point.Holds, OpRests, Rests, LockName.OfTable]
  | waited c i =>
    obtain ⟨⟨d, T⟩, -, ha⟩ := bind_eq_ok.mp ha
    cases ha
    apply Locking.of_other <;> simp [Point.Holds, OpRests]
  | signalled c i =>
    cases ha
    apply Locking.of_other <;> simp [Point.Holds, OpRests]
  | leave =>
    cases ha
    apply Locking.of_other <;> simp [Point.Holds, OpRests]

end

/-! ## The invariant -/

/-- The tables' locks that a thread has at its point of the program. -/
abbrev holds (_ : Manager) (pc : Pc) (l : LockName) : Prop := pc.point.Holds l

/-- **The invariant**: who has a lock of a table is at a point where its call holds it. -/
structure TableLocksInv (m : System) : Prop where
  rests : ∀ u pc, m.pc u = some pc → Rests pc.point (m.status u)
  owns : m.Owns (m.Has holds)
  held : ∀ u l, l.OfTable → (m.locks l).owner = some u →
    ∃ pc, m.pc u = some pc ∧ pc.point.Holds l

section

variable {m m' : System} {t : ℕ} {x : Request}

theorem TableLocksInv.start : TableLocksInv start := by
  constructor
  · intro u pc hpc
    trivial
  · rintro u l ⟨pc, hpc, hl⟩
    rw [Machine.pc_init hpc] at hl
    exact hl.elim
  · intro u l _ hu
    cases hu

theorem program_eq {pc : Pc} {a : Code} (ha : code pc x m.shared = .ok a) :
    program pc x m.shared = a := by
  unfold program
  rw [ha]

theorem keeps_of_locking {pc : Pc} {a : Code} {s : Manager} (h : Locking s pc.point a) :
    Machine.Keeps holds s pc a := by
  constructor
  · intro l hl
    rcases h.keeps l hl with hop | ⟨hop, hold⟩
    · rw [hop]
      exact Or.inl rfl
    · cases hop' : a.op with
      | acquire k => exact Or.inr hold
      | release k =>
        refine ⟨?_, hold⟩
        rintro rfl
        exact hop hop'
      | _ => exact hold
  · intro child l hfork hl
    have hrests := h.rests
    rw [hfork] at hrests
    change child.point.Holds l at hl
    rw [show child.point = .user none from hrests] at hl
    exact hl

/-- What a thread that has called the kernel sleeps in. -/
theorem rests_self {q : Point} (hok : m.Ok) (ht : m.status t = .ready)
    {op : Op LockName ℕ Pc} (hop : OpRests q op) : Rests q ((m.perform t op).status t) := by
  have hself := Machine.status_perform_self hok ht op
  have hcases {st : Status LockName ℕ} (hst : Rests q st)
      (h : (m.perform t op).status t = .ready ∨ (m.perform t op).status t = st) :
      Rests q ((m.perform t op).status t) := by
    rcases h with hready | hsleeps
    · rw [hready]
      trivial
    · rwa [hsleeps]
  cases op with
  | acquire l => exact hcases (show Rests q (.acquiring l) from hop) hself
  | wait c l => exact hcases (show Rests q (.waiting c l) from hop) hself
  | broadcast c l => exact hcases (show Rests q (.broadcasting c l) from trivial) hself
  | _ =>
    rw [hself]
    trivial

/-- Another thread is given a lock, or woken. -/
theorem rests_other {q : Point} {u : ℕ} (hok : m.Ok) (hu : u ≠ t) (h : Rests q (m.status u))
    (op : Op LockName ℕ Pc) : Rests q ((m.perform t op).status u) := by
  rcases Machine.status_perform_of_ne hok hu op with
    hsame | ⟨l, -, -, hready⟩ | ⟨c, l, -, hwaiting, hwoken⟩
  · rwa [hsame]
  · rw [hready]
    trivial
  · rw [hwoken]
    rw [hwaiting] at h
    exact h

/-- A thread that waits for a lock of a table is at a point where it will have it. -/
theorem TableLocksInv.holds_of_acquiring (h : TableLocksInv m) (hok : m.Ok) {u : ℕ} {l : LockName}
    (hl : l.OfTable) (hu : m.status u = .acquiring l) :
    ∃ pc, m.pc u = some pc ∧ pc.point.Holds l := by
  cases hpc : m.pc u with
  | none =>
    have hidle := (hok.idle u hpc).symm.trans hu
    cases hidle
  | some pc =>
    have hrests := h.rests u pc hpc
    rw [hu] at hrests
    cases l with
    | forLockTable => exact ⟨pc, rfl, hrests⟩
    | forCVTable => exact ⟨pc, rfl, hrests.1⟩
    | user n => exact hl.elim

/-- **A step of the program** whose indices are live. -/
theorem TableLocksInv.perform {pc : Pc} {a : Code} (h : TableLocksInv m) (hok : m.Ok)
    (hp : m.pc t = some pc) (ht : m.status t = .ready) (hlocking : Locking m.shared pc.point a)
    (hlive : ∀ i, pc.point = .acquire i ∨ pc.point = .release i → m.shared.lockTable.Live i)
    (howns : ((m.compute t a.shared a.pc).perform t a.op).Owns
      (((m.compute t a.shared a.pc).perform t a.op).Has holds)) :
    TableLocksInv ((m.compute t a.shared a.pc).perform t a.op) := by
  have hpc : m.pc t ≠ none := by simp [hp]
  have hok' : (m.compute t a.shared a.pc).Ok := hok.compute hpc _ _
  have hready : (m.compute t a.shared a.pc).status t = .ready := ht
  -- where the threads are afterwards
  have hself := Machine.pc_computed_self hok hpc a
  have hother {u : ℕ} {q : Pc} (hu : u ≠ t) (hq : m.pc u = some q) :=
    Machine.pc_computed_of_ne hok hu hq a
  refine ⟨?_, howns, ?_⟩
  · intro u q hq
    rcases Machine.pc_computed hok hq with ⟨rfl, rfl⟩ | ⟨hu, hold⟩ | ⟨hnew, -⟩
    · exact rests_self hok' hready hlocking.rests
    · exact rests_other hok' hu (h.rests u q hold) a.op
    · have hu : u ≠ t := by
        rintro rfl
        exact hpc hnew
      refine rests_other hok' hu ?_ a.op
      show Rests q.point (m.status u)
      rw [hok.idle u hnew]
      trivial
  · intro u l hl howner
    rcases Machine.owner_perform hok' howner with
      ⟨hold, hrelease⟩ | ⟨hacquire, rfl⟩ | ⟨-, hacquiring⟩
    · obtain ⟨q, hq, hholds⟩ := h.held u l hl hold
      by_cases hu : u = t
      · subst hu
        rw [hp] at hq
        cases hq
        rcases hlocking.kept hlive l hholds with hop | hkept
        · exact absurd rfl (hrelease hop)
        · exact ⟨a.pc, hself, hkept⟩
      · exact ⟨q, hother hu hq, hholds⟩
    · have hrests := hlocking.rests
      rw [hacquire] at hrests
      cases l with
      | forLockTable => exact ⟨a.pc, hself, hrests⟩
      | forCVTable => exact ⟨a.pc, hself, hrests.1⟩
      | user n => exact hl.elim
    · obtain ⟨q, hq, hholds⟩ := h.holds_of_acquiring hok hl hacquiring
      have hu : u ≠ t := by
        rintro rfl
        rw [show m.status u = _ from hacquiring] at ht
        cases ht
      exact ⟨q, hother hu hq, hholds⟩

/-- **One step** whose index is live. -/
theorem TableLocksInv.step (h : TableLocksInv m) (hok : m.Ok ∧ m.shared.Ok)
    (hlive : IndexLive m (t, x)) (hs : managerStep m (t, x) = .ok m') : TableLocksInv m' := by
  have howns : m'.Owns (m'.Has holds) := by
    refine h.owns.step hok.1 (step_of_managerStep hs) ?_ fun _ _ _ _ _ _ _ _ hl => hl
    intro pc hp ht
    rw [managerStep_ready hp ht] at hs
    cases ha : code pc x m.shared with
    | error f =>
      rw [ha] at hs
      cases hs
    | ok a =>
      rw [program_eq ha]
      exact keeps_of_locking (code_locking hok.2.lockTable ha)
  rcases managerStep_cases hs with ⟨pc, a, hp, ht, ha, rfl⟩ | ⟨pc, l, hp, ht, -, rfl⟩ |
    ⟨pc, c, l, hp, ht, -, -, rfl⟩
  · exact h.perform hok.1 hp ht (code_locking hok.2.lockTable ha)
      (fun i hi => hlive pc i hp ht hi) howns
  · have hrests := h.rests t pc hp
    rw [ht] at hrests
    refine ⟨?_, howns, ?_⟩
    · intro u q hq
      by_cases hu : u = t
      · subst hu
        rw [show m.pc u = some q from hq] at hp
        cases hp
        have hstatus : (m.acquire u l).status u =
            if ((m.locks l).acquire u).HeldBy u then .ready else .acquiring l :=
          Function.update_self ..
        rw [hstatus]
        split_ifs
        · trivial
        · cases l with
          | user n => exact hrests.2
          | forLockTable => exact absurd trivial hrests.1
          | forCVTable => exact absurd trivial hrests.1
      · rw [Machine.status_acquire_of_ne hu]
        exact h.rests u q hq
    · intro u k hk howner
      rcases Machine.owner_acquire howner with hold | ⟨rfl, -⟩
      · exact h.held u k hk hold
      · exact absurd hk hrests.1
  · refine ⟨?_, howns, ?_⟩
    · intro u q hq
      rw [Machine.pc_broadcast] at hq
      by_cases hu : u = t
      · subst hu
        unfold Machine.broadcast
        split_ifs
        · rw [show (m.setStatus u .ready).status u = .ready from Function.update_self ..]
          trivial
        · show Rests q.point (Function.update (m.signal c l).status u (.broadcasting c l) u)
          rw [Function.update_self]
          trivial
      · exact rests_other hok.1 hu (h.rests u q hq) (.broadcast c l)
    · intro u k hk howner
      rw [Machine.locks_broadcast] at howner
      rw [Machine.pc_broadcast]
      exact h.held u k hk howner

/-! ## The property of the states -/

/-- **The invariant** gives the locks back. -/
theorem TableLocksInv.givenBack (h : TableLocksInv m) : GivenBack m := by
  constructor
  · intro u pc l hp hreturned hl howner
    obtain ⟨q, hq, hholds⟩ := h.held u l hl howner
    rw [hp] at hq
    cases hq
    rcases hreturned with ⟨r, huser⟩ | hblocked
    · rw [huser] at hholds
      exact hholds
    · have hrests := h.rests u pc hp
      cases hst : m.status u with
      | acquiring k =>
        rw [hst] at hrests hblocked
        cases k with
        | user n => exact hrests l hholds
        | forLockTable => exact hblocked trivial
        | forCVTable => exact hblocked trivial
      | waiting c k =>
        rw [hst] at hrests
        exact hrests.2 l hholds
      | woken k =>
        rw [hst] at hrests
        exact hrests.2 l hholds
      | _ =>
        rw [hst] at hblocked
        exact hblocked
  · intro u v howner hacquiring _ _
    -- the lock of the conditions' table is taken first
    obtain ⟨q, hq, hholds⟩ := h.held u .forLockTable trivial howner
    have hrests := h.rests u q hq
    rw [hacquiring] at hrests
    exact hrests.2 hholds

/-- **A step** whose index is not live returns with the lock. -/
theorem TableLocksInv.not_givenBack (h : TableLocksInv m) (hok : m.Ok ∧ m.shared.Ok)
    (hdead : ¬ IndexLive m (t, x)) (hs : managerStep m (t, x) = .ok m') : ¬ GivenBack m' := by
  unfold IndexLive at hdead
  push Not at hdead
  obtain ⟨pc, i, hp, ht, hi, hdead⟩ := hdead
  have hholds : pc.point.Holds .forLockTable := by
    rcases hi with hi | hi <;> rw [hi] <;> rfl
  have howner : (m.locks .forLockTable).owner = some t := by
    refine h.owns t .forLockTable ⟨pc, hp, hholds⟩ ?_
    rw [show m.status t = _ from ht]
    exact id
  rw [managerStep_ready hp ht] at hs
  cases ha : code pc x m.shared with
  | error f =>
    rw [ha] at hs
    cases hs
  | ok a =>
    obtain ⟨hyield, huser⟩ := (code_locking hok.2.lockTable ha).releases i hi hdead
    rw [ha] at hs
    have hm' : (m.compute t a.shared a.pc).perform t a.op = m' := Except.ok.inj hs
    rw [hyield] at hm'
    subst hm'
    intro hback
    have hp' : Function.update m.pc t (some a.pc) t = some a.pc := Function.update_self ..
    exact hback.returned t a.pc .forLockTable hp' (Or.inl ⟨none, huser⟩) trivial howner

end

/-! ## The theorem -/

/-- **Every call gives the locks of the tables back**, and no two wait for each other's, in exactly
    the runs in which no `Acquire` or `Release` has an index that is not live. -/
theorem table_locks_given_back_iff {events : List (ℕ × Request)} {m : System}
    (h : exec managerStep start events = .ok m) :
    Throughout managerStep GivenBack start events ↔ Guarded managerStep IndexLive start events := by
  have hgiven : ∀ m, (m.Ok ∧ m.shared.Ok) ∧ TableLocksInv m → GivenBack m :=
    fun m hinv => hinv.2.givenBack
  refine throughout_iff_guarded_of_exec hgiven ?_ ?_ ⟨⟨.init _ _, .new⟩, .start⟩ h
  · rintro m ⟨t, x⟩ m' ⟨hok, hinv⟩ hlive hs
    exact ⟨ok_step hok hs, hinv.step hok hlive hs⟩
  · rintro m ⟨t, x⟩ m' ⟨hok, hinv⟩ hdead hs
    exact hinv.not_givenBack hok hdead hs

/-- The first process creates a lock, acquires it and releases it. -/
theorem table_locks_given_back_iff_release :
    ∃ m : System, exec managerStep start [(0, .createLock), (0, .exit), (0, .acquire 0),
        (0, .exit), (0, .exit), (0, .exit), (0, .release 0), (0, .exit), (0, .exit)] = .ok m ∧
      (Throughout managerStep GivenBack start [(0, .createLock), (0, .exit), (0, .acquire 0),
        (0, .exit), (0, .exit), (0, .exit), (0, .release 0), (0, .exit), (0, .exit)] ↔
      Guarded managerStep IndexLive start [(0, .createLock), (0, .exit), (0, .acquire 0),
        (0, .exit), (0, .exit), (0, .exit), (0, .release 0), (0, .exit), (0, .exit)]) := by
  have hrun : Ends managerStep start [(0, .createLock), (0, .exit), (0, .acquire 0),
      (0, .exit), (0, .exit), (0, .exit), (0, .release 0), (0, .exit), (0, .exit)]
      fun m => m.status 0 = .ready := by
    decide +kernel
  obtain ⟨m, hm, -⟩ := hrun
  exact ⟨m, hm, table_locks_given_back_iff hm⟩

/-- The first process acquires the lock -1. It is in the user program again, and has the lock of the
    table. -/
theorem table_lock_kept :
    ∃ m : System, exec managerStep start [(0, .acquire (-1)), (0, .exit)] = .ok m ∧
      m.pc 0 = some ⟨0, .user none⟩ ∧ (m.locks .forLockTable).owner = some 0 ∧
        ¬ GivenBack m := by
  have hrun : Ends managerStep start [(0, .acquire (-1)), (0, .exit)] fun m =>
      m.pc 0 = some ⟨0, .user none⟩ ∧ (m.locks .forLockTable).owner = some 0 := by
    decide +kernel
  obtain ⟨m, hm, hp, howner⟩ := hrun
  refine ⟨m, hm, hp, howner, ?_⟩
  intro hback
  exact hback.returned 0 _ .forLockTable hp (Or.inl ⟨none, rfl⟩) trivial howner

end Nachos.Userprog
