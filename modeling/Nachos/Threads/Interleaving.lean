import Nachos.Threads.KernelLocks

/-!
# Threads that switch at kernel calls

A thread of the kernel that no timer interrupts loses the processor only in a call: `Acquire`,
`Release`, `Wait`, `Signal`, `Yield` or a print. A program says what a thread does up to its next
call and where it goes on; at each call the scheduler takes any thread that can run.

* `step_cases`: what a step can do.
* `Machine.Ok.step`: the queues of the locks and conditions hold the threads that sleep in them.
-/

namespace Nachos.Threads

open Nachos.Lib

/-! ## Programs -/

/-- A call of a thread. -/
inductive Op (ℓ κ π : Type)
  | acquire (lock : ℓ)
  | release (lock : ℓ)
  | wait (cond : κ) (lock : ℓ)
  | signal (cond : κ) (lock : ℓ)
  | broadcast (cond : κ) (lock : ℓ)
  | fork (routine : π)
  /-- `Yield`, or a print. -/
  | yield
  | finish
  deriving DecidableEq

/-- What a thread does up to its next call, and where it goes on after that. -/
structure Action (ℓ κ π σ : Type) where
  shared : σ
  op : Op ℓ κ π
  pc : π

/-- A routine that another one calls goes on in it. -/
def Op.map {ℓ κ π π' : Type} (f : π → π') : Op ℓ κ π → Op ℓ κ π'
  | .acquire l => .acquire l
  | .release l => .release l
  | .wait c l => .wait c l
  | .signal c l => .signal c l
  | .broadcast c l => .broadcast c l
  | .fork routine => .fork (f routine)
  | .yield => .yield
  | .finish => .finish

/-- A routine that another one calls goes on in it. -/
def Action.map {ℓ κ π π' σ : Type} (f : π → π') (a : Action ℓ κ π σ) : Action ℓ κ π' σ :=
  ⟨a.shared, a.op.map f, f a.pc⟩

@[simp] theorem Action.map_map {ℓ κ π π' π'' σ : Type} (f : π → π') (g : π' → π'')
    (a : Action ℓ κ π σ) : (a.map f).map g = a.map (g ∘ f) := by
  obtain ⟨shared, op, pc⟩ := a
  cases op <;> rfl

/-- The weight of the thread that a call makes. -/
def Op.weight {ℓ κ π : Type} (w : π → ℕ) : Op ℓ κ π → ℕ
  | .fork routine => w routine
  | _ => 0

/-- Whether a thread can run, and where it sleeps if not. -/
inductive Status (ℓ κ : Type)
  | ready
  | acquiring (lock : ℓ)
  | waiting (cond : κ) (lock : ℓ)
  /-- Signalled, and about to acquire the lock again. -/
  | woken (lock : ℓ)
  /-- In the loop of `Broadcast`. -/
  | broadcasting (cond : κ) (lock : ℓ)
  | finished
  deriving DecidableEq

/-- The thread sleeps in no queue. -/
def Status.Awake {ℓ κ : Type} : Status ℓ κ → Prop
  | .acquiring _ | .waiting _ _ => False
  | .ready | .woken _ | .broadcasting _ _ | .finished => True

/-- The thread has to acquire the lock, or to acquire it again. -/
def Status.Blocks {ℓ κ : Type} : Status ℓ κ → ℓ → Prop
  | .acquiring k, l | .waiting _ k, l | .woken k, l => k = l
  | .ready, _ | .broadcasting _ _, _ | .finished, _ => False

/-- A condition: the lock of those who wait, and their queue. -/
structure WaitQueue (ℓ : Type) where
  waitingLock : Option ℓ
  waitingThreads : List ℕ

/-! ## The machine -/

/-- The threads, numbered as `Fork` numbers them, and what they share. -/
structure Machine (ℓ κ π σ : Type) where
  locks : ℓ → Lock ℕ
  conditions : κ → WaitQueue ℓ
  numThreads : ℕ
  /-- Where a thread goes on; `none` until it is forked. -/
  pc : ℕ → Option π
  status : ℕ → Status ℓ κ
  shared : σ

variable {ℓ κ π σ ι : Type}

namespace Machine

/-- Only the main thread, which is number 0. -/
def init (main : π) (shared : σ) : Machine ℓ κ π σ where
  locks _ := .new
  conditions _ := ⟨none, []⟩
  numThreads := 0
  pc := Function.update (fun _ => none) 0 (some main)
  status _ := .ready
  shared := shared

/-- There is only the main thread. -/
theorem pc_init {main p : π} {shared : σ} {t : ℕ}
    (h : (init main shared : Machine ℓ κ π σ).pc t = some p) : p = main := by
  change Function.update (fun _ => none) 0 (some main) t = some p at h
  by_cases h0 : t = 0
  · subst h0
    rw [Function.update_self] at h
    exact (Option.some_injective _ h).symm
  · rw [Function.update_of_ne h0] at h
    cases h

section

variable [DecidableEq ℓ] [DecidableEq κ]

/-- A thread's status changes. -/
def setStatus (m : Machine ℓ κ π σ) (t : ℕ) (st : Status ℓ κ) : Machine ℓ κ π σ :=
  { m with status := Function.update m.status t st }

/-- `Lock::Acquire` (synch.cc:120). -/
def acquire (m : Machine ℓ κ π σ) (t : ℕ) (l : ℓ) : Machine ℓ κ π σ :=
  { m with locks := Function.update m.locks l ((m.locks l).acquire t) }.setStatus t
    (if ((m.locks l).acquire t).HeldBy t then .ready else .acquiring l)

/-- `Lock::Release` (synch.cc:153). The next owner returns from its `Acquire`. -/
def release (m : Machine ℓ κ π σ) (t : ℕ) (l : ℓ) : Machine ℓ κ π σ :=
  let m' := { m with locks := Function.update m.locks l ((m.locks l).release t) }
  match (m.locks l).next t with
  | none => m'
  | some u => m'.setStatus u .ready

/-- `Condition::Wait` (synch.cc:210), up to its `Sleep`. -/
def wait (m : Machine ℓ κ π σ) (t : ℕ) (c : κ) (l : ℓ) : Machine ℓ κ π σ :=
  let cond := m.conditions c
  if l ≠ cond.waitingLock.getD l then m
  else
    ({ m with
      conditions := Function.update m.conditions c ⟨some l, cond.waitingThreads ++ [t]⟩ }.release
      t l).setStatus t (.waiting c l)

/-- `Condition::Signal` (synch.cc:253). -/
def signal (m : Machine ℓ κ π σ) (c : κ) (l : ℓ) : Machine ℓ κ π σ :=
  let cond := m.conditions c
  match cond.waitingThreads with
  | [] => m
  | u :: rest =>
    if cond.waitingLock ≠ some l then m
    else
      { m with
        conditions := Function.update m.conditions c
          ⟨if rest = [] then none else cond.waitingLock, rest⟩ }.setStatus u (.woken l)

/-- One round of the loop of `Condition::Broadcast` (synch.cc:288). -/
def broadcast (m : Machine ℓ κ π σ) (t : ℕ) (c : κ) (l : ℓ) : Machine ℓ κ π σ :=
  if (m.conditions c).waitingThreads = [] then m.setStatus t .ready
  else (m.signal c l).setStatus t (.broadcasting c l)

/-- `Fork` (synch.cc:309). -/
def fork (m : Machine ℓ κ π σ) (routine : π) : Machine ℓ κ π σ :=
  { m with
    numThreads := m.numThreads + 1
    pc := Function.update m.pc (m.numThreads + 1) (some routine) }

/-- A call of the thread `t`. -/
def perform (m : Machine ℓ κ π σ) (t : ℕ) : Op ℓ κ π → Machine ℓ κ π σ
  | .acquire l => m.acquire t l
  | .release l => m.release t l
  | .wait c l => m.wait t c l
  | .signal c l => m.signal c l
  | .broadcast c l => m.broadcast t c l
  | .fork routine => m.fork routine
  | .yield => m
  | .finish => m.setStatus t .finished

/-- The thread `t` computes. -/
def compute (m : Machine ℓ κ π σ) (t : ℕ) (shared : σ) (pc : π) : Machine ℓ κ π σ :=
  { m with shared := shared, pc := Function.update m.pc t (some pc) }

/-- **A step** of the thread `t`; `x` is what the program cannot know, such as a random number. -/
def step (program : π → ι → σ → Action ℓ κ π σ) (m : Machine ℓ κ π σ) (tx : ℕ × ι) :
    Except Impossible (Machine ℓ κ π σ) :=
  match m.pc tx.1 with
  | none => .error .impossible
  | some p =>
    match m.status tx.1 with
    | .ready =>
      let a := program p tx.2 m.shared
      .ok ((m.compute tx.1 a.shared a.pc).perform tx.1 a.op)
    | .woken l => .ok (m.acquire tx.1 l)
    | .broadcasting c l => .ok (m.broadcast tx.1 c l)
    | .acquiring _ | .waiting _ _ | .finished => .error .impossible

variable {program : π → ι → σ → Action ℓ κ π σ} {m m' : Machine ℓ κ π σ} {t : ℕ} {x : ι}

/-- **What a step can do.** -/
theorem step_cases (h : step program m (t, x) = .ok m') :
    (∃ p, m.pc t = some p ∧ m.status t = .ready ∧
        m' = (m.compute t (program p x m.shared).shared (program p x m.shared).pc).perform t
          (program p x m.shared).op) ∨
      (∃ p l, m.pc t = some p ∧ m.status t = .woken l ∧ m' = m.acquire t l) ∨
      ∃ p c l, m.pc t = some p ∧ m.status t = .broadcasting c l ∧ m' = m.broadcast t c l := by
  unfold step at h
  simp only at h
  cases hp : m.pc t with
  | none => simp [hp] at h
  | some p =>
    cases hs : m.status t <;> simp only [hp, hs, Except.ok.injEq, reduceCtorEq] at h
    case ready => exact Or.inl ⟨p, rfl, rfl, h.symm⟩
    case woken l => exact Or.inr (Or.inl ⟨p, l, rfl, rfl, h.symm⟩)
    case broadcasting c l => exact Or.inr (Or.inr ⟨p, c, l, rfl, rfl, h.symm⟩)

/-! ## The queues -/

/-- **The queues** hold the threads that sleep in them, once each. -/
structure Ok (m : Machine ℓ κ π σ) : Prop where
  lock : ∀ l, (m.locks l).Ok
  lock_nodup : ∀ l, (m.locks l).waitingThreads.Nodup
  acquiring : ∀ l t, t ∈ (m.locks l).waitingThreads ↔ m.status t = .acquiring l
  cond_nodup : ∀ c, (m.conditions c).waitingThreads.Nodup
  waiting : ∀ c t, t ∈ (m.conditions c).waitingThreads ↔ ∃ l, m.status t = .waiting c l
  waitingLock : ∀ c t l, m.status t = .waiting c l → (m.conditions c).waitingLock = some l
  waitingLock_none : ∀ c, (m.conditions c).waitingThreads = [] →
    (m.conditions c).waitingLock = none
  unborn : ∀ t, m.numThreads < t → m.pc t = none
  idle : ∀ t, m.pc t = none → m.status t = .ready

namespace Ok

omit [DecidableEq ℓ] [DecidableEq κ] in
theorem init (main : π) (shared : σ) : (Machine.init main shared : Machine ℓ κ π σ).Ok := by
  constructor
  · intro l
    exact Lock.Ok.new
  · intro l
    exact List.nodup_nil
  · intro l t
    simp [Machine.init, Lock.new]
  · intro c
    exact List.nodup_nil
  · intro c t
    simp [Machine.init]
  · intro c t l ht
    cases ht
  · intro c _
    rfl
  · intro t ht
    exact (Function.update_of_ne (Nat.pos_iff_ne_zero.mp ht) _ _ :
      Function.update (fun _ => none) 0 (some main) t = none)
  · intro t _
    rfl

omit [DecidableEq ℓ] [DecidableEq κ] in
/-- A thread that sleeps nowhere is in no queue. -/
theorem not_acquiring (h : m.Ok) (ht : (m.status t).Awake) (l : ℓ) :
    t ∉ (m.locks l).waitingThreads := by
  intro hmem
  rw [(h.acquiring l t).mp hmem] at ht
  exact ht

omit [DecidableEq ℓ] [DecidableEq κ] in
theorem not_waiting (h : m.Ok) (ht : (m.status t).Awake) (c : κ) :
    t ∉ (m.conditions c).waitingThreads := by
  intro hmem
  obtain ⟨l, hl⟩ := (h.waiting c t).mp hmem
  rw [hl] at ht
  exact ht

omit [DecidableEq ℓ] [DecidableEq κ] in
/-- The status of a thread that is in no queue changes. -/
theorem setStatus {st : Status ℓ κ} (h : m.Ok) (ht : (m.status t).Awake) (hst : st.Awake)
    (hpc : m.pc t ≠ none) : (m.setStatus t st).Ok := by
  have hupdate (u : ℕ) (hu : u ≠ t) : (m.setStatus t st).status u = m.status u :=
    Function.update_of_ne hu _ _
  have hself : (m.setStatus t st).status t = st := Function.update_self ..
  refine ⟨h.lock, h.lock_nodup, ?_, h.cond_nodup, ?_, ?_, h.waitingLock_none, h.unborn, ?_⟩
  · intro l u
    by_cases hu : u = t
    · subst hu
      rw [hself]
      refine iff_of_false (h.not_acquiring ht l) ?_
      rintro rfl
      exact hst
    · rw [hupdate u hu]
      exact h.acquiring l u
  · intro c u
    by_cases hu : u = t
    · subst hu
      rw [hself]
      refine iff_of_false (h.not_waiting ht c) ?_
      rintro ⟨l, rfl⟩
      exact hst
    · rw [hupdate u hu]
      exact h.waiting c u
  · intro c u l hl
    by_cases hu : u = t
    · subst hu
      rw [hself] at hl
      subst hl
      exact hst.elim
    · rw [hupdate u hu] at hl
      exact h.waitingLock c u l hl
  · intro u hu
    have hne : u ≠ t := fun heq => hpc (heq ▸ hu)
    rw [hupdate u hne]
    exact h.idle u hu

omit [DecidableEq ℓ] [DecidableEq κ] in
theorem compute (h : m.Ok) (hpc : m.pc t ≠ none) (shared : σ) (p : π) :
    (m.compute t shared p).Ok := by
  refine ⟨h.lock, h.lock_nodup, h.acquiring, h.cond_nodup, h.waiting, h.waitingLock,
    h.waitingLock_none, ?_, ?_⟩
  · intro u hu
    have hne : u ≠ t := fun heq => hpc (heq ▸ h.unborn u hu)
    exact (Function.update_of_ne hne _ _).trans (h.unborn u hu)
  · intro u hu
    by_cases hut : u = t
    · subst hut
      change Function.update m.pc u (some p) u = none at hu
      rw [Function.update_self] at hu
      cases hu
    · exact h.idle u ((Function.update_of_ne hut _ _).symm.trans hu)

omit [DecidableEq κ] in
/-- `Acquire`. -/
theorem acquire (h : m.Ok) (ht : (m.status t).Awake) (hpc : m.pc t ≠ none) (l : ℓ) :
    (m.acquire t l).Ok := by
  have hqueue := Kernel.waitingThreads_acquire (m.locks l) t
  unfold Machine.acquire
  by_cases hheld : ((m.locks l).acquire t).HeldBy t
  · rw [if_pos hheld] at hqueue ⊢
    refine setStatus (m := { m with locks := Function.update m.locks l ((m.locks l).acquire t) })
      ⟨?_, ?_, ?_, h.cond_nodup, h.waiting, h.waitingLock, h.waitingLock_none, h.unborn, h.idle⟩
      ht trivial hpc
    · exact (Function.forall_update_iff m.locks _).mpr ⟨(h.lock l).acquire, fun k _ => h.lock k⟩
    · refine (Function.forall_update_iff m.locks (fun _ lock => lock.waitingThreads.Nodup)).mpr
        ⟨?_, fun k _ => h.lock_nodup k⟩
      rw [hqueue]
      exact h.lock_nodup l
    · refine (Function.forall_update_iff m.locks
        (fun k lock => ∀ u, u ∈ lock.waitingThreads ↔ m.status u = .acquiring k)).mpr
        ⟨?_, fun k _ => h.acquiring k⟩
      rw [hqueue]
      exact h.acquiring l
  · rw [if_neg hheld] at hqueue ⊢
    have hstatus (u : ℕ) (hu : u ≠ t) :
        Function.update m.status t (.acquiring l) u = m.status u := Function.update_of_ne hu _ _
    refine ⟨?_, ?_, ?_, h.cond_nodup, ?_, ?_, h.waitingLock_none, h.unborn, ?_⟩
    · exact (Function.forall_update_iff m.locks _).mpr ⟨(h.lock l).acquire, fun k _ => h.lock k⟩
    · refine (Function.forall_update_iff m.locks (fun _ lock => lock.waitingThreads.Nodup)).mpr
        ⟨?_, fun k _ => h.lock_nodup k⟩
      rw [hqueue]
      rw [← List.concat_eq_append]
      exact (h.lock_nodup l).concat (h.not_acquiring ht l)
    · refine (Function.forall_update_iff m.locks (fun k lock => ∀ u, u ∈ lock.waitingThreads ↔
        Function.update m.status t (.acquiring l) u = .acquiring k)).mpr ⟨?_, fun k hk => ?_⟩
      · intro u
        rw [hqueue, List.mem_append, List.mem_singleton]
        by_cases hu : u = t
        · simp [hu]
        · rw [hstatus u hu, h.acquiring l u]
          simp [hu]
      · intro u
        by_cases hu : u = t
        · subst hu
          rw [Function.update_self]
          refine iff_of_false (h.not_acquiring ht k) ?_
          intro heq
          cases heq
          exact hk rfl
        · rw [hstatus u hu]
          exact h.acquiring k u
    · intro c u
      show u ∈ (m.conditions c).waitingThreads ↔ ∃ k, Function.update m.status t _ u = _
      by_cases hu : u = t
      · subst hu
        rw [Function.update_self]
        exact iff_of_false (h.not_waiting ht c) nofun
      · rw [hstatus u hu]
        exact h.waiting c u
    · intro c u k hk
      change Function.update m.status t _ u = _ at hk
      by_cases hu : u = t
      · subst hu
        rw [Function.update_self] at hk
        cases hk
      · rw [hstatus u hu] at hk
        exact h.waitingLock c u k hk
    · intro u hu
      have hne : u ≠ t := fun heq => hpc (heq ▸ hu)
      exact (hstatus u hne).trans (h.idle u hu)

omit [DecidableEq κ] in
/-- `Release`. -/
theorem release (h : m.Ok) (t : ℕ) (l : ℓ) : (m.release t l).Ok := by
  have hlock : ∀ k, (Function.update m.locks l ((m.locks l).release t) k).Ok :=
    (Function.forall_update_iff m.locks _).mpr
      ⟨(h.lock l).release (h.lock_nodup l), fun k _ => h.lock k⟩
  unfold Machine.release
  simp only
  rcases Kernel.waitingThreads_release (m.locks l) t with
    ⟨hnext, hqueue⟩ | ⟨u, rest, hnext, hhead, hqueue⟩
  · rw [hnext]
    refine ⟨hlock, ?_, ?_, h.cond_nodup, h.waiting, h.waitingLock, h.waitingLock_none, h.unborn,
      h.idle⟩
    · refine (Function.forall_update_iff m.locks (fun _ lock => lock.waitingThreads.Nodup)).mpr
        ⟨?_, fun k _ => h.lock_nodup k⟩
      rw [hqueue]
      exact h.lock_nodup l
    · refine (Function.forall_update_iff m.locks
        (fun k lock => ∀ u, u ∈ lock.waitingThreads ↔ m.status u = .acquiring k)).mpr
        ⟨?_, fun k _ => h.acquiring k⟩
      rw [hqueue]
      exact h.acquiring l
  · rw [hnext]
    have hu : m.status u = .acquiring l :=
      (h.acquiring l u).mp (by rw [hhead]; exact List.mem_cons_self ..)
    have hnodup := h.lock_nodup l
    rw [hhead, List.nodup_cons] at hnodup
    have hstatus (v : ℕ) (hv : v ≠ u) : Function.update m.status u .ready v = m.status v :=
      Function.update_of_ne hv _ _
    refine ⟨hlock, ?_, ?_, h.cond_nodup, ?_, ?_, h.waitingLock_none, h.unborn, ?_⟩
    · refine (Function.forall_update_iff m.locks (fun _ lock => lock.waitingThreads.Nodup)).mpr
        ⟨?_, fun k _ => h.lock_nodup k⟩
      rw [hqueue]
      exact hnodup.2
    · refine (Function.forall_update_iff m.locks (fun k lock => ∀ v, v ∈ lock.waitingThreads ↔
        Function.update m.status u .ready v = .acquiring k)).mpr ⟨?_, fun k hk => ?_⟩
      · intro v
        rw [hqueue]
        by_cases hv : v = u
        · subst hv
          rw [Function.update_self]
          exact iff_of_false hnodup.1 nofun
        · rw [hstatus v hv, ← h.acquiring l v, hhead, List.mem_cons, or_iff_right hv]
      · intro v
        by_cases hv : v = u
        · subst hv
          rw [Function.update_self, h.acquiring k v, hu]
          refine iff_of_false ?_ nofun
          intro heq
          cases heq
          exact hk rfl
        · rw [hstatus v hv]
          exact h.acquiring k v
    · intro c v
      show v ∈ (m.conditions c).waitingThreads ↔ ∃ k, Function.update m.status u _ v = _
      by_cases hv : v = u
      · subst hv
        rw [Function.update_self, h.waiting c v, hu]
        exact iff_of_false nofun nofun
      · rw [hstatus v hv]
        exact h.waiting c v
    · intro c v k hk
      change Function.update m.status u _ v = _ at hk
      by_cases hv : v = u
      · subst hv
        rw [Function.update_self] at hk
        cases hk
      · rw [hstatus v hv] at hk
        exact h.waitingLock c v k hk
    · intro v hv
      show Function.update m.status u _ v = .ready
      by_cases hvu : v = u
      · rw [hvu, Function.update_self]
      · rw [hstatus v hvu]
        exact h.idle v hv

/-- `Wait`. -/
theorem wait (h : m.Ok) (ht : (m.status t).Awake) (hpc : m.pc t ≠ none) (c : κ) (l : ℓ) :
    (m.wait t c l).Ok := by
  unfold Machine.wait
  simp only
  split_ifs with hlock
  · exact h
  · -- the lock that is saved, or was saved before
    have hl : ∀ k, (m.conditions c).waitingLock = some k → k = l := by
      intro k hk
      rw [hk, Option.getD_some, not_not] at hlock
      exact hlock.symm
    -- to queue and to release is to release and to queue
    have hrelease := h.release t l
    have hconditions : (m.release t l).conditions = m.conditions := by
      unfold Machine.release
      simp only
      split <;> rfl
    have hpcs : (m.release t l).pc = m.pc := by
      unfold Machine.release
      simp only
      split <;> rfl
    have hstatust : ((m.release t l).status t).Awake := by
      unfold Machine.release
      simp only
      split
      next => exact ht
      next u hu =>
        show (Function.update m.status u .ready t).Awake
        by_cases htu : t = u
        · rw [htu, Function.update_self]
          trivial
        · rwa [Function.update_of_ne htu]
    have heq (conditions : κ → WaitQueue ℓ) :
        { m with conditions := conditions }.release t l =
          { m.release t l with conditions := conditions } := by
      unfold Machine.release
      simp only
      split <;> rfl
    rw [heq]
    have hupdate (u : ℕ) (hu : u ≠ t) : Function.update (m.release t l).status t (.waiting c l) u =
        (m.release t l).status u := Function.update_of_ne hu _ _
    refine ⟨hrelease.lock, hrelease.lock_nodup, ?_, ?_, ?_, ?_, ?_, hrelease.unborn, ?_⟩
    · intro k u
      show u ∈ ((m.release t l).locks k).waitingThreads ↔ Function.update _ t _ u = _
      by_cases hu : u = t
      · subst hu
        rw [Function.update_self]
        exact iff_of_false (hrelease.not_acquiring hstatust k) nofun
      · rw [hupdate u hu]
        exact hrelease.acquiring k u
    · refine (Function.forall_update_iff m.conditions
        (fun _ cond => cond.waitingThreads.Nodup)).mpr ⟨?_, fun k _ => h.cond_nodup k⟩
      rw [← List.concat_eq_append]
      exact (h.cond_nodup c).concat (h.not_waiting ht c)
    · refine (Function.forall_update_iff m.conditions (fun k cond => ∀ u, u ∈ cond.waitingThreads ↔
        ∃ l', Function.update (m.release t l).status t (.waiting c l) u = .waiting k l')).mpr
        ⟨?_, fun k hk => ?_⟩
      · intro u
        rw [List.mem_append, List.mem_singleton, ← hconditions]
        by_cases hu : u = t
        · subst hu
          rw [Function.update_self]
          exact iff_of_true (Or.inr rfl) ⟨l, rfl⟩
        · rw [hupdate u hu, or_iff_left hu]
          exact hrelease.waiting c u
      · intro u
        rw [← hconditions]
        by_cases hu : u = t
        · subst hu
          rw [Function.update_self]
          refine iff_of_false (hrelease.not_waiting hstatust k) ?_
          rintro ⟨l', heq⟩
          cases heq
          exact hk rfl
        · rw [hupdate u hu]
          exact hrelease.waiting k u
    · intro k u l' hl'
      change Function.update (m.release t l).status t _ u = _ at hl'
      show (Function.update m.conditions c _ k).waitingLock = some l'
      by_cases hu : u = t
      · subst hu
        rw [Function.update_self] at hl'
        cases hl'
        rw [Function.update_self]
      · rw [hupdate u hu] at hl'
        have hsome := hrelease.waitingLock k u l' hl'
        rw [hconditions] at hsome
        by_cases hk : k = c
        · subst hk
          rw [Function.update_self, hl l' hsome]
        · rwa [Function.update_of_ne hk]
    · intro k hk
      change (Function.update m.conditions c _ k).waitingThreads = [] at hk
      show (Function.update m.conditions c _ k).waitingLock = none
      by_cases hkc : k = c
      · subst hkc
        rw [Function.update_self] at hk
        exact absurd hk (by simp)
      · rw [Function.update_of_ne hkc] at hk ⊢
        exact h.waitingLock_none k hk
    · intro u hu
      have hne : u ≠ t := by
        rintro rfl
        exact hpc (hpcs ▸ hu)
      exact (hupdate u hne).trans (hrelease.idle u hu)

omit [DecidableEq ℓ] [DecidableEq κ] in
theorem status_of_waiting (h : m.Ok) {c : κ} {l : ℓ} {u : ℕ} {rest : List ℕ}
    (hqueue : (m.conditions c).waitingThreads = u :: rest)
    (hlock : (m.conditions c).waitingLock = some l) : m.status u = .waiting c l := by
  obtain ⟨k, hk⟩ := (h.waiting c u).mp (by rw [hqueue]; exact List.mem_cons_self ..)
  rw [hk]
  congr 1
  exact Option.some_injective _ ((h.waitingLock c u k hk).symm.trans hlock)

/-- `Signal`. -/
theorem signal (h : m.Ok) (c : κ) (l : ℓ) : (m.signal c l).Ok := by
  unfold Machine.signal
  simp only
  split
  next => exact h
  next u rest hqueue =>
    by_cases hlock : (m.conditions c).waitingLock ≠ some l
    · rw [if_pos hlock]
      exact h
    · rw [if_neg hlock]
      rw [not_not] at hlock
      have hu : m.status u = .waiting c l := h.status_of_waiting hqueue hlock
      have hnodup := h.cond_nodup c
      rw [hqueue, List.nodup_cons] at hnodup
      have hstatus (v : ℕ) (hv : v ≠ u) :
          Function.update m.status u (.woken l) v = m.status v := Function.update_of_ne hv _ _
      refine ⟨h.lock, h.lock_nodup, ?_, ?_, ?_, ?_, ?_, h.unborn, ?_⟩
      · intro k v
        show v ∈ (m.locks k).waitingThreads ↔ Function.update m.status u _ v = _
        by_cases hv : v = u
        · subst hv
          rw [Function.update_self, h.acquiring k v, hu]
          exact iff_of_false nofun nofun
        · rw [hstatus v hv]
          exact h.acquiring k v
      · refine (Function.forall_update_iff m.conditions
          (fun _ cond => cond.waitingThreads.Nodup)).mpr ⟨hnodup.2, fun k _ => h.cond_nodup k⟩
      · refine (Function.forall_update_iff m.conditions (fun k cond => ∀ v,
          v ∈ cond.waitingThreads ↔ ∃ l', Function.update m.status u (.woken l) v = .waiting k l')).mpr
          ⟨?_, fun k hk => ?_⟩
        · intro v
          by_cases hv : v = u
          · subst hv
            rw [Function.update_self]
            exact iff_of_false hnodup.1 nofun
          · rw [hstatus v hv, ← h.waiting c v, hqueue, List.mem_cons, or_iff_right hv]
        · intro v
          by_cases hv : v = u
          · subst hv
            rw [Function.update_self, h.waiting k v, hu]
            refine iff_of_false ?_ nofun
            rintro ⟨l', heq⟩
            cases heq
            exact hk rfl
          · rw [hstatus v hv]
            exact h.waiting k v
      · intro k v l' hl'
        change Function.update m.status u _ v = _ at hl'
        show (Function.update m.conditions c _ k).waitingLock = some l'
        by_cases hv : v = u
        · subst hv
          rw [Function.update_self] at hl'
          cases hl'
        · rw [hstatus v hv] at hl'
          by_cases hk : k = c
          · subst hk
            have hmem : v ∈ rest := by
              have hmem := (h.waiting k v).mpr ⟨l', hl'⟩
              rw [hqueue, List.mem_cons, or_iff_right hv] at hmem
              exact hmem
            rw [Function.update_self, if_neg (List.ne_nil_of_mem hmem)]
            exact h.waitingLock k v l' hl'
          · rw [Function.update_of_ne hk]
            exact h.waitingLock k v l' hl'
      · intro k hk
        change (Function.update m.conditions c _ k).waitingThreads = [] at hk
        show (Function.update m.conditions c _ k).waitingLock = none
        by_cases hkc : k = c
        · subst hkc
          rw [Function.update_self] at hk ⊢
          exact if_pos hk
        · rw [Function.update_of_ne hkc] at hk ⊢
          exact h.waitingLock_none k hk
      · intro v hv
        have hne : v ≠ u := by
          rintro rfl
          have hidle := h.idle v hv
          rw [hu] at hidle
          cases hidle
        exact (hstatus v hne).trans (h.idle v hv)

theorem pc_signal (m : Machine ℓ κ π σ) (c : κ) (l : ℓ) : (m.signal c l).pc = m.pc := by
  unfold Machine.signal
  simp only
  split
  next => rfl
  next =>
    by_cases hlock : (m.conditions c).waitingLock ≠ some l
    · rw [if_pos hlock]
    · rw [if_neg hlock]
      rfl

/-- `Signal` wakes no thread that is awake. -/
theorem status_signal_of_awake (h : m.Ok) (ht : (m.status t).Awake) (c : κ) (l : ℓ) :
    (m.signal c l).status t = m.status t := by
  unfold Machine.signal
  simp only
  split
  next => rfl
  next u rest hqueue =>
    by_cases hlock : (m.conditions c).waitingLock ≠ some l
    · rw [if_pos hlock]
    · rw [if_neg hlock]
      refine Function.update_of_ne ?_ _ _
      rintro rfl
      rw [not_not] at hlock
      rw [h.status_of_waiting hqueue hlock] at ht
      exact ht

/-- A round of `Broadcast`. -/
theorem broadcast (h : m.Ok) (ht : (m.status t).Awake) (hpc : m.pc t ≠ none) (c : κ) (l : ℓ) :
    (m.broadcast t c l).Ok := by
  unfold Machine.broadcast
  split_ifs
  · exact h.setStatus ht trivial hpc
  · refine (h.signal c l).setStatus ?_ trivial ?_
    · rwa [h.status_signal_of_awake ht]
    · rwa [pc_signal]

omit [DecidableEq ℓ] [DecidableEq κ] in
/-- `Fork`. -/
theorem fork (h : m.Ok) (routine : π) : (m.fork routine).Ok := by
  refine ⟨h.lock, h.lock_nodup, h.acquiring, h.cond_nodup, h.waiting, h.waitingLock,
    h.waitingLock_none, ?_, ?_⟩
  · intro u hu
    change m.numThreads + 1 < u at hu
    exact (Function.update_of_ne (by omega) _ _).trans (h.unborn u (by omega))
  · intro u hu
    apply h.idle u
    by_cases hun : u = m.numThreads + 1
    · exact h.unborn u (by omega)
    · exact (Function.update_of_ne hun _ _).symm.trans hu

/-- A call. -/
theorem perform (h : m.Ok) (ht : (m.status t).Awake) (hpc : m.pc t ≠ none) (op : Op ℓ κ π) :
    (m.perform t op).Ok := by
  cases op with
  | acquire l => exact h.acquire ht hpc l
  | release l => exact h.release t l
  | wait c l => exact h.wait ht hpc c l
  | signal c l => exact h.signal c l
  | broadcast c l => exact h.broadcast ht hpc c l
  | fork routine => exact h.fork routine
  | yield => exact h
  | finish => exact h.setStatus ht trivial hpc

/-- **One step.** -/
theorem step (h : m.Ok) (hs : Machine.step program m (t, x) = .ok m') : m'.Ok := by
  rcases step_cases hs with ⟨p, hp, ht, rfl⟩ | ⟨p, l, hp, ht, rfl⟩ | ⟨p, c, l, hp, ht, rfl⟩
  · have hpc : m.pc t ≠ none := by simp [hp]
    refine (h.compute hpc _ _).perform ?_ ?_ _
    · show (m.status t).Awake
      rw [ht]
      trivial
    · show Function.update m.pc t _ t ≠ none
      simp
  · exact h.acquire (by rw [ht]; trivial) (by simp [hp]) l
  · exact h.broadcast (by rw [ht]; trivial) (by simp [hp]) c l

end Ok

end

end Machine

end Nachos.Threads
