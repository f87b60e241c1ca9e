import Nachos.Userprog.Entries

/-!
# The indices of the user programs

Each call of `SynchManager` compares its index with a limit before it tests the bit. Both bitmaps
have `MaxNumLocks` bits, but all limits are inclusive, and all but one are `MaxNumCVs`: an index
between the two reaches the assertion of `BitMap::Test`.

* `indices_validated_iff`: when a step acts on live entries or changes nothing.
-/

namespace Nachos.Userprog

open Nachos.Lib Nachos.Threads

/-! ## The property -/

/-- The thread has the locks of the tables and checks its indices. -/
def Point.Tests : Point → Prop
  | .destroyLock _ | .destroyCondition _ | .acquire _ | .release _ | .validate _ _ _ => True
  | _ => False

/-- The entries that the call is about are live. -/
def ActsOnLive (s : Manager) : Point → Prop
  | .destroyLock i | .acquire i | .acquiring i | .acquired i | .release i | .released i =>
    s.lockTable.Live i
  | .destroyCondition c => s.cvTable.Live c
  | .validate _ c i | .waitLeave c i | .waiting c i | .waited c i | .signalled c i =>
    s.cvTable.Live c ∧ s.lockTable.Live i
  -- there is no entry yet
  | .createLock | .createCondition => True
  | .user _ | .onCondition _ _ _ | .leave => False

/-- The entries, the bitmaps, and the locks and conditions of the users are the same. -/
structure Unchanged (m m' : System) : Prop where
  shared : m'.shared = m.shared
  locks : ∀ n, m'.locks (.user n) = m.locks (.user n)
  conditions : m'.conditions = m.conditions

/-- **A step is validated**: it does not fault, and acts on live entries or changes nothing. -/
def Validated (m : System) (t : ℕ) (x : Request) (q : Point) : Prop :=
  ∃ m', managerStep m (t, x) = .ok m' ∧ (ActsOnLive m.shared q ∨ Unchanged m m')

/-- The index is in the bitmap, or over the limit. -/
def Within (limit index : ℤ) : Prop := index < MaxNumLocks ∨ limit < index

/-- The indices that are tested are in the bitmap. -/
def InRange (s : Manager) : Point → Prop
  | .destroyLock i => Within MaxNumLocks i
  | .destroyCondition c => Within MaxNumCVs c
  | .acquire i | .release i => Within MaxNumCVs i
  | .validate _ c i => Within MaxNumCVs c ∧ (s.cvTable.Live c → Within MaxNumCVs i)
  | _ => True

/-! ## The checks -/

section

variable {s : Manager} {T : Table} {limit index i c : ℤ}

/-- **A check** fails, or says whether the index is live. -/
theorem valid_cases (limit index : ℤ) (h : T.Ok) (hlimit : (MaxNumLocks : ℤ) ≤ limit) :
    ¬ Within limit index ∧ T.valid limit index = .error .assertion ∨
      Within limit index ∧ (T.Live index ∧ T.valid limit index = .ok true ∨
        ¬ T.Live index ∧ T.valid limit index = .ok false) := by
  rw [T.valid_eq h hlimit]
  unfold Within
  by_cases hout : (MaxNumLocks : ℤ) ≤ index ∧ index ≤ limit
  · rw [if_pos hout]
    exact Or.inl ⟨by omega, rfl⟩
  · rw [if_neg hout]
    refine Or.inr ⟨by omega, ?_⟩
    by_cases hlive : T.Live index
    · exact Or.inl ⟨hlive, by rw [decide_eq_true hlive]⟩
    · exact Or.inr ⟨hlive, by rw [decide_eq_false hlive]⟩

/-- The call touches no lock or condition of the users. -/
def Private : Op LockName ℕ Pc → Prop
  | .acquire l | .release l => l = .forLockTable ∨ l = .forCVTable
  | .fork _ | .yield | .finish => True
  | .wait _ _ | .signal _ _ | .broadcast _ _ => False

/-- A test reaches the assertion, or the thread goes on. -/
def Checked (inRange : Prop) (r : Except Fault Code) (P : Code → Prop) : Prop :=
  ¬ inRange ∧ r = .error .assertion ∨ inRange ∧ ∃ a, r = .ok a ∧ P a

/-- Up to its next kernel call the thread acts on live entries or changes nothing. -/
def Harmless (s : Manager) (q : Point) (a : Code) : Prop :=
  ActsOnLive s q ∨ a.shared = s ∧ Private a.op

/-- The step with an index that is live. -/
theorem exists_modify (h : T.Ok) (hlive : T.Live index) (f : Entry → Entry) :
    ∃ n T', T.modify index f = .ok (n, T') := by
  obtain ⟨n, e, he⟩ := Table.exists_entry h hlive
  exact ⟨n, T.set n (f e), by simp [Table.modify, he]⟩

/-- `DestroyLock` and `DestroyCondition`. -/
theorem destroy_cases (limit index : ℤ) (h : T.Ok) (hlimit : (MaxNumLocks : ℤ) ≤ limit) :
    ¬ Within limit index ∧ T.destroy limit index = .error .assertion ∨
      Within limit index ∧ ∃ T', T.destroy limit index = .ok T' ∧ (T.Live index ∨ T' = T) := by
  unfold Table.destroy
  rcases valid_cases limit index h hlimit with
    ⟨hout, hv⟩ | ⟨hin, ⟨hlive, hv⟩ | ⟨-, hv⟩⟩ <;> rw [hv]
  · exact Or.inl ⟨hout, rfl⟩
  · obtain ⟨n, e, he⟩ := Table.exists_entry h hlive
    refine Or.inr ⟨hin, ?_⟩
    simp only [ok_bind, if_true, he]
    split_ifs
    · exact ⟨_, rfl, Or.inl hlive⟩
    · exact ⟨_, rfl, Or.inl hlive⟩
  · exact Or.inr ⟨hin, T, rfl, Or.inr rfl⟩

variable {x : Request} {space : ℕ}

theorem destroyLock_checked (h : s.Ok) : Checked (Within MaxNumLocks i) (destroyLock s space i)
    (Harmless s (.destroyLock i)) := by
  unfold destroyLock
  rcases destroy_cases MaxNumLocks i h.lockTable le_rfl with
    ⟨hout, hd⟩ | ⟨hin, T, hd, hT⟩ <;> rw [hd]
  · exact Or.inl ⟨hout, rfl⟩
  · refine Or.inr ⟨hin, _, rfl, hT.imp_right fun heq => ⟨?_, Or.inl rfl⟩⟩
    rw [heq]

theorem destroyCondition_checked (h : s.Ok) : Checked (Within MaxNumCVs c)
    (destroyCondition s space c) (Harmless s (.destroyCondition c)) := by
  unfold destroyCondition
  rcases destroy_cases MaxNumCVs c h.cvTable (by simp) with
    ⟨hout, hd⟩ | ⟨hin, T, hd, hT⟩ <;> rw [hd]
  · exact Or.inl ⟨hout, rfl⟩
  · refine Or.inr ⟨hin, _, rfl, hT.imp_right fun heq => ⟨?_, Or.inr rfl⟩⟩
    rw [heq]

theorem acquire_checked (h : s.Ok) :
    Checked (Within MaxNumCVs i) (acquire s space i) (Harmless s (.acquire i)) := by
  unfold acquire
  rcases valid_cases MaxNumCVs i h.lockTable (by simp) with
    ⟨hout, hv⟩ | ⟨hin, ⟨hlive, hv⟩ | ⟨-, hv⟩⟩ <;> rw [hv]
  · exact Or.inl ⟨hout, rfl⟩
  · obtain ⟨n, T, hT⟩ := exists_modify h.lockTable hlive fun e => { e with toBeUsed := true }
    simp only [ok_bind, if_true, hT]
    exact Or.inr ⟨hin, _, rfl, Or.inl hlive⟩
  · exact Or.inr ⟨hin, _, rfl, Or.inr ⟨rfl, trivial⟩⟩

theorem release_checked (h : s.Ok) :
    Checked (Within MaxNumCVs i) (release s space i) (Harmless s (.release i)) := by
  unfold release
  rcases valid_cases MaxNumCVs i h.lockTable (by simp) with
    ⟨hout, hv⟩ | ⟨hin, ⟨hlive, hv⟩ | ⟨-, hv⟩⟩ <;> rw [hv]
  · exact Or.inl ⟨hout, rfl⟩
  · obtain ⟨n, e, he⟩ := Table.exists_entry h.lockTable hlive
    simp only [ok_bind, if_true, he]
    exact Or.inr ⟨hin, _, rfl, Or.inl hlive⟩
  · exact Or.inr ⟨hin, _, rfl, Or.inr ⟨rfl, trivial⟩⟩

/-- With both entries live. -/
theorem exists_onCondition (h : s.Ok) (hcv : s.cvTable.Live c) (hlock : s.lockTable.Live i)
    (space : ℕ) (f : CVCall) : ∃ a, onCondition s space c i f = .ok a := by
  obtain ⟨d, e, hd⟩ := Table.exists_entry h.cvTable hcv
  obtain ⟨n, e', hn⟩ := Table.exists_entry h.lockTable hlock
  cases f with
  | wait => exact ⟨_, by simp only [onCondition, Table.modify, hd, ok_bind]; rfl⟩
  | signal => exact ⟨_, by simp only [onCondition, hd, hn, ok_bind]; rfl⟩
  | broadcast => exact ⟨_, by simp only [onCondition, hd, hn, ok_bind]; rfl⟩

theorem validate_checked {f : CVCall} (h : s.Ok) :
    Checked (Within MaxNumCVs c ∧ (s.cvTable.Live c → Within MaxNumCVs i))
      (validate s space f c i) (Harmless s (.validate f c i)) := by
  unfold validate
  rcases valid_cases MaxNumCVs c h.cvTable (by simp) with
    ⟨hout, hv⟩ | ⟨hin, ⟨hcv, hv⟩ | ⟨hcv, hv⟩⟩ <;> rw [hv]
  · exact Or.inl ⟨fun hin => hout hin.1, rfl⟩
  · simp only [ok_bind, if_true]
    rcases valid_cases MaxNumCVs i h.lockTable (by simp) with
      ⟨hout, hv⟩ | ⟨hin', ⟨hlock, hv⟩ | ⟨-, hv⟩⟩ <;> rw [hv]
    · exact Or.inl ⟨fun hin => hout (hin.2 hcv), rfl⟩
    · obtain ⟨a, ha⟩ := exists_onCondition h hcv hlock space f
      refine Or.inr ⟨⟨hin, fun _ => hin'⟩, a, ?_, Or.inl ⟨hcv, hlock⟩⟩
      simpa using ha
    · exact Or.inr ⟨⟨hin, fun _ => hin'⟩, _, rfl, Or.inr ⟨rfl, Or.inl rfl⟩⟩
  · exact Or.inr ⟨⟨hin, fun hlive => absurd hlive hcv⟩, _, rfl, Or.inr ⟨rfl, Or.inl rfl⟩⟩

/-- **The checks**, all of them. -/
theorem code_checked (pc : Pc) (x : Request) (h : s.Ok) (htests : pc.point.Tests) :
    Checked (InRange s pc.point) (code pc x s) (Harmless s pc.point) := by
  obtain ⟨space, q⟩ := pc
  cases q with
  | destroyLock i => exact destroyLock_checked h
  | destroyCondition c => exact destroyCondition_checked h
  | acquire i => exact acquire_checked h
  | release i => exact release_checked h
  | validate f c i => exact validate_checked h
  | _ => exact htests.elim

/-- **The other points** use what the call has checked. -/
theorem code_of_used {pc : Pc} (h : s.Ok) (hused : Used s pc.point) (htests : ¬ pc.point.Tests) :
    ∃ a, code pc x s = .ok a ∧ Harmless s pc.point a := by
  obtain ⟨space, q⟩ := pc
  cases q with
  | user r =>
    refine ⟨_, rfl, Or.inr ?_⟩
    cases x <;> first | exact ⟨rfl, trivial⟩ | exact ⟨rfl, Or.inl rfl⟩ | exact ⟨rfl, Or.inr rfl⟩
  | createLock => exact ⟨_, rfl, Or.inl trivial⟩
  | createCondition => exact ⟨_, rfl, Or.inl trivial⟩
  | acquiring i =>
    have hlive := hused.lock i rfl
    obtain ⟨n, e, he⟩ := Table.exists_entry h.lockTable hlive
    exact ⟨_, by simp only [code, acquiring, he, ok_bind]; rfl, Or.inl hlive⟩
  | acquired i =>
    have hlive := hused.lock i rfl
    obtain ⟨n, T, hT⟩ := exists_modify h.lockTable hlive
      fun e => { e with ownerProcess := some space, toBeUsed := false }
    exact ⟨_, by simp only [code, acquired, hT, ok_bind]; rfl, Or.inl hlive⟩
  | released i =>
    have hlive := hused.lock i rfl
    obtain ⟨n, e, he⟩ := Table.exists_entry h.lockTable hlive
    exact ⟨_, by simp only [code, released, he, ok_bind]; rfl, Or.inl hlive⟩
  | onCondition f c i => exact ⟨_, rfl, Or.inr ⟨rfl, Or.inl rfl⟩⟩
  | waitLeave c i => exact ⟨_, rfl, Or.inl ⟨hused.cv c rfl, hused.lock i rfl⟩⟩
  | waiting c i =>
    have hcv := hused.cv c rfl
    have hlock := hused.lock i rfl
    obtain ⟨d, T, hT⟩ := exists_modify h.cvTable hcv fun e => { e with ownerProcess := some space }
    obtain ⟨n, e, he⟩ := Table.exists_entry h.lockTable hlock
    exact ⟨_, by simp only [code, waiting, hT, he, ok_bind]; rfl, Or.inl ⟨hcv, hlock⟩⟩
  | waited c i =>
    have hcv := hused.cv c rfl
    obtain ⟨d, T, hT⟩ := exists_modify h.cvTable hcv
      fun e => { e with ownerProcess := none, toBeUsed := false }
    exact ⟨_, by simp only [code, waited, hT, ok_bind]; rfl, Or.inl ⟨hcv, hused.lock i rfl⟩⟩
  | signalled c i => exact ⟨_, rfl, Or.inl ⟨hused.cv c rfl, hused.lock i rfl⟩⟩
  | leave => exact ⟨_, rfl, Or.inr ⟨rfl, Or.inr rfl⟩⟩
  | _ => exact absurd trivial htests

end

/-! ## The steps -/

section

variable {m : System} {t : ℕ} {x : Request} {pc : Pc}

/-- A kernel call that is about the tables' locks only. -/
theorem unchanged_perform {op : Op LockName ℕ Pc} (hop : Private op) (s : Manager) (pc : Pc)
    (hs : s = m.shared) : Unchanged m ((m.compute t s pc).perform t op) := by
  subst hs
  constructor
  · rw [Machine.shared_perform]
    rfl
  · intro n
    cases op with
    | acquire l =>
      have hl : LockName.user n ≠ l := by rcases hop with rfl | rfl <;> simp
      exact Function.update_of_ne hl _ _
    | release l =>
      have hl : LockName.user n ≠ l := by rcases hop with rfl | rfl <;> simp
      show ((m.compute t m.shared pc).release t l).locks (.user n) = _
      rw [Machine.locks_release]
      exact Function.update_of_ne hl _ _
    | fork q => rfl
    | yield => rfl
    | finish => rfl
    | _ => exact hop.elim
  · cases op with
    | acquire l => rfl
    | release l =>
      show ((m.compute t m.shared pc).release t l).conditions = _
      unfold Machine.release
      simp only
      split <;> rfl
    | fork q => rfl
    | yield => rfl
    | finish => rfl
    | _ => exact hop.elim

/-- A step that does no harm. -/
theorem validated_of_harmless (hp : m.pc t = some pc) (ht : m.status t = .ready) {a : Code}
    (ha : code pc x m.shared = .ok a) (hharmless : Harmless m.shared pc.point a) :
    Validated m t x pc.point := by
  refine ⟨(m.compute t a.shared a.pc).perform t a.op, ?_, ?_⟩
  · rw [managerStep_ready hp ht, ha]
    rfl
  · exact hharmless.imp_right fun ⟨hshared, hop⟩ => unchanged_perform hop _ _ hshared

/-- **A test** is validated exactly when the indices are in the range. -/
theorem validated_iff_of_tests (hok : m.shared.Ok) (hp : m.pc t = some pc)
    (ht : m.status t = .ready) (htests : pc.point.Tests) :
    Validated m t x pc.point ↔ InRange m.shared pc.point := by
  rcases code_checked pc x hok htests with ⟨hout, hcode⟩ | ⟨hin, a, ha, hharmless⟩
  · refine iff_of_false ?_ hout
    rintro ⟨m', hm', -⟩
    rw [managerStep_ready hp ht, hcode] at hm'
    cases hm'
  · exact iff_of_true (validated_of_harmless hp ht ha hharmless) hin

/-- The thread can take a step. -/
def Runs : Status LockName ℕ → Prop
  | .ready | .woken _ | .broadcasting _ _ => True
  | .acquiring _ | .waiting _ _ | .finished => False

/-- A point that tests no index is in the range. -/
theorem inRange_of_not_tests {s : Manager} {q : Point} (h : ¬ q.Tests) : InRange s q := by
  cases q <;> first | trivial | exact absurd trivial h

/-- What the call of a thread uses is on the heap. -/
theorem hasLock_of_backed {s : Manager} {q : Point} {l : LockName} (h : s.Ok) (hused : Used s q)
    (hl : LockBacked s q l) : s.HasLock l := by
  cases l with
  | user n =>
    obtain ⟨i, hi, hn⟩ := hl
    obtain ⟨-, k, hk, hheap⟩ := h.lockTable.live _ (hused.lock i hi).2.2
    rw [hn] at hk
    cases hk
    exact hheap
  | forLockTable => trivial
  | forCVTable => trivial

theorem heap_of_backed {s : Manager} {q : Point} {c : ℕ} (h : s.Ok) (hused : Used s q)
    (hc : CVBacked s q c) : s.cvTable.heap c ≠ none := by
  obtain ⟨i, hi, hn⟩ := hc
  obtain ⟨-, k, hk, hheap⟩ := h.cvTable.live _ (hused.cv i hi).2.2
  rw [hn] at hk
  cases hk
  exact hheap

theorem actsOnLive_of_used {s : Manager} {q : Point} (hused : Used s q) (hi : q.lockIndex ≠ none) :
    ActsOnLive s q := by
  cases q with
  | acquiring i => exact hused.lock i rfl
  | acquired i => exact hused.lock i rfl
  | released i => exact hused.lock i rfl
  | waitLeave c i => exact ⟨hused.cv c rfl, hused.lock i rfl⟩
  | waiting c i => exact ⟨hused.cv c rfl, hused.lock i rfl⟩
  | waited c i => exact ⟨hused.cv c rfl, hused.lock i rfl⟩
  | signalled c i => exact ⟨hused.cv c rfl, hused.lock i rfl⟩
  | _ => exact absurd rfl hi

/-- A call that uses a lock tests no index. -/
theorem not_tests_of_lockIndex {q : Point} {i : ℤ} (hi : q.lockIndex = some i) : ¬ q.Tests := by
  cases q <;> first | exact id | cases hi

theorem exists_lockIndex {s : Manager} {q : Point} {l : LockName} (hl : UserBacked s q l) :
    ∃ i, q.lockIndex = some i := by
  cases l with
  | user n =>
    obtain ⟨i, hi, -⟩ := hl
    exact ⟨i, hi⟩
  | forLockTable => exact hl.elim
  | forCVTable => exact hl.elim

/-- A thread that a signal has woken acquires the lock of its call again. -/
theorem validated_of_woken {l : LockName} (hok : m.shared.Ok) (hused : Used m.shared pc.point)
    (hl : UserBacked m.shared pc.point l) (hp : m.pc t = some pc) (ht : m.status t = .woken l) :
    Validated m t x pc.point ∧ ¬ pc.point.Tests := by
  have hlock := hasLock_of_backed hok hused (.of_user hl)
  obtain ⟨i, hi⟩ := exists_lockIndex hl
  refine ⟨⟨m.acquire t l, ?_, Or.inl (actsOnLive_of_used hused (by simp [hi]))⟩,
    not_tests_of_lockIndex hi⟩
  unfold managerStep check Machine.step
  simp only [hp, ht, if_pos hlock]

/-- A round of `Broadcast`. -/
theorem validated_of_broadcasting {c : ℕ} {l : LockName} (hok : m.shared.Ok)
    (hused : Used m.shared pc.point)
    (hbacked : UserBacked m.shared pc.point l ∧ CVBacked m.shared pc.point c)
    (hp : m.pc t = some pc) (ht : m.status t = .broadcasting c l) :
    Validated m t x pc.point ∧ ¬ pc.point.Tests := by
  obtain ⟨hl, hc⟩ := hbacked
  have hlock := hasLock_of_backed hok hused (.of_user hl)
  have hcv := heap_of_backed hok hused hc
  obtain ⟨i, hi⟩ := exists_lockIndex hl
  refine ⟨⟨m.broadcast t c l, ?_, Or.inl (actsOnLive_of_used hused (by simp [hi]))⟩,
    not_tests_of_lockIndex hi⟩
  unfold managerStep check Machine.step
  simp only [hp, ht, if_pos (And.intro hlock hcv)]

theorem usedInv_of_exec {events : List (ℕ × Request)} (h : exec managerStep start events = .ok m)
    (hg : Guarded managerStep KeepsUsed start events) : UsedInv m := by
  have hstep (m : System) (tx : ℕ × Request) (m' : System)
      (hinv : (m.Ok ∧ m.shared.Ok) ∧ UsedInv m) (hkeeps : KeepsUsed m tx)
      (hs : managerStep m tx = .ok m') : (m'.Ok ∧ m'.shared.Ok) ∧ UsedInv m' :=
    ⟨ok_step hinv.1 hs, hinv.2.step hinv.1 hkeeps hs⟩
  have hstart : UsedInv start := by
    intro u q hq
    rw [Machine.pc_init hq]
    exact ⟨.of_none rfl rfl, trivial⟩
  exact (exec_inv hstep ⟨⟨.init _ _, .new⟩, hstart⟩ hg h).2

end

/-! ## The theorem -/

/-- **A step is validated exactly when the indices that it tests are in the range**, in any
    reachable state: each test, and each step of a run in which no entry has been deleted that
    another call used. -/
theorem indices_validated_iff {events : List (ℕ × Request)} {m : System}
    (h : exec managerStep start events = .ok m) {t : ℕ} {pc : Pc} (hp : m.pc t = some pc)
    (x : Request) :
    (pc.point.Tests → m.status t = .ready →
      (Validated m t x pc.point ↔ InRange m.shared pc.point)) ∧
    (Guarded managerStep KeepsUsed start events → Runs (m.status t) →
      (Validated m t x pc.point ↔ InRange m.shared pc.point)) := by
  have hok := (ok_of_exec h).2
  refine ⟨fun htests ht => validated_iff_of_tests hok hp ht htests, ?_⟩
  intro hg hruns
  obtain ⟨hused, hbacked⟩ := usedInv_of_exec h hg t pc hp
  have hplain (hvalidated : Validated m t x pc.point) (hin : InRange m.shared pc.point) :
      Validated m t x pc.point ↔ InRange m.shared pc.point := iff_of_true hvalidated hin
  cases ht : m.status t with
  | ready =>
    by_cases htests : pc.point.Tests
    · exact validated_iff_of_tests hok hp ht htests
    · obtain ⟨a, ha, hharmless⟩ := code_of_used (x := x) hok hused htests
      exact hplain (validated_of_harmless hp ht ha hharmless) (inRange_of_not_tests htests)
  | woken l =>
    rw [ht] at hbacked
    obtain ⟨hvalidated, htests⟩ := validated_of_woken (x := x) hok hused hbacked hp ht
    exact hplain hvalidated (inRange_of_not_tests htests)
  | broadcasting c l =>
    rw [ht] at hbacked
    obtain ⟨hvalidated, htests⟩ := validated_of_broadcasting (x := x) hok hused hbacked hp ht
    exact hplain hvalidated (inRange_of_not_tests htests)
  | _ =>
    rw [ht] at hruns
    exact hruns.elim

/-- A lock is created, and the first process is about to acquire it. -/
theorem indices_validated_iff_acquire :
    ∃ m : System, exec managerStep start
        [(0, .createLock), (0, .exit), (0, .acquire 0)] = .ok m ∧
      m.pc 0 = some ⟨0, .acquire 0⟩ ∧ Validated m 0 .exit (.acquire 0) := by
  have hrun : Ends managerStep start [(0, .createLock), (0, .exit), (0, .acquire 0)] fun m =>
      m.pc 0 = some ⟨0, .acquire 0⟩ ∧ m.status 0 = .ready := by
    decide +kernel
  obtain ⟨m, hm, hp, ht⟩ := hrun
  refine ⟨m, hm, hp, ?_⟩
  exact ((indices_validated_iff hm hp .exit).1 trivial ht).mpr (Or.inl (by decide))

/-- The first process destroys the lock 10000, and the kernel stops in the assertion. -/
theorem indices_not_validated :
    ∃ m : System, exec managerStep start [(0, .destroyLock 10000)] = .ok m ∧
      m.pc 0 = some ⟨0, .destroyLock 10000⟩ ∧
        managerStep m (0, .exit) = .error .assertion ∧
          ¬ Validated m 0 .exit (.destroyLock 10000) := by
  have hrun : Ends managerStep start [(0, .destroyLock 10000)] fun m =>
      m.pc 0 = some ⟨0, .destroyLock 10000⟩ ∧ m.status 0 = .ready := by
    decide +kernel
  obtain ⟨m, hm, hp, ht⟩ := hrun
  have hok := (ok_of_exec hm).2
  have hstep : managerStep m (0, .exit) = .error .assertion := by
    rw [managerStep_ready hp ht]
    rcases code_checked ⟨0, .destroyLock 10000⟩ .exit hok trivial with
      ⟨-, hcode⟩ | ⟨hin, -⟩
    · rw [hcode]
      rfl
    · exact absurd hin (by simp [InRange, Within])
  refine ⟨m, hm, hp, hstep, ?_⟩
  rintro ⟨m', hm', -⟩
  rw [hstep] at hm'
  cases hm'

end Nachos.Userprog
