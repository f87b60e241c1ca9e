import Nachos.Threads.KernelConditions

/-!
# `Broadcast`

`Condition::Broadcast` (synch.cc:288) calls `Signal` while a thread waits. `Signal` takes a thread
out of the queue only if it gets the lock that the condition has saved: with another lock, or with
`NULL`, it prints an error and returns, and the loop goes on.

* `broadcast_ends_iff`: when `Broadcast` returns with everyone woken; and what it has done when
  other threads run between the signals.
-/

namespace Nachos.Threads

open Nachos.Lib

variable {τ : Type}

/-! ## The property -/

section

variable [DecidableEq τ]

/-- **`Broadcast` ends and wakes everyone**: the call and `n` more tests of the loop return. With
    the lock of the waiting threads each of them is ready once, in the order of the queue; with
    another one nothing has changed. -/
def Kernel.BroadcastEnds (s : Kernel τ) (t : τ) (c : ℕ) (conditionLock : Option ℕ) : Prop :=
  ∃ n s', exec kernelStep s (.call (.broadcast c conditionLock) :: List.replicate n .resume) =
      .ok s' ∧ s'.resume t = none ∧
    if (s.conditions c).waitingLock = conditionLock then
      (s'.conditions c).waitingThreads = [] ∧
        s'.readyList = s.readyList ++ (s.conditions c).waitingThreads ∧ s'.readyList.Nodup
    else s' = s

/-- `Signal` does its work: nobody waits, or the lock is the one that the waiting threads used. -/
def Kernel.Matches (s : Kernel τ) (c : ℕ) (conditionLock : Option ℕ) : Prop :=
  (s.conditions c).waitingThreads = [] ∨ (s.conditions c).waitingLock = conditionLock

instance (s : Kernel τ) (c : ℕ) (conditionLock : Option ℕ) :
    Decidable (s.Matches c conditionLock) :=
  inferInstanceAs (Decidable (_ ∨ _))

/-- A thread has called `Broadcast` in the state `s` and made `n` tests of the loop, each with the
    lock of those that waited then. Between the tests the others take any steps. -/
inductive Kernel.Broadcasting (t : τ) (c : ℕ) (conditionLock : Option ℕ) (s : Kernel τ) :
    ℕ → Kernel τ → Prop
  | call {s' : Kernel τ} (ht : s.currentThread = some t) (hlock : s.Matches c conditionLock)
      (hs : kernelStep s (.call (.broadcast c conditionLock)) = .ok s') :
      Broadcasting t c conditionLock s 1 s'
  | round {n : ℕ} {u s' : Kernel τ} (h : Broadcasting t c conditionLock s n u)
      (hr : u.resume t = some (.broadcast c conditionLock)) (ht : u.currentThread = some t)
      (hlock : u.Matches c conditionLock) (hs : kernelStep u .resume = .ok s') :
      Broadcasting t c conditionLock s (n + 1) s'
  | others {n : ℕ} {u s' : Kernel τ} {e : Event τ} (h : Broadcasting t c conditionLock s n u)
      (hr : u.resume t = some (.broadcast c conditionLock))
      (ht : u.currentThread = some t → e = .call .yield ∨ ∃ i, e = .interrupt i)
      (hs : kernelStep u e = .ok s') : Broadcasting t c conditionLock s n s'

/-- What a `Broadcast` has done since it was called in the state `s`. -/
structure Kernel.BroadcastDone (s : Kernel τ) (t : τ) (c n : ℕ) (s' : Kernel τ) : Prop where
  /-- No more tests than threads that waited or have come to wait, and one. -/
  rounds : n + (s.history.waited c).length ≤
    (s.conditions c).waitingThreads.length + (s'.history.waited c).length + 1
  /-- When it returns, nobody waits, and those that waited have been woken in order. -/
  returned : s'.resume t = none → (s'.conditions c).waitingThreads = [] ∧
    s.history.woken c ++ (s.conditions c).waitingThreads <+: s'.history.woken c

end

/-! ## The rounds -/

namespace Kernel

variable [DecidableEq τ] {s : Kernel τ} {t : τ} {c : ℕ} {lock : Option ℕ}

theorem kernelStep_round (ht : s.currentThread = some t)
    (hr : s.resume t = some (.broadcast c lock)) :
    kernelStep s .resume = .ok (s.broadcast t c lock) := by
  simp only [kernelStep, ht, hr]
  rfl

theorem kernelStep_broadcast (c : ℕ) (lock : Option ℕ) (ht : s.currentThread = some t)
    (hr : s.resume t = none) :
    kernelStep s (.call (.broadcast c lock)) = .ok (s.broadcast t c lock) := by
  have hc : s.Accepts t (.broadcast c lock) := by simp [Accepts, hr]
  simp only [kernelStep, ht, if_pos hc]
  rfl

/-- The last test. -/
theorem broadcast_nobody (hqueue : (s.conditions c).waitingThreads = []) :
    s.broadcast t c lock = s.done t := if_pos hqueue

/-- With another lock the round changes nothing. -/
theorem broadcast_mismatch (hqueue : (s.conditions c).waitingThreads ≠ [])
    (hlock : (s.conditions c).waitingLock ≠ lock) : s.broadcast t c lock =
      { s with resume := Function.update s.resume t (some (.broadcast c lock)) } := by
  unfold broadcast
  rw [if_neg hqueue, signal_invalid hlock]

/-- What a round does that wakes a thread. -/
structure Woke (s : Kernel τ) (t : τ) (c : ℕ) (lock : Option ℕ) (u : τ) (rest : List τ)
    (s' : Kernel τ) : Prop where
  currentThread : s'.currentThread = s.currentThread
  resume : s'.resume t = some (.broadcast c lock)
  readyList : s'.readyList = s.readyList ++ [u]
  waitingThreads : (s'.conditions c).waitingThreads = rest
  waitingLock : rest ≠ [] → (s'.conditions c).waitingLock = lock
  woken : s'.history.woken c = s.history.woken c ++ [u]
  waited : s'.history.waited = s.history.waited

/-- **A round** with the lock of the waiting threads wakes the one that has waited longest. -/
theorem broadcast_matching {u : τ} {rest : List τ}
    (hqueue : (s.conditions c).waitingThreads = u :: rest)
    (hlock : (s.conditions c).waitingLock = lock) :
    Woke s t c lock u rest (s.broadcast t c lock) := by
  have hsignal : s.signal c lock =
      { s with
        conditions := Function.update s.conditions c ⟨if rest = [] then none else lock, rest⟩
        readyList := s.readyList ++ [u]
        history := { s.history with
          woken := Function.update s.history.woken c (s.history.woken c ++ [u]) } } := by
    unfold signal
    simp only [hqueue, hlock, ne_eq, not_true_eq_false, if_false]
    rfl
  have hround : s.broadcast t c lock =
      { s.signal c lock with
        resume := Function.update (s.signal c lock).resume t (some (.broadcast c lock)) } := by
    unfold broadcast
    rw [if_neg (by rw [hqueue]; exact List.cons_ne_nil u rest)]
  rw [hround, hsignal]
  constructor
  · rfl
  · simp
  · rfl
  · simp
  · intro hrest
    simp [hrest]
  · simp
  · rfl

/-! ## The loop by itself -/

/-- **The loop** with the lock of the waiting threads, by induction on the queue. -/
theorem rounds_end {queue : List τ} (ht : s.currentThread = some t)
    (hr : s.resume t = some (.broadcast c lock)) (hqueue : (s.conditions c).waitingThreads = queue)
    (hlock : queue ≠ [] → (s.conditions c).waitingLock = lock) :
    ∃ s', exec kernelStep s (List.replicate (queue.length + 1) .resume) = .ok s' ∧
      s'.resume t = none ∧ (s'.conditions c).waitingThreads = [] ∧
        s'.readyList = s.readyList ++ queue := by
  induction queue generalizing s with
  | nil =>
    refine ⟨s.done t, ?_, ?_, hqueue, ?_⟩
    · show exec kernelStep s [.resume] = _
      rw [exec_cons_ok (kernelStep_round ht hr), broadcast_nobody hqueue, exec_nil]
    · simp [done]
    · rw [List.append_nil]
      rfl
  | cons u rest ih =>
    have hwoke := broadcast_matching (t := t) hqueue (hlock (List.cons_ne_nil u rest))
    obtain ⟨s', hs', hreturned, hnobody, hready⟩ :=
      ih (hwoke.currentThread.trans ht) hwoke.resume hwoke.waitingThreads hwoke.waitingLock
    refine ⟨s', ?_, hreturned, hnobody, ?_⟩
    · show exec kernelStep s (.resume :: List.replicate (rest.length + 1) .resume) = _
      rw [exec_cons_ok (kernelStep_round ht hr)]
      exact hs'
    · rw [hready, hwoke.readyList, List.append_assoc]
      rfl

/-- **The loop** with another lock never returns while a thread waits. -/
theorem rounds_forever (ht : s.currentThread = some t)
    (hr : s.resume t = some (.broadcast c lock)) (hqueue : (s.conditions c).waitingThreads ≠ [])
    (hlock : (s.conditions c).waitingLock ≠ lock) (n : ℕ) :
    exec kernelStep s (List.replicate n .resume) = .ok s := by
  induction n with
  | zero => rfl
  | succ n ih =>
    have hsame : s.broadcast t c lock = s := by
      rw [broadcast_mismatch hqueue hlock, ← hr, Function.update_eq_self]
    rw [List.replicate_succ, exec_cons_ok (kernelStep_round ht hr), hsame]
    exact ih

theorem not_broadcastEnds (ht : s.currentThread = some t) (hr : s.resume t = none)
    (h : ¬ s.Matches c lock) : ¬ s.BroadcastEnds t c lock := by
  rintro ⟨n, s', hs', hreturned, -⟩
  rw [Matches, not_or] at h
  rw [exec_cons_ok (kernelStep_broadcast c lock ht hr), broadcast_mismatch h.1 h.2] at hs'
  have hnever := rounds_forever
    (s := { s with resume := Function.update s.resume t (some (.broadcast c lock)) })
    ht (Function.update_self ..) h.1 h.2 n
  rw [hnever] at hs'
  cases hs'
  simp at hreturned

theorem broadcastEnds (hplaced : PlacedInv s) (ht : s.currentThread = some t)
    (hr : s.resume t = none) (h : s.Matches c lock) : s.BroadcastEnds t c lock := by
  have hcall := kernelStep_broadcast c lock ht hr
  cases hqueue : (s.conditions c).waitingThreads with
  | nil =>
    have hsame : s.done t = s := by
      unfold done
      rw [← hr, Function.update_eq_self]
    refine ⟨0, s, ?_, hr, ?_⟩
    · rw [exec_cons_ok hcall, broadcast_nobody hqueue, hsame]
      rfl
    · split_ifs
      · exact ⟨hqueue, by rw [hqueue, List.append_nil], hplaced.exact.nodup .ready⟩
      · rfl
  | cons u rest =>
    have hlock : (s.conditions c).waitingLock = lock := by
      refine h.resolve_left ?_
      rw [hqueue]
      exact List.cons_ne_nil u rest
    have hwoke := broadcast_matching (t := t) hqueue hlock
    obtain ⟨s', hs', hreturned, hnobody, hready⟩ :=
      rounds_end (hwoke.currentThread.trans ht) hwoke.resume hwoke.waitingThreads hwoke.waitingLock
    have hreached : exec kernelStep s
        (.call (.broadcast c lock) :: List.replicate (rest.length + 1) .resume) = .ok s' := by
      rw [exec_cons_ok hcall]
      exact hs'
    have hplaced' : PlacedInv s' := exec_preserves (fun _ _ _ h hs => h.step hs) hplaced hreached
    refine ⟨rest.length + 1, s', hreached, hreturned, ?_⟩
    rw [if_pos hlock]
    refine ⟨hnobody, ?_, hplaced'.exact.nodup .ready⟩
    rw [hready, hwoke.readyList, hqueue, List.append_assoc]
    rfl

/-! ## The steps of the others -/

section

variable {k : ℕ} {u : τ} {l : ℕ} {r : Resume}

omit [DecidableEq τ] in
theorem signal_resume : (s.signal c lock).resume = s.resume := by
  unfold signal
  simp only
  split
  next => rfl
  next => split_ifs <;> rfl

omit [DecidableEq τ] in
theorem v_resume : (s.v k).resume = s.resume := by
  unfold v
  simp only
  split <;> rfl

omit [DecidableEq τ] in
theorem yield_resume : (s.yield t).resume = s.resume := by
  unfold yield
  split <;> rfl

theorem sleep_resume_of_ne (h : u ≠ t) : (s.sleep t r).resume u = s.resume u := by
  simp [sleep, h]

theorem done_resume_of_ne (h : u ≠ t) : (s.done t).resume u = s.resume u := by
  simp [done, h]

theorem p_resume_of_ne (h : u ≠ t) : (s.p t k).resume u = s.resume u := by
  unfold p
  simp only
  split_ifs
  · rw [sleep_resume_of_ne h]
  · rw [done_resume_of_ne h]

theorem acquire_resume_of_ne (h : u ≠ t) : (s.acquire t l r).resume u = s.resume u := by
  unfold acquire
  simp only
  split_ifs
  · rw [done_resume_of_ne h]
  · rw [sleep_resume_of_ne h]

theorem broadcast_resume_of_ne (h : u ≠ t) : (s.broadcast t c lock).resume u = s.resume u := by
  unfold broadcast
  simp only
  split_ifs
  · exact done_resume_of_ne h
  · show Function.update _ t _ u = _
    rw [Function.update_of_ne h, signal_resume]

/-- A thread goes on where it was when another one makes a call. -/
theorem perform_resume_of_ne (h : u ≠ t) (call : Call τ) :
    (s.perform t call).resume u = s.resume u := by
  cases call with
  | p i => exact p_resume_of_ne h
  | v i => exact congrFun v_resume u
  | acquire l => exact acquire_resume_of_ne h
  | release l => rfl
  | wait c lock =>
    cases lock with
    | none => rfl
    | some l =>
      show (s.wait t c (some l)).resume u = s.resume u
      unfold wait
      simp only
      split_ifs
      · rfl
      · rw [sleep_resume_of_ne h]
        rfl
  | signal c lock => exact congrFun signal_resume u
  | broadcast c lock => exact broadcast_resume_of_ne h
  | yield => exact congrFun yield_resume u
  | fork x => rfl
  | finish => simp [perform, finish]

theorem goOn_resume_of_ne (h : u ≠ t) (r : Resume) : (s.goOn t r).resume u = s.resume u := by
  cases r with
  | p i => exact p_resume_of_ne h
  | acquire l => exact done_resume_of_ne h
  | wait c l => exact acquire_resume_of_ne h
  | reacquire l => exact done_resume_of_ne h
  | broadcast c lock => exact broadcast_resume_of_ne h

/-- **The others leave it in its loop**, and so does the end of its time slice. -/
theorem others_resume {s' : Kernel τ} {e : Event τ}
    (ht : s.currentThread = some t → e = .call .yield ∨ ∃ i, e = .interrupt i)
    (hs : kernelStep s e = .ok s') : s'.resume t = s.resume t := by
  rcases kernelStep_cases hs with ⟨u, call, he, hu, -, rfl⟩ | ⟨u, r, he, hu, -, rfl⟩ |
    ⟨i, -, rfl⟩ | ⟨-, -, rfl⟩
  · by_cases hut : t = u
    · subst hut
      rcases ht hu with hyield | ⟨i, hi⟩
      · rw [hyield] at he
        cases he
        exact congrFun yield_resume t
      · rw [hi] at he
        cases he
    · exact perform_resume_of_ne hut call
  · have hut : t ≠ u := by
      intro heq
      subst heq
      rcases ht hu with hyield | ⟨i, hi⟩
      · rw [hyield] at he
        cases he
      · rw [hi] at he
        cases he
    exact goOn_resume_of_ne hut r
  · exact congrFun v_resume t
  · rw [run_resume]

end

/-- The history of a condition goes on. -/
def Continues (c : ℕ) (s s' : Kernel τ) : Prop :=
  s.history.woken c <+: s'.history.woken c ∧ s.history.waited c <+: s'.history.waited c

omit [DecidableEq τ] in
theorem Continues.of_eq {s' : Kernel τ} (hwoken : s'.history.woken = s.history.woken)
    (hwaited : s'.history.waited = s.history.waited) : Continues c s s' := by
  unfold Continues
  rw [hwoken, hwaited]
  exact ⟨List.prefix_rfl, List.prefix_rfl⟩

omit [DecidableEq τ] in
theorem continues_update {f : ℕ → List τ} {k : ℕ} {l : List τ} :
    f c <+: Function.update f k (f k ++ l) c := by
  by_cases hk : c = k
  · subst hk
    rw [Function.update_self]
    exact List.prefix_append (f c) l
  · rw [Function.update_of_ne hk]

omit [DecidableEq τ] in
theorem continues_signal {k : ℕ} : Continues c s (s.signal k lock) := by
  unfold signal
  simp only
  split
  next => exact .of_eq rfl rfl
  next =>
    by_cases hlock : (s.conditions k).waitingLock ≠ lock
    · rw [if_pos hlock]
      exact .of_eq rfl rfl
    · rw [if_neg hlock]
      exact ⟨continues_update, List.prefix_rfl⟩

omit [DecidableEq τ] in
theorem Continues.trans {u s' : Kernel τ} (h : Continues c s u) (h' : Continues c u s') :
    Continues c s s' := ⟨h.1.trans h'.1, h.2.trans h'.2⟩

omit [DecidableEq τ] in
theorem continues_run : Continues c s s.run := by
  apply Continues.of_eq <;> simp

omit [DecidableEq τ] in
theorem continues_v {k : ℕ} : Continues c s (s.v k) := by
  unfold v
  simp only
  split <;> exact .of_eq rfl rfl

theorem continues_p {k : ℕ} : Continues c s (s.p t k) := by
  unfold p
  simp only
  split_ifs
  · exact .of_eq (by simp [sleep]) (by simp [sleep])
  · exact .of_eq rfl rfl

theorem continues_acquire {l : ℕ} {r : Resume} : Continues c s (s.acquire t l r) := by
  unfold acquire
  simp only
  split_ifs
  · exact .of_eq rfl rfl
  · exact .of_eq (by simp [sleep]) (by simp [sleep])

theorem continues_wait {k : ℕ} : Continues c s (s.wait t k lock) := by
  cases lock with
  | none => exact .of_eq rfl rfl
  | some l =>
    unfold wait
    simp only
    split_ifs
    · exact .of_eq rfl rfl
    · refine Continues.trans ?_ continues_run
      exact ⟨List.prefix_rfl, continues_update⟩

theorem continues_broadcast {k : ℕ} : Continues c s (s.broadcast t k lock) := by
  unfold broadcast
  simp only
  split_ifs
  · exact .of_eq rfl rfl
  · exact continues_signal.trans (.of_eq rfl rfl)

/-- **Every step** only adds to what has happened at a condition. -/
theorem continues_kernelStep {s' : Kernel τ} {e : Event τ} (hs : kernelStep s e = .ok s') :
    Continues c s s' := by
  rcases kernelStep_cases hs with ⟨u, call, -, -, -, rfl⟩ | ⟨u, r, -, -, -, rfl⟩ | ⟨i, -, rfl⟩ |
    ⟨-, -, rfl⟩
  · cases call with
    | p i => exact continues_p
    | v i => exact continues_v
    | acquire l => exact continues_acquire
    | release l => exact .of_eq rfl rfl
    | wait k lock => exact continues_wait
    | signal k lock => exact continues_signal
    | broadcast k lock => exact continues_broadcast
    | yield =>
      show Continues c s (s.yield u)
      unfold yield
      split <;> exact .of_eq rfl rfl
    | fork x => exact .of_eq rfl rfl
    | finish =>
      have hfinished : Continues c s { s with finished := s.finished ++ [u] } := .of_eq rfl rfl
      exact hfinished.trans continues_run
  · cases r with
    | p i => exact continues_p
    | acquire l => exact .of_eq rfl rfl
    | wait k l => exact continues_acquire
    | reacquire l => exact .of_eq rfl rfl
    | broadcast k lock => exact continues_broadcast
  · exact continues_v
  · exact continues_run

/-! ## The loop among the others -/

/-- What holds of a `Broadcast` that has made `n` tests. -/
structure BroadcastInv (s : Kernel τ) (t : τ) (c : ℕ) (lock : Option ℕ) (n : ℕ)
    (s' : Kernel τ) : Prop where
  continues : Continues c s s'
  /-- Each test has woken a thread, only the last has not. -/
  looping : s'.resume t = some (.broadcast c lock) ∧
      n + (s.history.woken c).length ≤ (s'.history.woken c).length ∨
    s'.resume t = none ∧ (s'.conditions c).waitingThreads = [] ∧
      n + (s.history.woken c).length ≤ (s'.history.woken c).length + 1

/-- **One test.** -/
theorem BroadcastInv.round {n : ℕ} {u : Kernel τ} (hcontinues : Continues c s u)
    (hrounds : n + (s.history.woken c).length ≤ (u.history.woken c).length)
    (hlock : u.Matches c lock) : BroadcastInv s t c lock (n + 1) (u.broadcast t c lock) := by
  refine ⟨hcontinues.trans continues_broadcast, ?_⟩
  cases hqueue : (u.conditions c).waitingThreads with
  | nil =>
    rw [broadcast_nobody hqueue]
    refine Or.inr ⟨by simp [done], hqueue, ?_⟩
    show n + 1 + _ ≤ (u.history.woken c).length + 1
    omega
  | cons x rest =>
    have hlock : (u.conditions c).waitingLock = lock := by
      refine hlock.resolve_left ?_
      rw [hqueue]
      exact List.cons_ne_nil x rest
    have hwoke := broadcast_matching (t := t) hqueue hlock
    refine Or.inl ⟨hwoke.resume, ?_⟩
    rw [hwoke.woken, List.length_append, List.length_singleton]
    omega

/-- **All of them**, whatever the others do. -/
theorem BroadcastInv.of_broadcasting {n : ℕ} {s' : Kernel τ}
    (h : Broadcasting t c lock s n s') (hr : s.resume t = none) :
    BroadcastInv s t c lock n s' := by
  induction h with
  | call ht hlock hs =>
    rw [kernelStep_broadcast c lock ht hr] at hs
    cases hs
    exact BroadcastInv.round (.of_eq rfl rfl) (by omega) hlock
  | round h hresume ht hlock hs ih =>
    rw [kernelStep_round ht hresume] at hs
    cases hs
    obtain ⟨-, hrounds⟩ | ⟨hnone, -⟩ := ih.looping
    · exact BroadcastInv.round ih.continues hrounds hlock
    · rw [hresume] at hnone
      cases hnone
  | others h hresume ht hs ih =>
    have hcontinues := continues_kernelStep (c := c) hs
    refine ⟨ih.continues.trans hcontinues, ?_⟩
    obtain ⟨-, hrounds⟩ | ⟨hnone, -⟩ := ih.looping
    · refine Or.inl ⟨(others_resume ht hs).trans hresume, ?_⟩
      exact hrounds.trans hcontinues.1.length_le
    · rw [hresume] at hnone
      cases hnone

theorem reached_of_broadcasting {main : τ} {values : ℕ → ℕ} {n : ℕ} {s' : Kernel τ}
    (h : Broadcasting t c lock s n s') {events : List (Event τ)}
    (hs : exec kernelStep (.init main values) events = .ok s) :
    ∃ events, exec kernelStep (.init main values) events = .ok s' := by
  induction h with
  | call ht hlock hstep => exact ⟨_, (exec_concat _ hs).trans hstep⟩
  | round h hresume ht hlock hstep ih =>
    obtain ⟨events, hevents⟩ := ih
    exact ⟨_, (exec_concat _ hevents).trans hstep⟩
  | others h hresume ht hstep ih =>
    obtain ⟨events, hevents⟩ := ih
    exact ⟨_, (exec_concat _ hevents).trans hstep⟩

omit [DecidableEq τ] in
/-- A test has been made, so the call has returned with nobody waiting or goes on. -/
theorem BroadcastInv.broadcastDone {n : ℕ} {s' : Kernel τ} (h : BroadcastInv s t c lock n s')
    (hs : ConditionsInv s) (hs' : ConditionsInv s') : BroadcastDone s t c n s' := by
  have hwaited := congrArg List.length (hs.waited c)
  have hwaited' := congrArg List.length (hs'.waited c)
  rw [List.length_append] at hwaited hwaited'
  constructor
  · rcases h.looping with ⟨-, hrounds⟩ | ⟨-, -, hrounds⟩ <;> omega
  · intro hreturned
    rcases h.looping with ⟨hresume, -⟩ | ⟨-, hnobody, -⟩
    · rw [hreturned] at hresume
      cases hresume
    · refine ⟨hnobody, ?_⟩
      -- all that have waited have been woken
      have hall := hs'.waited c
      rw [hnobody, List.append_nil] at hall
      rw [← hs.waited c, ← hall]
      exact h.continues.2

end Kernel

/-! ## The theorem -/

open Kernel in
/-- **`Broadcast` ends and wakes everyone exactly when nobody waits or the lock matches**, in any
    reachable state. When other threads run between the signals, and the lock matches at each
    test, it makes no more tests than threads wait or come to wait, and has woken everyone. -/
theorem broadcast_ends_iff [DecidableEq τ] {main : τ} {values : ℕ → ℕ} {events : List (Event τ)}
    {s : Kernel τ} (h : exec kernelStep (.init main values) events = .ok s) {t : τ}
    (ht : s.currentThread = some t) (hr : s.resume t = none) (c : ℕ) (conditionLock : Option ℕ) :
    (s.BroadcastEnds t c conditionLock ↔ s.Matches c conditionLock) ∧
      ∀ n s', Broadcasting t c conditionLock s n s' → s.BroadcastDone t c n s' := by
  have hplaced := (locksInv_of_exec h).1
  constructor
  · constructor
    · intro hends
      by_contra hlock
      exact not_broadcastEnds ht hr hlock hends
    · exact broadcastEnds hplaced ht hr
  · intro n s' hbroadcasting
    obtain ⟨events', h'⟩ := reached_of_broadcasting hbroadcasting h
    exact (BroadcastInv.of_broadcasting hbroadcasting hr).broadcastDone
      (conditionsInv_of_exec h) (conditionsInv_of_exec h')

/-- Two threads wait with the lock 0, which the main thread has. -/
theorem broadcast_ends_iff_two :
    ∃ s : Kernel ℕ, exec kernelStep (.init 0 fun _ => 0)
      [.call (.fork 1), .call (.fork 2), .call .yield, .call (.acquire 0),
        .call (.wait 0 (some 0)), .call (.acquire 0), .call (.wait 0 (some 0)),
        .call (.acquire 0)] = .ok s ∧
      (s.conditions 0).waitingThreads = [1, 2] ∧ s.BroadcastEnds 0 0 (some 0) := by
  have hrun : Ends kernelStep (Kernel.init 0 fun _ => 0)
      [.call (.fork 1), .call (.fork 2), .call .yield, .call (.acquire 0),
        .call (.wait 0 (some 0)), .call (.acquire 0), .call (.wait 0 (some 0)),
        .call (.acquire 0)] fun s =>
      (s.conditions 0).waitingThreads = [1, 2] ∧ s.Matches 0 (some 0) ∧
        s.currentThread = some 0 ∧ s.resume 0 = none := by
    decide +kernel
  obtain ⟨s, hs, hwaiting, hlock, ht, hr⟩ := hrun
  exact ⟨s, hs, hwaiting, ((broadcast_ends_iff hs ht hr 0 (some 0)).1).mpr hlock⟩

open Kernel in
/-- A thread waits with the lock 0, and the main thread broadcasts with the lock 1 that it has. -/
theorem broadcast_never_ends :
    ∃ s : Kernel ℕ, exec kernelStep (.init 0 fun _ => 0)
      [.call (.fork 1), .call .yield, .call (.acquire 0), .call (.wait 0 (some 0)),
        .call (.acquire 1)] = .ok s ∧
      s.currentThread = some 0 ∧ s.resume 0 = none ∧
        ((s.locks 1).HeldBy 0 ∧ (s.conditions 0).waitingThreads = [1]) ∧
        ¬ s.BroadcastEnds 0 0 (some 1) ∧ ¬ s.BroadcastEnds 0 0 none := by
  have hrun : Ends kernelStep (Kernel.init 0 fun _ => 0)
      [.call (.fork 1), .call .yield, .call (.acquire 0), .call (.wait 0 (some 0)),
        .call (.acquire 1)] fun s =>
      s.currentThread = some 0 ∧ s.resume 0 = none ∧
        ((s.locks 1).HeldBy 0 ∧ (s.conditions 0).waitingThreads = [1]) ∧
          ¬ s.Matches 0 (some 1) ∧ ¬ s.Matches 0 none := by
    decide +kernel
  obtain ⟨s, hs, ht, hr, hwaiting, hother, hnull⟩ := hrun
  exact ⟨s, hs, ht, hr, hwaiting, not_broadcastEnds ht hr hother, not_broadcastEnds ht hr hnull⟩

end Nachos.Threads
