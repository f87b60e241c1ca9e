import Nachos.Lib.AtomicObject
import Nachos.Threads.Kernel
import Nachos.Threads.LockQueue

/-!
# Devices behind a lock

What `SynchDisk` (`filesys/synchdisk.cc`), `PostOffice::Send` (`network/post.cc`) and
`SynchConsole::WriteLine` (`userprog/synchconsole.cc`) do: a thread acquires a lock, makes its
requests of the device one after the other, each followed by the `P` of a semaphore, and releases
the lock. The device asserts that it is not busy, and when it is done its interrupt handler calls
`V`.

Interrupts are disabled in the calls of the kernel, so each is a step, and so is a request. The
steps of the threads and the interrupts come in any order.

* `synchDevice_follows`: an operation is atomic.
* `synchDevice_safe`: the device is never busy when a request is made.
* `synchDevice_returns`: every operation returns.
-/

namespace Nachos.Threads

open Nachos.Lib

/-! ## The device -/

/-- A device that works on one request at a time. -/
structure Device (δ ρ α : Type) where
  request : δ → ρ → δ × α
  /-- What the device asserts of a request. -/
  legal : ρ → Bool

variable {τ δ ρ α : Type}

/-- Requests one after the other, with their answers. -/
@[simp]
def Device.run (d : Device δ ρ α) : δ → List ρ → δ × List α
  | s, [] => (s, [])
  | s, r :: rs => ((d.run (d.request s r).1 rs).1, (d.request s r).2 ::
    (d.run (d.request s r).1 rs).2)

/-- Where a thread is: in the `Acquire`, before its next request, or in the `P` after one. -/
inductive DevicePoint (ρ α : Type)
  | outside
  | acquire (requests : List ρ)
  | request (requests : List ρ) (answers : List α)
  | p (requests : List ρ) (answers : List α)

/-- The requests that a thread has not made yet. -/
def DevicePoint.requests : DevicePoint ρ α → List ρ
  | outside => []
  | acquire rs | request rs _ | p rs _ => rs

/-- The lock and the semaphore, the device, and the threads. -/
structure SynchDevice (τ δ ρ α : Type) where
  lock : Lock τ
  done : Semaphore τ
  device : δ
  active : Bool
  point : τ → DevicePoint ρ α

/-- The constructor. -/
def SynchDevice.new (device : δ) : SynchDevice τ δ ρ α where
  lock := .new
  done := ⟨0, []⟩
  device := device
  active := false
  point _ := .outside

/-- What happens. -/
inductive DeviceEvent (τ ρ : Type)
  | call (thread : τ) (requests : List ρ)
  | go (thread : τ)
  | interrupt

/-- Why a step does not happen. -/
inductive DeviceFault
  | impossible
  | assertion
  deriving DecidableEq

variable [DecidableEq τ]

namespace SynchDevice

variable (s : SynchDevice τ δ ρ α) (t : τ)

/-- The call of a thread up to its `Acquire`. -/
def call (rs : List ρ) : SynchDevice τ δ ρ α :=
  { s with lock := s.lock.acquire t, point := Function.update s.point t (.acquire rs) }

/-- A thread goes on. -/
def moveTo (q : DevicePoint ρ α) : SynchDevice τ δ ρ α :=
  { s with point := Function.update s.point t q }

/-- The next request of a thread. -/
def request (d : Device δ ρ α) (r : ρ) (rs : List ρ) (as : List α) : SynchDevice τ δ ρ α :=
  { s with
    device := (d.request s.device r).1
    active := true
    point := Function.update s.point t (.p rs (as ++ [(d.request s.device r).2])) }

/-- The `Release`, and the return. -/
def release : SynchDevice τ δ ρ α :=
  { s with lock := s.lock.release t, point := Function.update s.point t .outside }

/-- The thread finds the value 0 and sleeps. -/
def sleep : SynchDevice τ δ ρ α := { s with done := { s.done with queue := s.done.queue ++ [t] } }

/-- `P` returns. -/
def passed (rs : List ρ) (as : List α) : SynchDevice τ δ ρ α :=
  { s with
    done := { s.done with value := s.done.value - 1 }
    point := Function.update s.point t (.request rs as) }

/-- The interrupt of the device, with the `V` of the handler. -/
def interrupt : SynchDevice τ δ ρ α :=
  { s with active := false, done := ⟨s.done.value + 1, s.done.queue.tail⟩ }

/-- A thread that does not sleep goes on. -/
def go (d : Device δ ρ α) : Except DeviceFault (SynchDevice τ δ ρ α) :=
  match s.point t with
  | .outside => .error .impossible
  | .acquire rs => if s.lock.HeldBy t then .ok (s.moveTo t (.request rs [])) else .error .impossible
  | .request [] _ => .ok (s.release t)
  | .request (r :: rs) as =>
    if s.active ∨ ¬ d.legal r then .error .assertion else .ok (s.request t d r rs as)
  | .p rs as =>
    if t ∈ s.done.queue then .error .impossible
    else if s.done.value = 0 then .ok (s.sleep t)
    else .ok (s.passed t rs as)

end SynchDevice

/-- **A step.** -/
def deviceStep (d : Device δ ρ α) (s : SynchDevice τ δ ρ α) :
    DeviceEvent τ ρ → Except DeviceFault (SynchDevice τ δ ρ α)
  | .call t rs =>
    match s.point t with
    | .outside => .ok (s.call t rs)
    | _ => .error .impossible
  | .go t => s.go t d
  | .interrupt => if s.active then .ok s.interrupt else .error .impossible

/-- What is seen of a step: a call, and its return with the answers. -/
def deviceSee (s : SynchDevice τ δ ρ α) : DeviceEvent τ ρ → List (Visible τ (List ρ) (List α))
  | .call t rs => [.call t rs]
  | .go t =>
    match s.point t with
    | .request [] as => [.ret t as]
    | _ => []
  | .interrupt => []

/-- The requests of a call are legal. -/
def CallLegal (d : Device δ ρ α) (_ : SynchDevice τ δ ρ α) : DeviceEvent τ ρ → Prop
  | .call _ rs => ∀ r ∈ rs, d.legal r
  | _ => True

/-- **What a step can do.** -/
theorem deviceStep_cases {d : Device δ ρ α} {s s' : SynchDevice τ δ ρ α} {e : DeviceEvent τ ρ}
    (h : deviceStep d s e = .ok s') :
    (∃ t rs, e = .call t rs ∧ s.point t = .outside ∧ s' = s.call t rs) ∨
      (∃ t rs, e = .go t ∧ s.point t = .acquire rs ∧ s.lock.owner = some t ∧
        s' = s.moveTo t (.request rs [])) ∨
      (∃ t as, e = .go t ∧ s.point t = .request [] as ∧ s' = s.release t) ∨
      (∃ t r rs as, e = .go t ∧ s.point t = .request (r :: rs) as ∧ s.active = false ∧
        s' = s.request t d r rs as) ∨
      (∃ t rs as, e = .go t ∧ s.point t = .p rs as ∧ t ∉ s.done.queue ∧ s.done.value = 0 ∧
        s' = s.sleep t) ∨
      (∃ t rs as, e = .go t ∧ s.point t = .p rs as ∧ t ∉ s.done.queue ∧ s.done.value ≠ 0 ∧
        s' = s.passed t rs as) ∨
      e = .interrupt ∧ s.active = true ∧ s' = s.interrupt := by
  cases e with
  | call t rs =>
    left
    simp only [deviceStep] at h
    split at h
    · exact ⟨t, rs, rfl, ‹_›, (Except.ok.inj h).symm⟩
    · cases h
  | go t =>
    right
    simp only [deviceStep, SynchDevice.go] at h
    split at h
    · cases h
    · split_ifs at h with hheld
      exact Or.inl ⟨t, _, rfl, ‹_›, hheld, (Except.ok.inj h).symm⟩
    · exact Or.inr (Or.inl ⟨t, _, rfl, ‹_›, (Except.ok.inj h).symm⟩)
    · split_ifs at h with hbad
      rw [not_or, Bool.not_eq_true] at hbad
      exact Or.inr (Or.inr (Or.inl ⟨t, _, _, _, rfl, ‹_›, hbad.1, (Except.ok.inj h).symm⟩))
    · split_ifs at h with hqueue hvalue
      · exact Or.inr (Or.inr (Or.inr (Or.inl
          ⟨t, _, _, rfl, ‹_›, hqueue, hvalue, (Except.ok.inj h).symm⟩)))
      · exact Or.inr (Or.inr (Or.inr (Or.inr (Or.inl
          ⟨t, _, _, rfl, ‹_›, hqueue, hvalue, (Except.ok.inj h).symm⟩))))
  | interrupt =>
    simp only [deviceStep] at h
    split_ifs at h with hactive
    exact Or.inr (Or.inr (Or.inr (Or.inr (Or.inr (Or.inr
      ⟨rfl, hactive, (Except.ok.inj h).symm⟩)))))

/-! ## The invariant -/

/-- The thread is in its `Acquire`. -/
def DevicePoint.Calling : DevicePoint ρ α → Prop
  | acquire _ => True
  | outside | request _ _ | p _ _ => False

/-- The thread is in `P`. -/
def DevicePoint.InP : DevicePoint ρ α → Prop
  | p _ _ => True
  | outside | acquire _ | request _ _ => False

/-- The thread has the lock. -/
def DevicePoint.Inside : DevicePoint ρ α → Prop
  | request _ _ | p _ _ => True
  | outside | acquire _ => False

omit [DecidableEq τ] in
theorem DevicePoint.InP.inside {q : DevicePoint ρ α} (h : q.InP) : q.Inside := by
  cases q <;> first | exact trivial | exact h.elim

/-- The device or the semaphore knows of the request of the thread inside. -/
structure DeviceInv (d : Device δ ρ α) (s : SynchDevice τ δ ρ α) : Prop where
  queue : LockQueue s.lock {t | (s.point t).Calling} {t | (s.point t).Inside}
  legal : ∀ t, ∀ r ∈ (s.point t).requests, d.legal r
  quiet : (∀ t, ¬ (s.point t).InP) → s.active = false ∧ s.done = ⟨0, []⟩
  busy : ∀ t, (s.point t).InP → s.active = true ∧ (s.done = ⟨0, []⟩ ∨ s.done = ⟨0, [t]⟩) ∨
    s.active = false ∧ s.done = ⟨1, []⟩

omit [DecidableEq τ] in
theorem DeviceInv.new (d : Device δ ρ α) (device : δ) :
    DeviceInv d (.new device : SynchDevice τ δ ρ α) where
  queue := by
    have hempty : {t : τ | (DevicePoint.outside : DevicePoint ρ α).Calling} = ∅ := by
      ext t
      exact Iff.rfl
    show LockQueue _ {t : τ | (DevicePoint.outside : DevicePoint ρ α).Calling} _
    rw [hempty]
    exact LockQueue.new
  legal _ _ h := absurd h List.not_mem_nil
  quiet _ := ⟨rfl, rfl⟩
  busy _ h := h.elim

section

variable {d : Device δ ρ α} {s s' : SynchDevice τ δ ρ α} {t u : τ} {rs : List ρ} {as : List α}
  {r : ρ} {q : DevicePoint ρ α} {point : τ → DevicePoint ρ α} {e : DeviceEvent τ ρ}

namespace DeviceInv

omit [DecidableEq τ] in
/-- Two threads are not inside. -/
theorem unique (h : DeviceInv d s) (ht : (s.point t).Inside) (hu : (s.point u).Inside) : t = u :=
  h.queue.unique ht hu

omit [DecidableEq τ] in
theorem of_request (h : DeviceInv d s) (ht : s.point t = .request rs as) :
    s.active = false ∧ s.done = ⟨0, []⟩ := by
  have hinside : (s.point t).Inside := by rw [ht]; exact trivial
  refine h.quiet fun u hu => ?_
  obtain rfl := h.unique hinside hu.inside
  rw [ht] at hu
  exact hu

/-- The point of one thread changes, with the lock, and nobody comes into `P` or leaves it. -/
theorem of_move (h : DeviceInv d s) {lock : Lock τ}
    (hqueue : LockQueue lock {u | (Function.update s.point t q u).Calling}
      {u | (Function.update s.point t q u).Inside})
    (hlegal : ∀ r ∈ q.requests, d.legal r) (hInP : q.InP ↔ (s.point t).InP) :
    DeviceInv d { s with lock := lock, point := Function.update s.point t q } := by
  have hiff (u : τ) : (Function.update s.point t q u).InP ↔ (s.point u).InP := by
    by_cases hu : u = t
    · subst hu
      simpa using hInP
    · simp [Function.update_of_ne hu]
  refine ⟨hqueue, ?_, ?_, ?_⟩
  · intro u r hr
    by_cases hu : u = t
    · subst hu
      simp only [Function.update_self] at hr
      exact hlegal r hr
    · simp only [Function.update_of_ne hu] at hr
      exact h.legal u r hr
  · intro hnone
    exact h.quiet fun u hu => hnone u ((hiff u).mpr hu)
  · intro u hu
    exact h.busy u ((hiff u).mp hu)

theorem call (h : DeviceInv d s) (ht : s.point t = .outside) (hlegal : ∀ r ∈ rs, d.legal r) :
    DeviceInv d (s.call t rs) := by
  apply h.of_move (q := .acquire rs)
  · rw [setOf_update_of_pos DevicePoint.Calling (.acquire rs) trivial,
      setOf_update_of_iff DevicePoint.Inside (.acquire rs) (by rw [ht]; exact Iff.rfl)]
    refine h.queue.acquire (t := t) ?_ ?_
    · show ¬ (s.point t).Calling
      rw [ht]
      exact id
    · show ¬ (s.point t).Inside
      rw [ht]
      exact id
  · exact hlegal
  · rw [ht]
    exact Iff.rfl

theorem enter (h : DeviceInv d s) (ht : s.point t = .acquire rs) (howner : s.lock.owner = some t) :
    DeviceInv d (s.moveTo t (.request rs [])) := by
  have hcalling : (s.point t).Calling := by rw [ht]; exact trivial
  apply h.of_move (q := .request rs [])
  · rw [setOf_update_of_neg DevicePoint.Calling (.request rs []) id,
      setOf_update_of_pos DevicePoint.Inside (.request rs []) trivial,
      h.queue.empty_of_calling (t := t) hcalling howner, insert_empty_eq]
    exact h.queue.enter hcalling howner
  · intro r hr
    apply h.legal t r
    rwa [ht]
  · rw [ht]
    exact Iff.rfl

theorem release (h : DeviceInv d s) (ht : s.point t = .request [] as) :
    DeviceInv d (s.release t) := by
  have hinside : (s.point t).Inside := by rw [ht]; exact trivial
  have hempty : {u | (s.point u).Inside} \ {t} = ∅ := by
    ext u
    exact ⟨fun hu => hu.2 (h.unique hu.1 hinside), fun hu => hu.elim⟩
  apply h.of_move (q := .outside)
  · rw [setOf_update_of_iff DevicePoint.Calling .outside (by rw [ht]; exact Iff.rfl),
      setOf_update_of_neg DevicePoint.Inside .outside id, hempty]
    exact h.queue.release hinside
  · exact fun r hr => absurd hr List.not_mem_nil
  · rw [ht]
    exact Iff.rfl

/-- What `P` and a request keep of the lock. -/
theorem queue_of_inside (h : DeviceInv d s) (ht : (s.point t).Inside) (hq : q.Inside) :
    LockQueue s.lock {u | (Function.update s.point t q u).Calling}
      {u | (Function.update s.point t q u).Inside} := by
  have hcalling {q : DevicePoint ρ α} (hq : q.Inside) : ¬ q.Calling := by
    cases q <;> first | exact id | exact hq.elim
  rw [setOf_update_of_iff DevicePoint.Calling q (iff_of_false (hcalling hq) (hcalling ht)),
    setOf_update_of_iff DevicePoint.Inside q (iff_of_true hq ht)]
  exact h.queue

theorem request (h : DeviceInv d s) (ht : s.point t = .request (r :: rs) as) :
    DeviceInv d (s.request t d r rs as) := by
  have hinside : (s.point t).Inside := by rw [ht]; exact trivial
  obtain ⟨-, hdone⟩ := h.of_request ht
  have hself : (s.request t d r rs as).point t = .p rs (as ++ [(d.request s.device r).2]) :=
    Function.update_self ..
  have hother {u : τ} (hu : u ≠ t) : (s.request t d r rs as).point u = s.point u :=
    Function.update_of_ne hu ..
  refine ⟨h.queue_of_inside hinside trivial, ?_, ?_, ?_⟩
  · intro u r' hr'
    by_cases hu : u = t
    · subst hu
      rw [hself] at hr'
      apply h.legal u r'
      rw [ht]
      exact List.mem_cons_of_mem _ hr'
    · rw [hother hu] at hr'
      exact h.legal u r' hr'
  · intro hnone
    refine absurd ?_ (hnone t)
    rw [hself]
    exact trivial
  · intro u hu
    exact Or.inl ⟨rfl, Or.inl hdone⟩

omit [DecidableEq τ] in
theorem sleep (h : DeviceInv d s) (ht : s.point t = .p rs as) (hqueue : t ∉ s.done.queue)
    (hvalue : s.done.value = 0) :
    DeviceInv d (s.sleep t) := by
  have hInP : (s.point t).InP := by rw [ht]; exact trivial
  refine ⟨h.queue, h.legal, fun hnone => absurd hInP (hnone t), ?_⟩
  intro u hu
  obtain rfl : t = u := h.unique hInP.inside hu.inside
  rcases h.busy t hInP with ⟨hactive, hdone | hdone⟩ | ⟨-, hdone⟩
  · exact Or.inl ⟨hactive, Or.inr (by rw [SynchDevice.sleep, hdone]; rfl)⟩
  · rw [hdone] at hqueue
    exact absurd (List.mem_singleton.mpr rfl) hqueue
  · rw [hdone] at hvalue
    cases hvalue

theorem passed (h : DeviceInv d s) (ht : s.point t = .p rs as) (hvalue : s.done.value ≠ 0) :
    DeviceInv d (s.passed t rs as) := by
  have hInP : (s.point t).InP := by rw [ht]; exact trivial
  have hself : (s.passed t rs as).point t = .request rs as := Function.update_self ..
  have hother {u : τ} (hu : u ≠ t) : (s.passed t rs as).point u = s.point u :=
    Function.update_of_ne hu ..
  have hdone : s.active = false ∧ s.done = ⟨1, []⟩ := by
    rcases h.busy t hInP with ⟨-, hdone | hdone⟩ | hdone
    · rw [hdone] at hvalue
      exact absurd rfl hvalue
    · rw [hdone] at hvalue
      exact absurd rfl hvalue
    · exact hdone
  refine ⟨h.queue_of_inside hInP.inside trivial, ?_, ?_, ?_⟩
  · intro u r' hr'
    by_cases hu : u = t
    · subst hu
      rw [hself] at hr'
      apply h.legal u r'
      rwa [ht]
    · rw [hother hu] at hr'
      exact h.legal u r' hr'
  · intro _
    refine ⟨hdone.1, ?_⟩
    rw [SynchDevice.passed, hdone.2]
    rfl
  · intro u hu
    by_cases hut : u = t
    · subst hut
      rw [hself] at hu
      exact hu.elim
    · rw [hother hut] at hu
      exact absurd (h.unique hu.inside hInP.inside) hut

omit [DecidableEq τ] in
theorem interrupt (h : DeviceInv d s) (hactive : s.active = true) : DeviceInv d s.interrupt := by
  refine ⟨h.queue, h.legal, ?_, ?_⟩
  · intro hnone
    rw [(h.quiet hnone).1] at hactive
    cases hactive
  · intro u hu
    refine Or.inr ⟨rfl, ?_⟩
    rcases h.busy u hu with ⟨-, hdone | hdone⟩ | ⟨hidle, -⟩
    · rw [SynchDevice.interrupt, hdone]
      rfl
    · rw [SynchDevice.interrupt, hdone]
      rfl
    · rw [hidle] at hactive
      cases hactive

/-- **Step lemma.** -/
theorem step (h : DeviceInv d s) (hok : CallLegal d s e) (hs : deviceStep d s e = .ok s') :
    DeviceInv d s' := by
  rcases deviceStep_cases hs with ⟨t, rs, rfl, ht, rfl⟩ | ⟨t, rs, rfl, ht, howner, rfl⟩ |
    ⟨t, as, rfl, ht, rfl⟩ | ⟨t, r, rs, as, rfl, ht, -, rfl⟩
      | ⟨t, rs, as, rfl, ht, hq, hvalue, rfl⟩ |
    ⟨t, rs, as, rfl, ht, -, hvalue, rfl⟩ | ⟨rfl, hactive, rfl⟩
  · exact h.call ht hok
  · exact h.enter ht howner
  · exact h.release ht
  · exact h.request ht
  · exact h.sleep ht hq hvalue
  · exact h.passed ht hvalue
  · exact h.interrupt hactive

end DeviceInv

omit [DecidableEq τ] in
/-- **The device is not busy** when a request is made, and the request is legal. -/
theorem DeviceInv.not_assertion (h : DeviceInv d s) (ht : s.point t = .request (r :: rs) as) :
    s.active = false ∧ d.legal r :=
  ⟨(h.of_request ht).1, h.legal t r (by rw [ht]; exact List.mem_cons_self)⟩

/-- **No assertion fails**, whatever the order of the steps. -/
theorem synchDevice_safe {device : δ} {l : List (DeviceEvent τ ρ)}
    (hl : Guarded (deviceStep d) (CallLegal d) (.new device) l)
    (h : exec (deviceStep d) (.new device : SynchDevice τ δ ρ α) l = .ok s) (e : DeviceEvent τ ρ) :
    deviceStep d s e ≠ .error .assertion := by
  have hinv : DeviceInv d s := exec_inv (fun _ _ _ h => h.step) (DeviceInv.new d device) hl h
  intro herror
  cases e with
  | call t rs =>
    simp only [deviceStep] at herror
    split at herror <;> cases herror
  | go t =>
    simp only [deviceStep, SynchDevice.go] at herror
    split at herror
    · cases herror
    · split_ifs at herror
      cases herror
    · cases herror
    · rename_i ht
      obtain ⟨hactive, hlegal⟩ := hinv.not_assertion ht
      rw [if_neg (by simp [hactive, hlegal])] at herror
      cases herror
    · split_ifs at herror
      cases herror
  | interrupt =>
    simp only [deviceStep] at herror
    split_ifs at herror
    cases herror

/-! ## Atomicity -/

/-- How an operation looks from outside: it is applied when the thread goes on from `Acquire`. -/
def DevicePoint.phase (d : Device δ ρ α) (device : δ) : DevicePoint ρ α →
    CallPhase (List ρ) (List α)
  | outside => .idle
  | acquire rs => .called rs
  | request rs as | p rs as => .applied (as ++ (d.run device rs).2)

/-- The device when the thread has made its requests. -/
def DevicePoint.final (d : Device δ ρ α) (device : δ) : DevicePoint ρ α → δ
  | request rs _ | p rs _ => (d.run device rs).1
  | outside | acquire _ => device

/-- The device as an atomic object. -/
def SynchDevice.atomic (d : Device δ ρ α) (s : SynchDevice τ δ ρ α) :
    AtomicObject δ τ (List ρ) (List α) where
  object := (s.lock.owner.map fun t => (s.point t).final d s.device).getD s.device
  phase t := (s.point t).phase d s.device

omit [DecidableEq τ] in
theorem DevicePoint.phase_of_not_inside {q : DevicePoint ρ α} (hq : ¬ q.Inside)
    (device device' : δ) :
    q.phase d device = q.phase d device' := by
  cases q <;> first | rfl | exact absurd trivial hq

namespace DeviceInv

omit [DecidableEq τ] in
theorem object_of_inside (h : DeviceInv d s) (ht : (s.point t).Inside) :
    (s.atomic d).object = (s.point t).final d s.device := by
  have howner : s.lock.owner = some t := h.queue.owns t ht
  simp [SynchDevice.atomic, howner]

omit [DecidableEq τ] in
theorem object_of_outside (h : DeviceInv d s) (hnone : ∀ t, ¬ (s.point t).Inside) :
    (s.atomic d).object = s.device := by
  cases howner : s.lock.owner with
  | none => simp [SynchDevice.atomic, howner]
  | some t =>
    have hcalling : (s.point t).Calling := (h.queue.owner t howner).resolve_right (hnone t)
    have hfinal : (s.point t).final d s.device = s.device := by
      cases hpoint : s.point t <;> rw [hpoint] at hcalling <;> first | rfl | exact hcalling.elim
    simp [SynchDevice.atomic, howner, hfinal]

theorem follows_call (h : DeviceInv d s) (ht : s.point t = .outside)
    (hlegal : ∀ r ∈ rs, d.legal r) :
    (s.call t rs).atomic d = (s.atomic d).call t rs := by
  have h' := h.call ht hlegal
  have hother {u : τ} (hu : u ≠ t) : (s.call t rs).point u = s.point u :=
    Function.update_of_ne hu ..
  have hself : (s.call t rs).point t = .acquire rs := Function.update_self ..
  ext u
  · show ((s.call t rs).atomic d).object = (s.atomic d).object
    by_cases hinside : ∃ u, (s.point u).Inside
    · obtain ⟨u, hu⟩ := hinside
      have hut : u ≠ t := by
        rintro rfl
        rw [ht] at hu
        exact hu
      have hu' : ((s.call t rs).point u).Inside := by rwa [hother hut]
      rw [h.object_of_inside hu, h'.object_of_inside hu', hother hut]
      rfl
    · rw [not_exists] at hinside
      rw [h.object_of_outside hinside, h'.object_of_outside]
      · rfl
      · intro u
        by_cases hut : u = t
        · rw [hut, hself]
          exact id
        · rw [hother hut]
          exact hinside u
  · show ((s.call t rs).point u).phase d s.device = Function.update (s.atomic d).phase t
      (.called rs) u
    by_cases hut : u = t
    · subst hut
      rw [hself, Function.update_self]
      rfl
    · rw [hother hut, Function.update_of_ne hut]
      rfl

theorem follows_enter (h : DeviceInv d s) (ht : s.point t = .acquire rs)
    (howner : s.lock.owner = some t) :
    (s.moveTo t (.request rs [])).atomic d = (s.atomic d).apply d.run t rs := by
  have h' := h.enter ht howner
  have hnone (u : τ) : ¬ (s.point u).Inside := by
    have hcalling : (s.point t).Calling := by rw [ht]; exact trivial
    have hempty := h.queue.empty_of_calling (t := t) hcalling howner
    exact fun hu => Set.eq_empty_iff_forall_notMem.mp hempty u hu
  have hother {u : τ} (hu : u ≠ t) : (s.moveTo t (.request rs [])).point u = s.point u :=
    Function.update_of_ne hu ..
  have hself : (s.moveTo t (.request rs [])).point t = .request rs [] := Function.update_self ..
  ext u
  · have hinside : ((s.moveTo t (.request rs [])).point t).Inside := by rw [hself]; exact trivial
    show _ = (d.run (s.atomic d).object rs).1
    rw [h'.object_of_inside hinside, h.object_of_outside hnone, hself]
    rfl
  · show ((s.moveTo t (.request rs [])).point u).phase d s.device =
      Function.update (s.atomic d).phase t (.applied (d.run (s.atomic d).object rs).2) u
    by_cases hut : u = t
    · subst hut
      rw [hself, Function.update_self, h.object_of_outside hnone]
      rfl
    · rw [hother hut, Function.update_of_ne hut]
      rfl

theorem follows_release (h : DeviceInv d s) (ht : s.point t = .request [] as) :
    (s.release t).atomic d = (s.atomic d).ret t := by
  have h' := h.release ht
  have hinside : (s.point t).Inside := by rw [ht]; exact trivial
  have hother {u : τ} (hu : u ≠ t) : (s.release t).point u = s.point u :=
    Function.update_of_ne hu ..
  have hself : (s.release t).point t = .outside := Function.update_self ..
  ext u
  · show ((s.release t).atomic d).object = (s.atomic d).object
    rw [h.object_of_inside hinside, h'.object_of_outside, ht]
    · rfl
    · intro u hu
      by_cases hut : u = t
      · rw [hut, hself] at hu
        exact hu
      · rw [hother hut] at hu
        exact hut (h.unique hu hinside)
  · show ((s.release t).point u).phase d s.device = Function.update (s.atomic d).phase t .idle u
    by_cases hut : u = t
    · subst hut
      rw [hself, Function.update_self]
      rfl
    · rw [hother hut, Function.update_of_ne hut]
      rfl

/-- A thread inside goes on, which nobody sees. -/
theorem follows_inside (h : DeviceInv d s) (h' : DeviceInv d s') (ht : (s.point t).Inside)
    (ht' : (s'.point t).Inside) (hother : ∀ u, u ≠ t → s'.point u = s.point u)
    (hfinal : (s'.point t).final d s'.device = (s.point t).final d s.device)
    (hphase : (s'.point t).phase d s'.device = (s.point t).phase d s.device) :
    s'.atomic d = s.atomic d := by
  ext u
  · rw [h.object_of_inside ht, h'.object_of_inside ht', hfinal]
  · show (s'.point u).phase d s'.device = (s.point u).phase d s.device
    by_cases hut : u = t
    · rw [hut, hphase]
    · rw [hother u hut]
      exact DevicePoint.phase_of_not_inside (fun hu => hut (h.unique hu ht)) _ _

/-- **Every step** is one that the atomic object can follow. -/
theorem follows (h : DeviceInv d s) (hok : CallLegal d s e) (hs : deviceStep d s e = .ok s') :
    AtomicObject.Follows d.run (s.atomic d) (deviceSee s e) (s'.atomic d) := by
  rcases deviceStep_cases hs with ⟨t, rs, rfl, ht, rfl⟩ | ⟨t, rs, rfl, ht, howner, rfl⟩ |
    ⟨t, as, rfl, ht, rfl⟩ | ⟨t, r, rs, as, rfl, ht, hactive, rfl⟩ |
    ⟨t, rs, as, rfl, ht, hq, hvalue, rfl⟩ | ⟨t, rs, as, rfl, ht, hq, hvalue, rfl⟩ |
    ⟨rfl, hactive, rfl⟩
  · refine .of_call ?_ (h.follows_call ht hok)
    show (s.point t).phase d s.device = .idle
    rw [ht]
    rfl
  · simp only [deviceSee, ht]
    refine .of_apply ?_ (h.follows_enter ht howner)
    show (s.point t).phase d s.device = .called rs
    rw [ht]
    rfl
  · simp only [deviceSee, ht]
    refine .of_ret ?_ (h.follows_release ht)
    show (s.point t).phase d s.device = .applied as
    rw [ht]
    simp [DevicePoint.phase]
  · simp only [deviceSee, ht]
    have hself : (s.request t d r rs as).point t = .p rs (as ++ [(d.request s.device r).2]) :=
      Function.update_self ..
    refine .of_eq (h.follows_inside (h.request ht) (t := t) ?_ ?_ ?_ ?_ ?_)
    · rw [ht]
      exact trivial
    · rw [hself]
      exact trivial
    · exact fun u hu => Function.update_of_ne hu ..
    · rw [hself, ht]
      rfl
    · rw [hself, ht]
      show CallPhase.applied _ = CallPhase.applied _
      simp [SynchDevice.request]
  · simp only [deviceSee, ht]
    exact .of_eq rfl
  · simp only [deviceSee, ht]
    have hself : (s.passed t rs as).point t = .request rs as := Function.update_self ..
    refine .of_eq (h.follows_inside (h.passed ht hvalue) (t := t) ?_ ?_ ?_ ?_ ?_)
    · rw [ht]
      exact trivial
    · rw [hself]
      exact trivial
    · exact fun u hu => Function.update_of_ne hu ..
    · rw [hself, ht]
      rfl
    · rw [hself, ht]
      rfl
  · exact .of_eq rfl

end DeviceInv

/-- **The operations are atomic**, whatever the order of the steps. -/
theorem synchDevice_follows {device : δ} {l : List (DeviceEvent τ ρ)}
    (hl : Guarded (deviceStep d) (CallLegal d) (.new device) l)
    (h : exec (deviceStep d) (.new device : SynchDevice τ δ ρ α) l = .ok s) :
    AtomicObject.Follows d.run ⟨device, fun _ => .idle⟩
      (seen (deviceStep d) deviceSee (.new device) l) (s.atomic d) :=
  follows_seen (SynchDevice.atomic d) (fun _ _ _ h => h.step) (fun _ _ _ h => h.follows)
    (DeviceInv.new d device) hl h

/-! ## Every operation returns -/

/-- The steps that the operation of a thread can still take. -/
def DevicePoint.weight (active asleep : Bool) : DevicePoint ρ α → ℕ
  | outside => 0
  | acquire rs => 4 * rs.length + 2
  | request rs _ => 4 * rs.length + 1
  | p rs _ => 4 * rs.length + 2 + if active then if asleep then 1 else 2 else 0

/-- The steps that the operation of `t` can still take. -/
def SynchDevice.weight (s : SynchDevice τ δ ρ α) (t : τ) : ℕ :=
  (s.point t).weight s.active (t ∈ s.done.queue)

/-- The steps that an event adds to a run, or takes from it. -/
def DeviceEvent.cost : DeviceEvent τ ρ → ℕ
  | call _ rs => 4 * rs.length + 2
  | go _ | interrupt => 0

/-- The event is no call. -/
def DeviceEvent.isWork : DeviceEvent τ ρ → Bool
  | call _ _ => false
  | go _ | interrupt => true

/-- The weight of a thread that is not in `P` depends on its point only. -/
theorem weight_of_not_inP {q : DevicePoint ρ α} (hq : ¬ q.InP) (b b' c c' : Bool) :
    q.weight b c = q.weight b' c' := by
  cases q <;> first | rfl | exact absurd trivial hq

/-- Only the weight of `t` changes. -/
theorem sum_weight {S : Finset τ} (ht : t ∈ S) (hother : ∀ u, u ≠ t → s'.weight u = s.weight u) :
    ∑ u ∈ S, s'.weight u + s.weight t = ∑ u ∈ S, s.weight u + s'.weight t := by
  have herase : ∑ u ∈ S.erase t, s'.weight u = ∑ u ∈ S.erase t, s.weight u :=
    Finset.sum_congr rfl fun u hu => hother u (Finset.ne_of_mem_erase hu)
  rw [← Finset.add_sum_erase S _ ht, ← Finset.add_sum_erase S s.weight ht, herase]
  omega

/-- Nobody else is in `P`. -/
theorem weight_eq (hpoint : s'.point u = s.point u) (hInP : ¬ (s.point u).InP) :
    s'.weight u = s.weight u := by
  unfold SynchDevice.weight
  rw [hpoint]
  exact weight_of_not_inP hInP ..

theorem weight_p_le (rs : List ρ) (as : List α) (b c : Bool) :
    (DevicePoint.p rs as).weight b c ≤ 4 * rs.length + 4 := by
  cases b <;> cases c <;> simp [DevicePoint.weight]

theorem weight_of_outside (ht : s.point t = .outside) : s.weight t = 0 := by
  rw [SynchDevice.weight, ht, DevicePoint.weight]

/-- A thread goes on, or its request is done. -/
theorem DeviceInv.weight_go (h : DeviceInv d s) (hs : deviceStep d s e = .ok s')
    (hwork : e.isWork = true) :
    ∃ t, s.point t ≠ .outside ∧ s'.weight t < s.weight t ∧
      ∀ u, u ≠ t → s'.point u = s.point u ∧ ¬ (s.point u).InP := by
  have hinside {t : τ} (ht : (s.point t).Inside) (u : τ) (hut : u ≠ t) : ¬ (s.point u).InP :=
    fun hu => hut (h.unique hu.inside ht)
  rcases deviceStep_cases hs with ⟨t, rs, rfl, ht, rfl⟩ | ⟨t, rs, rfl, ht, howner, rfl⟩ |
    ⟨t, as, rfl, ht, rfl⟩ | ⟨t, r, rs, as, rfl, ht, hactive, rfl⟩ |
    ⟨t, rs, as, rfl, ht, hq, hvalue, rfl⟩ | ⟨t, rs, as, rfl, ht, hq, hvalue, rfl⟩ |
    ⟨rfl, hactive, rfl⟩
  · cases hwork
  · have hcalling : (s.point t).Calling := by rw [ht]; exact trivial
    have hempty := h.queue.empty_of_calling (t := t) hcalling howner
    refine ⟨t, by simp [ht], ?_, fun u hut => ⟨Function.update_of_ne hut .., fun hu => ?_⟩⟩
    · simp [SynchDevice.weight, SynchDevice.moveTo, ht, DevicePoint.weight]
    · exact Set.eq_empty_iff_forall_notMem.mp hempty u hu.inside
  · refine ⟨t, by simp [ht], ?_, fun u hut => ⟨Function.update_of_ne hut .., hinside ?_ u hut⟩⟩
    · simp [SynchDevice.weight, SynchDevice.release, ht, DevicePoint.weight]
    · rw [ht]
      exact trivial
  · refine ⟨t, by simp [ht], ?_, fun u hut => ⟨Function.update_of_ne hut .., hinside ?_ u hut⟩⟩
    · have hle := weight_p_le rs (as ++ [(d.request s.device r).2]) true (decide (t ∈ s.done.queue))
      have hself : (s.request t d r rs as).point t = .p rs (as ++ [(d.request s.device r).2]) :=
        Function.update_self ..
      rw [SynchDevice.weight, SynchDevice.weight, hself, ht, DevicePoint.weight, List.length_cons]
      exact Nat.lt_of_le_of_lt hle (by omega)
    · rw [ht]
      exact trivial
  · have hactive : s.active = true := by
      rcases h.busy t (by rw [ht]; exact trivial) with ⟨hactive, -⟩ | ⟨-, hdone⟩
      · exact hactive
      · rw [hdone] at hvalue
        cases hvalue
    refine ⟨t, by simp [ht], ?_, fun u hut => ⟨rfl, hinside ?_ u hut⟩⟩
    · simp [SynchDevice.weight, SynchDevice.sleep, ht, DevicePoint.weight, hactive, hq]
    · rw [ht]
      exact trivial
  · have hactive : s.active = false := by
      rcases h.busy t (by rw [ht]; exact trivial) with ⟨-, hdone | hdone⟩ | ⟨hactive, -⟩
      · rw [hdone] at hvalue
        exact absurd rfl hvalue
      · rw [hdone] at hvalue
        exact absurd rfl hvalue
      · exact hactive
    refine ⟨t, by simp [ht], ?_, fun u hut => ⟨Function.update_of_ne hut .., hinside ?_ u hut⟩⟩
    · simp [SynchDevice.weight, SynchDevice.passed, ht, DevicePoint.weight, hactive]
    · rw [ht]
      exact trivial
  · -- the device works for a thread in `P`
    have hexists : ∃ t, (s.point t).InP := by
      by_contra hnone
      rw [not_exists] at hnone
      rw [(h.quiet hnone).1] at hactive
      cases hactive
    obtain ⟨t, ht⟩ := hexists
    refine ⟨t, ?_, ?_, fun u hut => ⟨rfl, hinside ht.inside u hut⟩⟩
    · intro hout
      rw [hout] at ht
      exact ht
    · cases hpoint : s.point t with
      | p rs as =>
        simp only [SynchDevice.weight, SynchDevice.interrupt, hpoint, DevicePoint.weight, hactive,
          if_true, Bool.false_eq_true, if_false]
        split_ifs <;> omega
      | outside => rw [hpoint] at ht; exact ht.elim
      | acquire rs => rw [hpoint] at ht; exact ht.elim
      | request rs as => rw [hpoint] at ht; exact ht.elim

/-- **A step** takes from the weight what it takes, a call apart. -/
theorem DeviceInv.weight_step (h : DeviceInv d s) (hs : deviceStep d s e = .ok s') {S : Finset τ}
    (hS : ∀ u ∉ S, s.point u = .outside) :
    ∃ S' : Finset τ, (∀ u ∉ S', s'.point u = .outside) ∧
      (if e.isWork then 1 else 0) + ∑ u ∈ S', s'.weight u ≤ e.cost + ∑ u ∈ S, s.weight u := by
  by_cases hwork : e.isWork = true
  · obtain ⟨t, ht, hlt, hother⟩ := h.weight_go hs hwork
    have hmem : t ∈ S := by
      by_contra hmem
      exact ht (hS t hmem)
    refine ⟨S, ?_, ?_⟩
    · intro u hu
      have hut : u ≠ t := by
        rintro rfl
        exact hu hmem
      rw [(hother u hut).1, hS u hu]
    · have hweight : ∀ u, u ≠ t → s'.weight u = s.weight u :=
        fun u hut => weight_eq (hother u hut).1 (hother u hut).2
      have hsum := sum_weight hmem hweight
      rw [if_pos hwork]
      omega
  · rcases deviceStep_cases hs with ⟨t, rs, rfl, ht, rfl⟩ | ⟨t, rs, rfl, -⟩ | ⟨t, as, rfl, -⟩ |
      ⟨t, r, rs, as, rfl, -⟩ | ⟨t, rs, as, rfl, -⟩ | ⟨t, rs, as, rfl, -⟩ | ⟨rfl, -⟩
    · have hother (u : τ) (hut : u ≠ t) : (s.call t rs).weight u = s.weight u := by
        unfold SynchDevice.weight
        rw [show (s.call t rs).point u = s.point u from Function.update_of_ne hut ..]
        rfl
      have hself : (s.call t rs).weight t = 4 * rs.length + 2 := by
        simp [SynchDevice.weight, SynchDevice.call, DevicePoint.weight]
      refine ⟨insert t S, ?_, ?_⟩
      · intro u hu
        rw [Finset.mem_insert, not_or] at hu
        rw [show (s.call t rs).point u = s.point u from Function.update_of_ne hu.1 .., hS u hu.2]
      · have hsum := sum_weight (Finset.mem_insert_self t S) hother
        rw [hself, weight_of_outside ht, Finset.sum_insert_zero (weight_of_outside ht)] at hsum
        rw [if_neg hwork]
        show 0 + _ ≤ 4 * rs.length + 2 + _
        omega
    all_goals exact absurd rfl hwork

/-- **Run lemma**: what a run works, its calls have paid for. -/
theorem work_le_cost {l : List (DeviceEvent τ ρ)} (h : DeviceInv d s)
    (hl : Guarded (deviceStep d) (CallLegal d) s l) (hs : exec (deviceStep d) s l = .ok s')
    {S : Finset τ} (hS : ∀ u ∉ S, s.point u = .outside) :
    l.countP DeviceEvent.isWork ≤ (l.map DeviceEvent.cost).sum + ∑ u ∈ S, s.weight u := by
  induction l generalizing s S with
  | nil => simp
  | cons e l ih =>
    obtain ⟨s₁, hs₁, hl'⟩ := exec_cons_eq_ok hs
    obtain ⟨S', hS', hle⟩ := h.weight_step hs₁ hS
    have hrest := ih (h.step hl.1 hs₁) (hl.2 s₁ hs₁) hl' hS'
    rw [List.countP_cons, List.map_cons, List.sum_cons]
    omega

/-- The owner of the lock can go on, or the device is at work for it. -/
theorem DeviceInv.progress_owner (h : DeviceInv d s) (howner : s.lock.owner = some t) :
    ∃ e : DeviceEvent τ ρ, e.isWork = true ∧ ∃ s', deviceStep d s e = .ok s' := by
  cases ht : s.point t with
  | outside =>
    rcases h.queue.owner t howner with hcalling | hinside
    · change (s.point t).Calling at hcalling
      rw [ht] at hcalling
      exact hcalling.elim
    · change (s.point t).Inside at hinside
      rw [ht] at hinside
      exact hinside.elim
  | acquire rs =>
    refine ⟨.go t, rfl, s.moveTo t (.request rs []), ?_⟩
    simp only [deviceStep, SynchDevice.go, ht]
    exact if_pos howner
  | request rs as =>
    cases rs with
    | nil =>
      refine ⟨.go t, rfl, s.release t, ?_⟩
      simp only [deviceStep, SynchDevice.go, ht]
    | cons r rs =>
      obtain ⟨hactive, hlegal⟩ := h.not_assertion ht
      refine ⟨.go t, rfl, s.request t d r rs as, ?_⟩
      simp only [deviceStep, SynchDevice.go, ht]
      rw [if_neg (by simp [hactive, hlegal])]
  | p rs as =>
    rcases h.busy t (by rw [ht]; exact trivial) with ⟨hactive, -⟩ | ⟨-, hdone⟩
    · refine ⟨.interrupt, rfl, s.interrupt, ?_⟩
      simp only [deviceStep]
      rw [if_pos hactive]
    · refine ⟨.go t, rfl, s.passed t rs as, ?_⟩
      simp only [deviceStep, SynchDevice.go, ht, hdone]
      simp

/-- Unless all operations have returned, the lock has an owner. -/
theorem DeviceInv.progress (h : DeviceInv d s) (hout : s.point t ≠ .outside) :
    ∃ e : DeviceEvent τ ρ, e.isWork = true ∧ ∃ s', deviceStep d s e = .ok s' := by
  obtain ⟨u, howner⟩ : ∃ u, s.lock.owner = some u := by
    cases ht : s.point t with
    | outside => exact absurd ht hout
    | acquire rs =>
      have hcalling : (s.point t).Calling := by rw [ht]; exact trivial
      rcases h.queue.called t hcalling with howner | hmem
      · exact ⟨t, howner⟩
      · refine Option.ne_none_iff_exists'.mp fun hnone => ?_
        rw [h.queue.idle hnone] at hmem
        exact List.not_mem_nil hmem
    | request rs as => exact ⟨t, h.queue.owns t (show (s.point t).Inside by rw [ht]; exact trivial)⟩
    | p rs as => exact ⟨t, h.queue.owns t (show (s.point t).Inside by rw [ht]; exact trivial)⟩
  exact h.progress_owner howner

/-- **Every operation returns**: a run takes at most `4 * n + 2` steps for each operation of `n`
    requests, and ends only when all have returned. -/
theorem synchDevice_returns {device : δ} {l : List (DeviceEvent τ ρ)}
    (hl : Guarded (deviceStep d) (CallLegal d) (.new device) l)
    (h : exec (deviceStep d) (.new device : SynchDevice τ δ ρ α) l = .ok s) :
    l.countP DeviceEvent.isWork ≤ (l.map DeviceEvent.cost).sum ∧
      ((∀ e : DeviceEvent τ ρ, e.isWork = true → ∀ s', deviceStep d s e ≠ .ok s') →
        ∀ t, s.point t = .outside) := by
  have hnew := DeviceInv.new (τ := τ) d device
  have hinv : DeviceInv d s := exec_inv (fun _ _ _ h => h.step) hnew hl h
  constructor
  · have hle := work_le_cost hnew hl h (S := ∅) fun _ _ => rfl
    simpa using hle
  · intro hstuck t
    by_contra hout
    obtain ⟨e, hwork, s', hs'⟩ := hinv.progress hout
    exact hstuck e hwork s' hs'

end

end Nachos.Threads
