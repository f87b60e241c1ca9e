import Nachos.Lib.Agenda
import Nachos.Lib.Run

/-!
# Simulated interrupts

`class Interrupt` (`machine/interrupt.cc`), with the clock of `class Statistics`. Handlers are
called by `CheckIfDue`; what they do to the interrupts is `Schedule` and `YieldOnReturn`. At the
end of `OneTick` a handler's request to yield lets other threads run: their steps follow, up to the
`SetLevel` at the end of `Yield`.

* `fires_in_order`: in every run the handlers are called once and in order, and `OneTick` returns
  with nothing overdue.
-/

namespace Nachos.Machine

open Nachos.Lib

/-! ## Model -/

/-- `enum IntStatus`. -/
inductive IntStatus
  | IntOff | IntOn
  deriving DecidableEq, Repr

/-- `enum MachineStatus`. -/
inductive MachineStatus
  | IdleMode | SystemMode | UserMode
  deriving DecidableEq, Repr

/-- `enum IntType`. -/
inductive IntType
  | TimerInt | DiskInt | ConsoleWriteInt | ConsoleReadInt | NetworkSendInt | NetworkRecvInt
  deriving DecidableEq, Repr

/-- `class PendingInterrupt`, with the number of the object in place of the handler and its
    argument. -/
structure PendingInterrupt where
  number : ℕ
  when : ℤ
  type : IntType
  deriving DecidableEq

/-- stats.h:52. -/
def UserTick : ℤ := 1

/-- stats.h:53. -/
def SystemTick : ℤ := 10

/-- What stops a step. -/
inductive InterruptFault
  | assertion
  /-- The clock does not fit into an `int64_t`. -/
  | overflow
  /-- The machine has halted. -/
  | halted
  /-- The loop of a model ran out of fuel. -/
  | outOfFuel
  deriving DecidableEq

/-- `class Interrupt` and `stats`. -/
structure Interrupt where
  level : IntStatus
  pending : List PendingInterrupt
  inHandler : Bool
  yieldOnReturn : Bool
  status : MachineStatus
  totalTicks : ℤ
  idleTicks : ℤ
  systemTicks : ℤ
  userTicks : ℤ
  /-- `Halt` has been called. -/
  halted : Bool
  /-- The interrupts whose handlers have been called, with the time of the call. -/
  fired : List (PendingInterrupt × ℤ)
  /-- All arguments of `SortedInsert` in `Schedule`. -/
  scheduled : List PendingInterrupt

/-- What a handler does to the interrupts. -/
inductive HandlerCall
  | schedule (fromNow : ℤ) (type : IntType)
  | yieldOnReturn

/-- An `int64_t`. -/
def int64 (x : ℤ) : Except InterruptFault ℤ :=
  if -2 ^ 63 ≤ x ∧ x < 2 ^ 63 then .ok x else .error .overflow

namespace Interrupt

/-- The constructor (interrupt.cc:63), with a new `Statistics`. -/
def new : Interrupt where
  level := .IntOff
  pending := []
  inHandler := false
  yieldOnReturn := false
  status := .SystemMode
  totalTicks := 0
  idleTicks := 0
  systemTicks := 0
  userTicks := 0
  halted := false
  fired := []
  scheduled := []

/-- `SortedInsert` (list.cc:178) into `pending`. -/
def putBack (s : Interrupt) (toOccur : PendingInterrupt) (pending : List PendingInterrupt) :
    Interrupt :=
  { s with pending := insertByTime PendingInterrupt.when toOccur pending }

/-- `Schedule` (interrupt.cc:275). -/
def schedule (s : Interrupt) (fromNow : ℤ) (type : IntType) : Except InterruptFault Interrupt := do
  let when ← int64 (s.totalTicks + fromNow)
  let toOccur : PendingInterrupt := ⟨s.scheduled.length, when, type⟩
  if fromNow > 0 then
    return { s.putBack toOccur s.pending with scheduled := s.scheduled ++ [toOccur] }
  else .error .assertion

/-- `YieldOnReturn` (interrupt.cc:204). -/
def requestYield (s : Interrupt) : Except InterruptFault Interrupt :=
  if s.inHandler then .ok { s with yieldOnReturn := true } else .error .assertion

/-- A call of a handler. -/
def handle (s : Interrupt) : HandlerCall → Except InterruptFault Interrupt
  | .schedule fromNow type => s.schedule fromNow type
  | .yieldOnReturn => s.requestYield

/-- The end of `CheckIfDue`, with the calls that the handler makes. -/
def fire (s : Interrupt) (toOccur : PendingInterrupt) (pending : List PendingInterrupt)
    (calls : List HandlerCall) : Except InterruptFault Interrupt := do
  let s' ← calls.foldlM handle { s with
    pending := pending
    fired := s.fired ++ [(toOccur, s.totalTicks)]
    inHandler := true
    status := .SystemMode }
  return { s' with status := s.status, inHandler := false }

/-- The clock jumps to a time that is later. -/
def jump (s : Interrupt) (when : ℤ) : Interrupt :=
  if when > s.totalTicks then
    { s with idleTicks := s.idleTicks + (when - s.totalTicks), totalTicks := when }
  else s

/-- `CheckIfDue` (interrupt.cc:312). -/
def checkIfDue (s : Interrupt) (advanceClock : Bool) (calls : List HandlerCall) :
    Except InterruptFault (Bool × Interrupt) :=
  if s.level ≠ .IntOff then .error .assertion
  else
    match s.pending with
    | [] => .ok (false, s)
    | toOccur :: pending =>
      if advanceClock = false ∧ toOccur.when > s.totalTicks then
        .ok (false, s.putBack toOccur pending)
      else do
        let s := s.jump toOccur.when
        if s.status = .IdleMode ∧ toOccur.type = .TimerInt ∧ pending = [] then
          return (false, s.putBack toOccur pending)
        else
          let s ← s.fire toOccur pending calls
          return (true, s)

/-- `while (CheckIfDue(FALSE));` where the handlers make the calls of the list, one after the
    other. -/
def drain : ℕ → (ℕ → List HandlerCall) → Interrupt → Except InterruptFault Interrupt
  | 0, _, _ => .error .outOfFuel
  | fuel + 1, handlers, s => do
    let (due, s) ← s.checkIfDue false (handlers 0)
    if due then drain fuel (fun k => handlers (k + 1)) s else return s

/-- The clock of `OneTick`. -/
def advance (s : Interrupt) : Except InterruptFault Interrupt :=
  if s.status = .SystemMode then do
    let total ← int64 (s.totalTicks + SystemTick)
    return { s with totalTicks := total, systemTicks := s.systemTicks + SystemTick }
  else do
    let total ← int64 (s.totalTicks + UserTick)
    return { s with totalTicks := total, userTicks := s.userTicks + UserTick }

/-- `OneTick` (interrupt.cc:153), up to `Yield`. No handler is called for an interrupt that it
    schedules itself, so the length of the list is fuel enough. -/
def oneTick (s : Interrupt) (handlers : ℕ → List HandlerCall) : Except InterruptFault Interrupt := do
  let s ← s.advance
  let s ← drain (s.pending.length + 1) handlers { s with level := .IntOff }
  return { s with level := .IntOn, yieldOnReturn := false }

/-- `Idle` (interrupt.cc:221). -/
def idle (s : Interrupt) (handlers : ℕ → List HandlerCall) : Except InterruptFault Interrupt := do
  let (due, s) ← { s with status := .IdleMode }.checkIfDue true (handlers 0)
  if due then
    let s ← drain (s.pending.length + 1) (fun k => handlers (k + 1)) s
    return { s with yieldOnReturn := false, status := .SystemMode }
  else return { s with halted := true }

/-- `SetLevel` (interrupt.cc:118). -/
def setLevel (s : Interrupt) (now : IntStatus) (handlers : ℕ → List HandlerCall) :
    Except InterruptFault Interrupt :=
  if now = .IntOff ∨ s.inHandler = false then
    if now = .IntOn ∧ s.level = .IntOff then { s with level := now }.oneTick handlers
    else .ok { s with level := now }
  else .error .assertion

end Interrupt

/-- What happens next. -/
inductive InterruptLabel
  /-- `Machine::Run` has executed an instruction. -/
  | oneTick (handlers : ℕ → List HandlerCall)
  | setLevel (now : IntStatus) (handlers : ℕ → List HandlerCall)
  | idle (handlers : ℕ → List HandlerCall)
  | schedule (fromNow : ℤ) (type : IntType)
  /-- The kernel enters user mode, or leaves it. -/
  | setStatus (user : Bool)

/-- A step of the machine. -/
def interruptStep (s : Interrupt) (l : InterruptLabel) : Except InterruptFault Interrupt :=
  if s.halted then .error .halted
  else
    match l with
    | .oneTick handlers => s.oneTick handlers
    | .setLevel now handlers => s.setLevel now handlers
    | .idle handlers => s.idle handlers
    | .schedule fromNow type => s.schedule fromNow type
    | .setStatus user => .ok { s with status := if user then .UserMode else .SystemMode }

/-- The label makes `OneTick` run. -/
def Ticks (s : Interrupt) : InterruptLabel → Prop
  | .oneTick _ => True
  | .setLevel now _ => now = .IntOn ∧ s.level = .IntOff
  | _ => False

/-! ## The agenda -/

namespace Interrupt

/-- The interrupts as an agenda. -/
def agenda (s : Interrupt) : Agenda PendingInterrupt ℤ :=
  ⟨s.totalTicks, s.pending, s.fired, s.scheduled⟩

/-- How many pending interrupts are overdue. -/
def overdue (s : Interrupt) : ℕ := s.pending.countP fun x => x.when ≤ s.totalTicks

end Interrupt

/-- The agenda is in order, and the clock is the sum of its parts. -/
structure Good (s : Interrupt) : Prop where
  inOrder : s.agenda.InOrder PendingInterrupt.when
  numbers : s.scheduled.map PendingInterrupt.number = List.range s.scheduled.length
  clock : s.totalTicks = s.idleTicks + s.systemTicks + s.userTicks

/-- What stays when interrupts are scheduled. -/
structure Leaves (s s' : Interrupt) : Prop where
  good : Good s → Good s'
  level : s'.level = s.level
  status : s'.status = s.status
  inHandler : s'.inHandler = s.inHandler
  totalTicks : s'.totalTicks = s.totalTicks
  halted : s'.halted = s.halted
  overdue : s'.overdue = s.overdue

variable {s s' : Interrupt} {toOccur : PendingInterrupt} {pending : List PendingInterrupt}
  {calls : List HandlerCall} {handlers : ℕ → List HandlerCall} {advanceClock due : Bool}

namespace Leaves

theorem refl (s : Interrupt) : Leaves s s := ⟨id, rfl, rfl, rfl, rfl, rfl, rfl⟩

theorem trans {s'' : Interrupt} (h : Leaves s s') (h' : Leaves s' s'') : Leaves s s'' where
  good := h'.good ∘ h.good
  level := h'.level.trans h.level
  status := h'.status.trans h.status
  inHandler := h'.inHandler.trans h.inHandler
  totalTicks := h'.totalTicks.trans h.totalTicks
  halted := h'.halted.trans h.halted
  overdue := h'.overdue.trans h.overdue

end Leaves

theorem int64_eq_ok {x y : ℤ} (h : int64 x = .ok y) : y = x := by
  unfold int64 at h
  split_ifs at h
  cases h
  rfl

/-- A new interrupt is not due. -/
theorem schedule_keeps {fromNow : ℤ} {type : IntType} (h : s.schedule fromNow type = .ok s') :
    Leaves s s' := by
  unfold Interrupt.schedule at h
  obtain ⟨when, hwhen, h⟩ := bind_eq_ok.mp h
  obtain rfl := int64_eq_ok hwhen
  split_ifs at h with hpos
  cases h
  refine ⟨?_, rfl, rfl, rfl, rfl, rfl, ?_⟩
  · intro hs
    refine ⟨hs.inOrder.schedule ?_, ?_, hs.clock⟩
    · show s.totalTicks < s.totalTicks + fromNow
      omega
    · simp [hs.numbers, List.range_succ]
  · show (insertByTime PendingInterrupt.when ⟨s.scheduled.length, s.totalTicks + fromNow, type⟩
      s.pending).countP (fun x => x.when ≤ s.totalTicks) = s.overdue
    rw [(perm_insertByTime ..).countP_eq, List.countP_cons_of_neg]
    · rfl
    · simp only [decide_eq_true_eq, not_le]
      omega

theorem handle_keeps {call : HandlerCall} (h : s.handle call = .ok s') : Leaves s s' := by
  cases call with
  | schedule fromNow type => exact schedule_keeps h
  | yieldOnReturn =>
    unfold Interrupt.handle Interrupt.requestYield at h
    split_ifs at h
    cases h
    exact ⟨fun hs => ⟨hs.inOrder, hs.numbers, hs.clock⟩, rfl, rfl, rfl, rfl, rfl, rfl⟩

theorem foldlM_handle_keeps (h : calls.foldlM Interrupt.handle s = .ok s') : Leaves s s' := by
  induction calls generalizing s with
  | nil =>
    cases h
    exact .refl _
  | cons call calls ih =>
    rw [List.foldlM_cons] at h
    obtain ⟨t, hcall, h⟩ := bind_eq_ok.mp h
    exact (handle_keeps hcall).trans (ih h)

/-- The handler of an interrupt that is due is called. -/
theorem fire_eq_ok (hs : Good s) (hpending : s.pending = toOccur :: pending)
    (hdue : toOccur.when ≤ s.totalTicks) (h : s.fire toOccur pending calls = .ok s') :
    Good s' ∧ s'.level = s.level ∧ s'.status = s.status ∧ s'.halted = s.halted ∧
      s'.inHandler = false ∧ s'.totalTicks = s.totalTicks ∧ s'.overdue + 1 = s.overdue := by
  unfold Interrupt.fire at h
  obtain ⟨t, hcalls, h⟩ := bind_eq_ok.mp h
  cases h
  have hkeeps := foldlM_handle_keeps hcalls
  have hfire : Good t := hkeeps.good ⟨hs.inOrder.fire hpending hdue, hs.numbers, hs.clock⟩
  refine ⟨⟨hfire.inOrder, hfire.numbers, hfire.clock⟩, hkeeps.level, rfl, hkeeps.halted, rfl,
    hkeeps.totalTicks, ?_⟩
  have hoverdue : s.overdue = pending.countP (fun x => x.when ≤ s.totalTicks) + 1 := by
    unfold Interrupt.overdue
    rw [hpending]
    exact List.countP_cons_of_pos (by simpa using hdue)
  rw [hoverdue]
  exact congrArg (· + 1) hkeeps.overdue

/-- An interrupt is put back. -/
theorem putBack_good (hs : Good s) (hpending : s.pending = toOccur :: pending) :
    Good (s.putBack toOccur pending) := ⟨hs.inOrder.putBack hpending, hs.numbers, hs.clock⟩

/-- What a call of `CheckIfDue` without a jump of the clock does: a handler is called, or, unless the
    machine is idle, nothing is overdue. -/
theorem checkIfDue_eq_ok (hs : Good s) (hhandler : s.inHandler = false)
    (h : s.checkIfDue false calls = .ok (due, s')) :
    Good s' ∧ s'.level = s.level ∧ s'.status = s.status ∧ s'.halted = s.halted ∧
      s'.inHandler = false ∧ s'.totalTicks = s.totalTicks ∧
      (due = true → s'.overdue + 1 = s.overdue) ∧
      (due = false → s.status ≠ .IdleMode → s'.overdue = 0) := by
  unfold Interrupt.checkIfDue at h
  split_ifs at h with hlevel
  split at h
  · rename_i hnil
    cases h
    refine ⟨hs, rfl, rfl, rfl, hhandler, rfl, nofun, ?_⟩
    intro _ _
    simp [Interrupt.overdue, hnil]
  · rename_i toOccur pending hpending
    split_ifs at h with hlater
    · cases h
      refine ⟨putBack_good hs hpending, rfl, rfl, rfl, hhandler, rfl, nofun, ?_⟩
      intro _ _
      unfold Interrupt.overdue
      apply List.countP_eq_zero.mpr
      intro x hx
      have hx' : x ∈ toOccur :: pending := (perm_insertByTime ..).mem_iff.mp hx
      have hsorted := hs.inOrder.sorted
      rw [show s.agenda.pending = toOccur :: pending from hpending, List.pairwise_cons] at hsorted
      simp only [decide_eq_true_eq, not_le]
      obtain rfl | hx' := List.mem_cons.mp hx'
      · exact hlater.2
      · exact lt_of_lt_of_le hlater.2 (hsorted.1 x hx')
    · have hdue : toOccur.when ≤ s.totalTicks := by
        simpa using hlater
      have hjump : s.jump toOccur.when = s := if_neg (not_lt.mpr hdue)
      simp only [hjump] at h
      split_ifs at h with hidle
      · cases h
        refine ⟨putBack_good hs hpending, rfl, rfl, rfl, hhandler, rfl, nofun, ?_⟩
        intro _ hstatus
        exact absurd hidle.1 hstatus
      · obtain ⟨t, hfire, h⟩ := bind_eq_ok.mp h
        cases h
        obtain ⟨ht, hlevel', hstatus, hhalted, hin, htotal, hcount⟩ :=
          fire_eq_ok hs hpending hdue hfire
        exact ⟨ht, hlevel', hstatus, hhalted, hin, htotal, fun _ => hcount, nofun⟩

/-- The clock does not go back. -/
theorem jump_good (hs : Good s) (when : ℤ) : Good (s.jump when) := by
  unfold Interrupt.jump
  split_ifs with hlater
  · refine ⟨hs.inOrder.wait hlater.le, hs.numbers, ?_⟩
    have := hs.clock
    show when = s.idleTicks + (when - s.totalTicks) + s.systemTicks + s.userTicks
    omega
  · exact hs

theorem jump_fields (s : Interrupt) (when : ℤ) :
    (s.jump when).pending = s.pending ∧ (s.jump when).halted = s.halted ∧
      (s.jump when).inHandler = s.inHandler ∧ when ≤ (s.jump when).totalTicks := by
  unfold Interrupt.jump
  split_ifs with hlater
  · exact ⟨rfl, rfl, rfl, le_rfl⟩
  · exact ⟨rfl, rfl, rfl, not_lt.mp hlater⟩

/-- A call of `CheckIfDue` by `Idle`. -/
theorem checkIfDue_true_eq_ok (hs : Good s) (hhandler : s.inHandler = false)
    (h : s.checkIfDue true calls = .ok (due, s')) :
    Good s' ∧ s'.halted = s.halted ∧ s'.inHandler = false := by
  unfold Interrupt.checkIfDue at h
  split_ifs at h with hlevel
  split at h
  · cases h
    exact ⟨hs, rfl, hhandler⟩
  · rename_i toOccur pending hpending
    obtain ⟨hpending', hhalted, hin, hdue⟩ := jump_fields s toOccur.when
    rw [if_neg (by simp)] at h
    dsimp only at h
    split_ifs at h with hidle
    · cases h
      exact ⟨putBack_good (jump_good hs _) (hpending'.trans hpending), hhalted, hin.trans hhandler⟩
    · obtain ⟨t, hfire, h⟩ := bind_eq_ok.mp h
      cases h
      obtain ⟨ht, -, -, hhalted', hin', -⟩ :=
        fire_eq_ok (jump_good hs _) (hpending'.trans hpending) hdue hfire
      exact ⟨ht, hhalted'.trans hhalted, hin'⟩

/-! ## The loop -/

/-- A sequence fails where one of its parts does. -/
theorem bind_eq_error {α β : Type} {x : Except InterruptFault α} {f : α → Except InterruptFault β}
    {e : InterruptFault} (h : x >>= f = .error e) :
    x = .error e ∨ ∃ a, x = .ok a ∧ f a = .error e := by
  cases x with
  | error e' =>
    cases h
    exact .inl rfl
  | ok a => exact .inr ⟨a, rfl, h⟩

/-- A handler does not run out of fuel. -/
theorem handle_ne_outOfFuel (s : Interrupt) (call : HandlerCall) :
    s.handle call ≠ .error .outOfFuel := by
  intro h
  cases call with
  | schedule fromNow type =>
    obtain h | ⟨when, -, h⟩ := bind_eq_error h
    · unfold int64 at h
      split_ifs at h
      cases h
    · dsimp only at h
      split_ifs at h <;> cases h
  | yieldOnReturn =>
    unfold Interrupt.handle Interrupt.requestYield at h
    dsimp only at h
    split_ifs at h
    cases h

theorem foldlM_handle_ne_outOfFuel (s : Interrupt) (calls : List HandlerCall) :
    calls.foldlM Interrupt.handle s ≠ .error .outOfFuel := by
  induction calls generalizing s with
  | nil => nofun
  | cons call calls ih =>
    intro h
    rw [List.foldlM_cons] at h
    obtain h | ⟨t, -, h⟩ := bind_eq_error h
    · exact handle_ne_outOfFuel s call h
    · exact ih t h

theorem checkIfDue_ne_outOfFuel (s : Interrupt) (advanceClock : Bool) (calls : List HandlerCall) :
    s.checkIfDue advanceClock calls ≠ .error .outOfFuel := by
  intro h
  unfold Interrupt.checkIfDue at h
  split_ifs at h
  · cases h
  · split at h
    · cases h
    · rename_i toOccur pending hpending
      dsimp only at h
      split_ifs at h
      · cases h
      · obtain h | ⟨t, -, h⟩ := bind_eq_error h
        · obtain h | ⟨t, -, h⟩ := bind_eq_error h
          · exact foldlM_handle_ne_outOfFuel _ _ h
          · cases h
        · cases h

/-- **The loop ends**, with nothing overdue unless the machine is idle: every call of a handler
    leaves one overdue interrupt less. -/
theorem drain_spec (fuel : ℕ) (handlers : ℕ → List HandlerCall) (hs : Good s)
    (hhandler : s.inHandler = false) (hfuel : s.overdue < fuel) :
    Interrupt.drain fuel handlers s ≠ .error .outOfFuel ∧
      ∀ s', Interrupt.drain fuel handlers s = .ok s' → Good s' ∧ s'.status = s.status ∧
        s'.halted = s.halted ∧ s'.inHandler = false ∧ s'.totalTicks = s.totalTicks ∧
        (s.status ≠ .IdleMode → s'.overdue = 0) := by
  induction fuel generalizing s handlers with
  | zero => omega
  | succ fuel ih =>
    unfold Interrupt.drain
    cases hcheck : s.checkIfDue false (handlers 0) with
    | error e =>
      refine ⟨?_, nofun⟩
      intro h
      cases h
      exact checkIfDue_ne_outOfFuel _ _ _ hcheck
    | ok x =>
      obtain ⟨due, t⟩ := x
      obtain ⟨ht, -, hstatus, hhalted, hin, htotal, hdue, hnot⟩ :=
        checkIfDue_eq_ok hs hhandler hcheck
      cases due with
      | false =>
        refine ⟨nofun, ?_⟩
        rintro s' h
        cases h
        exact ⟨ht, hstatus, hhalted, hin, htotal, hnot rfl⟩
      | true =>
        have hless := hdue rfl
        obtain ⟨hends, hspec⟩ := ih (fun k => handlers (k + 1)) ht hin (by omega)
        refine ⟨hends, ?_⟩
        intro s' h
        obtain ⟨hs', hstatus', hhalted', hin', htotal', hzero⟩ := hspec s' h
        refine ⟨hs', hstatus'.trans hstatus, hhalted'.trans hhalted, hin', htotal'.trans htotal, ?_⟩
        rw [← hstatus]
        exact hzero

/-- The overdue interrupts are pending. -/
theorem overdue_le (s : Interrupt) : s.overdue ≤ s.pending.length := List.countP_le_length

/-! ## Steps -/

/-- Between the steps no handler runs, and the machine is not idle. -/
structure InterruptInv (s : Interrupt) : Prop where
  good : Good s
  noHandler : s.inHandler = false
  notIdle : s.halted = false → s.status ≠ .IdleMode

theorem advance_eq_ok (hs : Good s) (h : s.advance = .ok s') :
    Good s' ∧ s'.status = s.status ∧ s'.halted = s.halted ∧ s'.inHandler = s.inHandler := by
  have hclock := hs.clock
  unfold Interrupt.advance at h
  split_ifs at h
  all_goals
    obtain ⟨total, htotal, h⟩ := bind_eq_ok.mp h
    obtain rfl := int64_eq_ok htotal
    cases h
    refine ⟨⟨hs.inOrder.wait ?_, hs.numbers, ?_⟩, rfl, rfl, rfl⟩
  · show s.totalTicks ≤ s.totalTicks + 10
    omega
  · show s.totalTicks + SystemTick = s.idleTicks + (s.systemTicks + SystemTick) + s.userTicks
    omega
  · show s.totalTicks ≤ s.totalTicks + 1
    omega
  · show s.totalTicks + UserTick = s.idleTicks + s.systemTicks + (s.userTicks + UserTick)
    omega

/-- `OneTick` returns with nothing overdue, unless the machine is idle. -/
theorem oneTick_spec (hs : Good s) (hhandler : s.inHandler = false)
    (handlers : ℕ → List HandlerCall) :
    s.oneTick handlers ≠ .error .outOfFuel ∧
      ∀ s', s.oneTick handlers = .ok s' → Good s' ∧ s'.status = s.status ∧ s'.halted = s.halted ∧
        s'.inHandler = false ∧ (s.status ≠ .IdleMode → s'.overdue = 0) := by
  unfold Interrupt.oneTick
  cases hadvance : s.advance with
  | error e =>
    refine ⟨?_, nofun⟩
    intro h
    cases h
    unfold Interrupt.advance int64 at hadvance
    split_ifs at hadvance <;> cases hadvance
  | ok t =>
    obtain ⟨ht, hstatus, hhalted, hin⟩ := advance_eq_ok hs hadvance
    have hoff : Good { t with level := .IntOff } := ⟨ht.inOrder, ht.numbers, ht.clock⟩
    have hfuel := overdue_le { t with level := .IntOff }
    obtain ⟨hends, hspec⟩ := drain_spec (t.pending.length + 1) handlers hoff (hin.trans hhandler)
      (Nat.lt_succ_of_le hfuel)
    simp only [ok_bind]
    constructor
    · intro h
      obtain h | ⟨u, -, h⟩ := bind_eq_error h
      · exact hends h
      · cases h
    · intro s' h
      obtain ⟨u, hdrain, h⟩ := bind_eq_ok.mp h
      cases h
      obtain ⟨hu, hstatus', hhalted', hin', -, hzero⟩ := hspec u hdrain
      refine ⟨⟨hu.inOrder, hu.numbers, hu.clock⟩, hstatus'.trans hstatus, hhalted'.trans hhalted,
        hin', ?_⟩
      rw [← hstatus]
      exact hzero

theorem idle_spec (hs : Good s) (hhandler : s.inHandler = false)
    (handlers : ℕ → List HandlerCall) :
    s.idle handlers ≠ .error .outOfFuel ∧
      ∀ s', s.idle handlers = .ok s' → InterruptInv s' := by
  have hidle : Good { s with status := .IdleMode } := ⟨hs.inOrder, hs.numbers, hs.clock⟩
  unfold Interrupt.idle
  cases hcheck : { s with status := .IdleMode }.checkIfDue true (handlers 0) with
  | error e =>
    refine ⟨?_, nofun⟩
    intro h
    cases h
    exact checkIfDue_ne_outOfFuel _ _ _ hcheck
  | ok x =>
    obtain ⟨due, t⟩ := x
    obtain ⟨ht, hhalted, hin⟩ := checkIfDue_true_eq_ok hidle hhandler hcheck
    cases due with
    | false =>
      refine ⟨nofun, ?_⟩
      rintro s' h
      cases h
      exact ⟨⟨ht.inOrder, ht.numbers, ht.clock⟩, hin, nofun⟩
    | true =>
      obtain ⟨hends, hspec⟩ := drain_spec (t.pending.length + 1) (fun k => handlers (k + 1)) ht hin
        (Nat.lt_succ_of_le (overdue_le t))
      simp only [ok_bind, if_true]
      constructor
      · intro h
        obtain h | ⟨u, -, h⟩ := bind_eq_error h
        · exact hends h
        · cases h
      · intro s' h
        obtain ⟨u, hdrain, h⟩ := bind_eq_ok.mp h
        cases h
        obtain ⟨hu, -, -, hin', -⟩ := hspec u hdrain
        exact ⟨⟨hu.inOrder, hu.numbers, hu.clock⟩, hin', nofun⟩

/-- **Every step** keeps the agenda in order. -/
theorem interruptInv_of_step {l : InterruptLabel} (hs : InterruptInv s)
    (h : interruptStep s l = .ok s') :
    InterruptInv s' ∧ (Ticks s l → s'.overdue = 0) := by
  unfold interruptStep at h
  split_ifs at h with hhalted
  have hidle := hs.notIdle (by simpa using hhalted)
  have htick {t t' : Interrupt} {handlers : ℕ → List HandlerCall} (ht : Good t)
      (hin : t.inHandler = false) (hstatus : t.status ≠ .IdleMode)
      (h : t.oneTick handlers = .ok t') : InterruptInv t' ∧ t'.overdue = 0 := by
    obtain ⟨hgood, hstatus', -, hin', hzero⟩ := (oneTick_spec ht hin handlers).2 t' h
    exact ⟨⟨hgood, hin', fun _ => hstatus' ▸ hstatus⟩, hzero hstatus⟩
  cases l with
  | oneTick handlers =>
    obtain ⟨hinv, hzero⟩ := htick hs.good hs.noHandler hidle h
    exact ⟨hinv, fun _ => hzero⟩
  | setLevel now handlers =>
    have hlevel : Good { s with level := now } :=
      ⟨hs.good.inOrder, hs.good.numbers, hs.good.clock⟩
    unfold Interrupt.setLevel at h
    dsimp only at h
    split_ifs at h with hallowed hticks
    · obtain ⟨hinv, hzero⟩ := htick hlevel hs.noHandler hidle h
      exact ⟨hinv, fun _ => hzero⟩
    · cases h
      exact ⟨⟨hlevel, hs.noHandler, fun _ => hidle⟩, fun hl => absurd hl hticks⟩
  | idle handlers => exact ⟨(idle_spec hs.good hs.noHandler handlers).2 s' h, nofun⟩
  | schedule fromNow type =>
    have hkeeps := schedule_keeps h
    refine ⟨⟨hkeeps.good hs.good, hkeeps.inHandler.trans hs.noHandler, ?_⟩, nofun⟩
    intro _
    rw [hkeeps.status]
    exact hidle
  | setStatus user =>
    cases h
    refine ⟨⟨⟨hs.good.inOrder, hs.good.numbers, hs.good.clock⟩, hs.noHandler, ?_⟩, nofun⟩
    intro _
    cases user <;> simp

/-! ## Runs -/

/-- The handlers are called in order: every interrupt that has been scheduled is pending or has been
    called, once; calls are not early, and in the order of the due times. -/
structure FiresInOrder (s : Interrupt) : Prop where
  once : (s.fired.map Prod.fst ++ s.pending).Perm s.scheduled
  distinct : s.scheduled.Nodup
  due : ∀ x ∈ s.fired, x.1.when ≤ x.2
  inTurn : s.fired.Pairwise fun x y => x.1.when ≤ y.1.when

theorem interruptInv_of_exec {l : List InterruptLabel} (h : exec interruptStep .new l = .ok s) :
    InterruptInv s := by
  apply exec_preserves (fun _ _ _ hs hstep => (interruptInv_of_step hs hstep).1) ?_ h
  refine ⟨⟨⟨.nil, .nil, nofun, nofun, .refl _⟩, rfl, rfl⟩, rfl, ?_⟩
  exact fun _ => nofun

/-- **Simulated interrupts fire once and in order**, in every state that the machine reaches;
    `OneTick` returns from there, and leaves nothing overdue. -/
theorem fires_in_order {l : List InterruptLabel} (h : exec interruptStep .new l = .ok s) :
    FiresInOrder s ∧
      (∀ handlers, s.oneTick handlers ≠ .error .outOfFuel ∧ s.idle handlers ≠ .error .outOfFuel) ∧
      ∀ i s', Ticks s i → interruptStep s i = .ok s' → ∀ x ∈ s'.pending, s'.totalTicks < x.when := by
  have hs := interruptInv_of_exec h
  refine ⟨⟨hs.good.inOrder.once, ?_, fun x hx => (hs.good.inOrder.due x hx).1,
    hs.good.inOrder.inTurn⟩, ?_, ?_⟩
  · apply List.Nodup.of_map PendingInterrupt.number
    rw [hs.good.numbers]
    exact List.nodup_range
  · intro handlers
    exact ⟨(oneTick_spec hs.good hs.noHandler handlers).1,
      (idle_spec hs.good hs.noHandler handlers).1⟩
  · intro i s' hi hstep x hx
    have hzero := (interruptInv_of_step hs hstep).2 hi
    have := List.countP_eq_zero.mp hzero x hx
    simpa using this

/-- Two interrupts are due at the same time; the handler of the first one schedules another. -/
theorem fires_in_order_same_time :
    ∃ s, exec interruptStep .new [.schedule 10 .TimerInt, .schedule 10 .DiskInt,
        .setLevel .IntOn fun k => if k = 0 then [.schedule 5 .DiskInt] else [],
        .setLevel .IntOff fun _ => [], .idle fun _ => []] = .ok s ∧
      s.fired.length = 3 ∧ FiresInOrder s := by
  have hrun : Ends interruptStep .new [.schedule 10 .TimerInt, .schedule 10 .DiskInt,
      .setLevel .IntOn fun k => if k = 0 then [.schedule 5 .DiskInt] else [],
      .setLevel .IntOff fun _ => [], .idle fun _ => []] fun s => s.fired.length = 3 := by
    decide +kernel
  obtain ⟨s, h, hlength⟩ := hrun
  exact ⟨s, h, hlength, (fires_in_order h).1⟩

end Nachos.Machine
