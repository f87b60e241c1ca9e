import Nachos.Threads.HandOver
import Nachos.Threads.SynchDevice

/-!
# The synchronized console

`class SynchConsole` (`userprog/synchconsole.cc`) over `class Console` (`machine/console.cc`).
`WriteLine` puts one character after the other on the display, and `ReadLine` takes characters from
the keyboard up to a newline. Each has its lock and its semaphore.

* `writeLine_whole`: the lines on the display are whole, and those of a thread are in its order.
* `readLine_cuts`: the lines that are read are what was typed, cut behind the newlines.
* `readLine_waits`: a thread waits for the keyboard only when nothing is left to be read.
-/

namespace Nachos.Userprog

open Nachos.Lib Nachos.Threads

variable {τ : Type} [DecidableEq τ]

/-! ## WriteLine -/

/-- `Console::PutChar` (console.cc:158); the device is what is on the display. -/
def display : Device (List UInt8) UInt8 Unit where
  request written ch := (written ++ [ch], ())
  legal _ := true

/-- The characters of a line that are not on the display yet. -/
def unwritten (s : SynchDevice τ (List UInt8) UInt8 Unit) : List UInt8 :=
  (s.lock.owner.map fun t =>
    match s.point t with
    | .request line _ | .p line _ => line
    | .outside | .acquire _ => []).getD []

/-- The lines that a thread has passed to `WriteLine`. -/
def linesOf (t : τ) (l : List (DeviceEvent τ UInt8)) : List (List UInt8) :=
  l.filterMap fun
    | .call u line => if u = t then some line else none
    | .go _ | .interrupt => none

@[simp] theorem run_display (written line : List UInt8) :
    (display.run written line).1 = written ++ line := by
  induction line generalizing written with
  | nil => simp
  | cons ch line ih =>
    rw [Device.run, ih]
    simp [display]

omit [DecidableEq τ] in
theorem object_display (s : SynchDevice τ (List UInt8) UInt8 Unit) :
    (s.atomic display).object = s.device ++ unwritten s := by
  cases howner : s.lock.owner with
  | none => simp [SynchDevice.atomic, unwritten, howner]
  | some t => cases hpoint : s.point t <;>
      simp [SynchDevice.atomic, unwritten, howner, hpoint, DevicePoint.final]

theorem callsOf_see (t : τ) {s s' : SynchDevice τ (List UInt8) UInt8 Unit}
    {l : List (DeviceEvent τ UInt8)} (h : exec (deviceStep display) s l = .ok s') :
    callsOf t (seen (deviceStep display) deviceSee s l) = linesOf t l := by
  induction l generalizing s with
  | nil => rfl
  | cons e l ih =>
    obtain ⟨s₁, hs₁, hl⟩ := exec_cons_eq_ok h
    rw [seen_cons_ok hs₁, callsOf, List.filterMap_append]
    change callsOf t _ ++ callsOf t _ = _
    rw [ih hl]
    cases e with
    | call u line =>
      by_cases hu : u = t
      · simp [deviceSee, callsOf, linesOf, hu]
      · simp [deviceSee, callsOf, linesOf, hu]
    | go u =>
      have hnone : callsOf t (deviceSee s (.go u)) = [] := by
        simp only [deviceSee]
        split <;> rfl
      simp [hnone, linesOf]
    | interrupt => simp [deviceSee, callsOf, linesOf]

/-- **The lines are whole**: what is on the display, with the rest of the line that is being
    written, is the lines one after the other, each once and those of a thread in the order of
    its calls. When all calls have returned all lines are there. -/
theorem writeLine_whole {l : List (DeviceEvent τ UInt8)} {s : SynchDevice τ (List UInt8) UInt8 Unit}
    (h : exec (deviceStep display) (.new []) l = .ok s) :
    ∃ order : List (τ × List UInt8),
      s.device ++ unwritten s = order.flatMap Prod.snd ∧
        (∀ t, operationsOf t order <+: linesOf t l) ∧
        ((∀ t, s.point t = .outside) → unwritten s = [] ∧
          ∀ t, operationsOf t order = linesOf t l) := by
  have hlegal : Guarded (deviceStep display) (CallLegal display)
      (.new [] : SynchDevice τ (List UInt8) UInt8 Unit) l := by
    refine .of_forall ?_ _ l
    intro s e
    cases e with
    | call t line => exact fun _ _ => rfl
    | go t => trivial
    | interrupt => trivial
  obtain ⟨order, hobject, horder⟩ := (synchDevice_follows hlegal h).order
  have hinv : DeviceInv display s := exec_inv (fun _ _ _ h => h.step) (DeviceInv.new _ _) hlegal h
  have hcalls (t : τ) : operationsOf t order ++ ((s.atomic display).phase t).pending =
    linesOf t l := by
    rw [horder t, callsOf_see t h]
    rfl
  have hfold (written : List UInt8) :
      order.foldl (fun object p => (display.run object p.2).1) written =
        written ++ order.flatMap Prod.snd := by
    clear hobject horder hcalls
    induction order generalizing written with
    | nil => simp
    | cons p order ih => rw [List.foldl_cons, ih, run_display, List.flatMap_cons, List.append_assoc]
  refine ⟨order, ?_, fun t => ⟨_, hcalls t⟩, fun hout => ⟨?_, fun t => ?_⟩⟩
  · rw [← object_display, hobject, hfold, List.nil_append]
  · cases howner : s.lock.owner with
    | none => simp [unwritten, howner]
    | some t => simp [unwritten, howner, hout t]
  · have ht := hcalls t
    rwa [show (s.atomic display).phase t = (s.point t).phase display s.device from rfl, hout t,
      DevicePoint.phase, CallPhase.pending, List.append_nil] at ht

/-- Two lines, of which the second has to wait. -/
theorem writeLine_whole_two :
    ∃ s, exec (deviceStep display) (.new [] : SynchDevice Bool (List UInt8) UInt8 Unit)
        [.call false [72, 10], .go false, .call true [74], .go false, .interrupt, .go false] =
          .ok s ∧
      ∃ order : List (Bool × List UInt8), s.device ++ unwritten s = order.flatMap Prod.snd := by
  have hrun : Ends (deviceStep display) (.new [] : SynchDevice Bool (List UInt8) UInt8 Unit)
      [.call false [72, 10], .go false, .call true [74], .go false, .interrupt, .go false] fun s =>
        s.device = [72] := by
    decide +kernel
  obtain ⟨s, hs, -⟩ := hrun
  obtain ⟨order, horder, -⟩ := writeLine_whole hs
  exact ⟨s, hs, order, horder⟩

/-! ## ReadLine -/

/-- `EOF` as a character. -/
abbrev EOF : UInt8 := 255

/-- The newline. -/
abbrev newline : UInt8 := 10

/-- `incoming` of `class Console`: what is typed is read into it if it is `EOF` (console.cc:110). -/
def keyboard : BufferKind UInt8 where
  isEmpty incoming := incoming = EOF
  clear _ := EOF
  isEmpty_clear _ := rfl

/-- Where a thread is in `ReadLine`: before the test of the loop, in the `P`, or before the
    `GetChar`. -/
inductive ReadPoint
  | outside
  | acquire (size : ℤ)
  | test (size : ℤ) (line : List UInt8)
  | p (size : ℤ) (line : List UInt8)
  | getChar (size : ℤ) (line : List UInt8)

/-- The input side of the console. -/
structure ConsoleInput (τ : Type) where
  inputMutex : Lock τ
  console : HandOver τ UInt8
  point : τ → ReadPoint

/-- The constructor. -/
def ConsoleInput.new : ConsoleInput τ := ⟨.new, .new keyboard EOF, fun _ => .outside⟩

/-- What happens. -/
inductive InputEvent (τ : Type)
  | type (ch : UInt8)
  | poll
  | call (thread : τ) (size : ℤ)
  | go (thread : τ)

/-- The test of the loop (synchconsole.cc:60). -/
def readsOn (size : ℤ) (line : List UInt8) : Bool :=
  line.getLast? ≠ some newline && line.length < size

namespace ConsoleInput

variable (s : ConsoleInput τ) (t : τ)

/-- A thread goes on. -/
def moveTo (q : ReadPoint) : ConsoleInput τ := { s with point := Function.update s.point t q }

/-- The call of a thread up to its `Acquire`. -/
def call (size : ℤ) : ConsoleInput τ :=
  ⟨s.inputMutex.acquire t, s.console, Function.update s.point t (.acquire size)⟩

/-- The `Release`, and the return. -/
def release : ConsoleInput τ :=
  ⟨s.inputMutex.release t, s.console, Function.update s.point t .outside⟩

/-- A thread that does not sleep goes on in `ReadLine` (synchconsole.cc:54). -/
def go : Except DeviceFault (ConsoleInput τ) :=
  match s.point t with
  | .outside => .error .impossible
  | .acquire size =>
    if s.inputMutex.HeldBy t then .ok (s.moveTo t (.test size [])) else .error .impossible
  | .test size line =>
    if readsOn size line then .ok (s.moveTo t (.p size line))
    else .ok (s.release t)
  | .p size line =>
    if t ∈ s.console.available.queue then .error .impossible
    else if s.console.available.value = 0 then .ok { s with console := s.console.sleep t }
    else .ok { s.moveTo t (.getChar size line) with console := s.console.passed }
  | .getChar size line =>
    .ok { s.moveTo t (.test size (line ++ [s.console.buffer])) with
      console := s.console.take keyboard }

end ConsoleInput

/-- **A step.** -/
def inputStep (s : ConsoleInput τ) : InputEvent τ → Except DeviceFault (ConsoleInput τ)
  | .type ch => .ok { s with console := s.console.arrive ch }
  | .poll => .ok { s with console := s.console.poll keyboard }
  | .call t size =>
    match s.point t with
    | .outside => .ok (s.call t size)
    | _ => .error .impossible
  | .go t => s.go t

/-- The line that a step returns, with its thread and size. -/
def returned (s : ConsoleInput τ) : InputEvent τ → List (τ × ℤ × List UInt8)
  | .go t =>
    match s.point t with
    | .test size line => if readsOn size line then [] else [(t, size, line)]
    | _ => []
  | .type _ | .poll | .call _ _ => []

/-- What is typed. -/
def typed (l : List (InputEvent τ)) : List UInt8 :=
  l.filterMap fun
    | .type ch => some ch
    | .poll | .call _ _ | .go _ => none

/-- What the thread at the keyboard has read of its line. -/
def ReadPoint.line : ReadPoint → List UInt8
  | .test _ line | .p _ line | .getChar _ line => line
  | .outside | .acquire _ => []

/-- What the owner of the lock has read of its line. -/
def ConsoleInput.line (s : ConsoleInput τ) : List UInt8 :=
  (s.inputMutex.owner.map fun t => (s.point t).line).getD []

/-- `EOF` cannot be typed: it would look like an empty buffer. -/
def TypesCharacter (_ : ConsoleInput τ) : InputEvent τ → Prop
  | .type ch => ch ≠ EOF
  | .poll | .call _ _ | .go _ => True

/-- A line ends behind its first newline, or when it is as long as the buffer of the caller. -/
structure IsLine (size : ℤ) (line : List UInt8) : Prop where
  before : newline ∉ line.dropLast
  length : (line.length : ℤ) ≤ max size 0
  ends : line.getLast? = some newline ∨ size ≤ line.length

/-! The invariant. -/

/-- The thread is in its `Acquire`. -/
def ReadPoint.Calling : ReadPoint → Prop
  | .acquire _ => True
  | .outside | .test _ _ | .p _ _ | .getChar _ _ => False

/-- The thread has the lock. -/
def ReadPoint.Inside : ReadPoint → Prop
  | .test _ _ | .p _ _ | .getChar _ _ => True
  | .outside | .acquire _ => False

/-- Where the thread is at the buffer. -/
def ReadPoint.place (t : τ) : ReadPoint → HandOver.Place τ
  | .p _ _ => .p t
  | .getChar _ _ => .take
  | .outside | .acquire _ | .test _ _ => .away

/-- The line is not complete, or only just. -/
def ReadPoint.Ok : ReadPoint → Prop
  | .test size line => newline ∉ line.dropLast ∧ (line.length : ℤ) ≤ max size 0
  | .p size line | .getChar size line => newline ∉ line ∧ line.length < size
  | .outside | .acquire _ => True

/-- Where the owner of the lock is at the buffer. -/
def ConsoleInput.place (s : ConsoleInput τ) : HandOver.Place τ :=
  (s.inputMutex.owner.map fun t => (s.point t).place t).getD .away

/-- The threads at the lock, the buffer, of which `A` holds, and the lines that are being read. -/
structure InputInv (A : HandOver τ UInt8 → HandOver.Place τ → Prop) (s : ConsoleInput τ) : Prop where
  queue : LockQueue s.inputMutex {t | (s.point t).Calling} {t | (s.point t).Inside}
  console : A s.console s.place
  ok : ∀ t, (s.point t).Ok

section

variable {A : HandOver τ UInt8 → HandOver.Place τ → Prop} {s s' : ConsoleInput τ} {t u : τ}
  {e : InputEvent τ} {size : ℤ} {line : List UInt8} {q : ReadPoint}

omit [DecidableEq τ] in
theorem ReadPoint.Calling.eq_acquire {q : ReadPoint} (h : q.Calling) : ∃ size,
    q = .acquire size := by
  cases q with
  | acquire size => exact ⟨size, rfl⟩
  | outside => exact h.elim
  | test size line => exact h.elim
  | p size line => exact h.elim
  | getChar size line => exact h.elim

omit [DecidableEq τ] in
theorem InputInv.new (hA : A (.new keyboard EOF) .away) : InputInv A (.new : ConsoleInput τ) where
  queue := by
    have hempty : {t : τ | ReadPoint.outside.Calling} = ∅ := by
      ext t
      exact Iff.rfl
    show LockQueue _ {t : τ | ReadPoint.outside.Calling} _
    rw [hempty]
    exact LockQueue.new
  console := hA
  ok _ := trivial

namespace InputInv

omit [DecidableEq τ] in
theorem place_eq (h : InputInv A s) (ht : (s.point t).Inside) : s.place = (s.point t).place t :=
  h.queue.value_of_inside ht

omit [DecidableEq τ] in
theorem line_eq (h : InputInv A s) (ht : (s.point t).Inside) : s.line = (s.point t).line :=
  h.queue.value_of_inside ht

omit [DecidableEq τ] in
theorem console_at (h : InputInv A s) (ht : (s.point t).Inside) : A s.console ((s.point t).place t) :=
  h.place_eq ht ▸ h.console

/-- A thread inside goes on, and keeps the lock. -/
theorem moveTo (h : InputInv A s) (ht : (s.point t).Inside) (hq : q.Inside) (hok : q.Ok)
    {console : HandOver τ UInt8} (hconsole : A console (q.place t)) :
    InputInv A { s.moveTo t q with console := console } ∧ (s.moveTo t q).line = q.line := by
  have hcalling {q : ReadPoint} (hq : q.Inside) : ¬ q.Calling := by
    cases q <;> first | exact id | exact hq.elim
  have hqueue : LockQueue s.inputMutex {u | ((s.moveTo t q).point u).Calling}
      {u | ((s.moveTo t q).point u).Inside} := by
    unfold ConsoleInput.moveTo
    rw [setOf_update_of_iff ReadPoint.Calling q (iff_of_false (hcalling hq) (hcalling ht)),
      setOf_update_of_iff ReadPoint.Inside q (iff_of_true hq ht)]
    exact h.queue
  have hself : (s.moveTo t q).point t = q := Function.update_self ..
  have hinside : ((s.moveTo t q).point t).Inside := by rwa [hself]
  refine ⟨⟨hqueue, ?_, ?_⟩, ?_⟩
  · have hplace : (s.moveTo t q).place = ((s.moveTo t q).point t).place t :=
      hqueue.value_of_inside hinside
    rw [hself] at hplace
    exact hplace.symm ▸ hconsole
  · intro u
    by_cases hu : u = t
    · subst hu
      exact hself.symm ▸ hok
    · have hother : (s.moveTo t q).point u = s.point u := Function.update_of_ne hu ..
      exact hother.symm ▸ h.ok u
  · have hline : (s.moveTo t q).line = ((s.moveTo t q).point t).line :=
      hqueue.value_of_inside hinside
    rw [hline, hself]

theorem call (h : InputInv A s) (ht : s.point t = .outside) (size : ℤ) :
    InputInv A (s.call t size) ∧ (s.call t size).line = s.line := by
  have hself : (s.call t size).point t = .acquire size := Function.update_self ..
  have hother {u : τ} (hu : u ≠ t) : (s.call t size).point u = s.point u :=
    Function.update_of_ne hu ..
  have hinside : {u | ((s.call t size).point u).Inside} = {u | (s.point u).Inside} :=
    setOf_update_of_iff ReadPoint.Inside (.acquire size) (by rw [ht]; exact Iff.rfl)
  have hqueue : LockQueue (s.inputMutex.acquire t) {u | ((s.call t size).point u).Calling}
      {u | (s.point u).Inside} := by
    unfold ConsoleInput.call
    rw [setOf_update_of_pos ReadPoint.Calling (.acquire size) trivial]
    refine h.queue.acquire ?_ ?_
    · show ¬ (s.point t).Calling
      rw [ht]
      exact id
    · show ¬ (s.point t).Inside
      rw [ht]
      exact id
  have hsame (u : τ) (hu : (s.point u).Inside) : (s.call t size).point u = s.point u := by
    refine hother ?_
    rintro rfl
    rw [ht] at hu
    exact hu
  have hvalue {α : Type} (f : τ → ReadPoint → α) (z : α) (hz : ∀ u size, f u (.acquire size) = z) :
      ((s.inputMutex.acquire t).owner.map fun u => f u ((s.call t size).point u)).getD z =
        (s.inputMutex.owner.map fun u => f u (s.point u)).getD z := by
    refine h.queue.value_congr hqueue (fun u hu => by rw [hsame u hu]) ?_ ?_
    · intro u hu
      obtain ⟨size, hsize⟩ := ReadPoint.Calling.eq_acquire hu
      rw [hsize, hz]
    · intro u hu
      obtain ⟨size, hsize⟩ := ReadPoint.Calling.eq_acquire hu
      rw [hsize, hz]
  have hplace : (s.call t size).place = s.place := hvalue (fun u q => q.place u) _ fun _ _ => rfl
  refine ⟨⟨?_, ?_, ?_⟩, hvalue (fun _ q => q.line) [] fun _ _ => rfl⟩
  · rw [hinside]
    exact hqueue
  · rw [hplace]
    exact h.console
  · intro u
    by_cases hu : u = t
    · subst hu
      rw [hself]
      exact trivial
    · rw [hother hu]
      exact h.ok u

/-- The owner goes on from its `Acquire`. -/
theorem enter (h : InputInv A s) (ht : s.point t = .acquire size)
    (howner : s.inputMutex.owner = some t) :
    InputInv A (s.moveTo t (.test size [])) ∧ (s.moveTo t (.test size [])).line = s.line := by
  have hcalling : (s.point t).Calling := by rw [ht]; exact trivial
  have hempty : {u | (s.point u).Inside} = ∅ := h.queue.empty_of_calling (t := t) hcalling howner
  have hself : (s.moveTo t (.test size [])).point t = .test size [] := Function.update_self ..
  have hqueue : LockQueue s.inputMutex {u | ((s.moveTo t (.test size [])).point u).Calling}
      {u | ((s.moveTo t (.test size [])).point u).Inside} := by
    unfold ConsoleInput.moveTo
    rw [setOf_update_of_neg ReadPoint.Calling (.test size []) id,
      setOf_update_of_pos ReadPoint.Inside (.test size []) trivial, hempty, insert_empty_eq]
    exact h.queue.enter hcalling howner
  have hbefore {α : Type} (f : τ → ReadPoint → α) (z : α) (hz : ∀ u size, f u (.acquire size) = z) :
      (s.inputMutex.owner.map fun u => f u (s.point u)).getD z = z := by
    simp [howner, ht, hz]
  have hafter {α : Type} (f : τ → ReadPoint → α) (z : α) (hz : ∀ u size, f u (.test size []) = z) :
      (s.inputMutex.owner.map fun u => f u ((s.moveTo t (.test size [])).point u)).getD z = z := by
    simp [howner, hself, hz]
  have hplace : (s.moveTo t (.test size [])).place = s.place :=
    (hafter (fun u q => q.place u) _ fun _ _ => rfl).trans
      (hbefore (fun u q => q.place u) _ fun _ _ => rfl).symm
  refine ⟨⟨hqueue, ?_, ?_⟩, ?_⟩
  · rw [hplace]
    exact h.console
  · intro u
    by_cases hu : u = t
    · subst hu
      rw [hself]
      exact ⟨List.not_mem_nil, by simp⟩
    · rw [show (s.moveTo t (.test size [])).point u = s.point u from Function.update_of_ne hu ..]
      exact h.ok u
  · exact (hafter (fun _ q => q.line) [] fun _ _ => rfl).trans
      (hbefore (fun _ q => q.line) [] fun _ _ => rfl).symm

theorem release (h : InputInv A s) (ht : s.point t = .test size line) :
    InputInv A (s.release t) ∧ (s.release t).line = [] := by
  have hinside : (s.point t).Inside := by rw [ht]; exact trivial
  have hempty : {u | (s.point u).Inside} \ {t} = ∅ := by
    ext u
    exact ⟨fun hu => hu.2 (h.queue.unique hu.1 hinside), fun hu => hu.elim⟩
  have hinside' : {u | ((s.release t).point u).Inside} = ∅ := by
    unfold ConsoleInput.release
    rw [setOf_update_of_neg ReadPoint.Inside .outside id, hempty]
  have hqueue : LockQueue (s.inputMutex.release t) {u | ((s.release t).point u).Calling} ∅ := by
    unfold ConsoleInput.release
    rw [setOf_update_of_iff ReadPoint.Calling .outside (by rw [ht]; exact Iff.rfl)]
    exact h.queue.release hinside
  have hvalue {α : Type} (f : τ → ReadPoint → α) (z : α) (hz : ∀ u size, f u (.acquire size) = z) :
      ((s.inputMutex.release t).owner.map fun u => f u ((s.release t).point u)).getD z = z := by
    refine hqueue.value_of_empty fun u hu => ?_
    obtain ⟨size, hsize⟩ := ReadPoint.Calling.eq_acquire hu
    rw [hsize, hz]
  have hplace : (s.release t).place = .away := hvalue (fun u q => q.place u) _ fun _ _ => rfl
  refine ⟨⟨?_, ?_, ?_⟩, hvalue (fun _ q => q.line) [] fun _ _ => rfl⟩
  · rw [hinside']
    exact hqueue
  · have hconsole := h.console_at hinside
    rw [ht] at hconsole
    rw [hplace]
    exact hconsole
  · intro u
    by_cases hu : u = t
    · subst hu
      rw [show (s.release u).point u = .outside from Function.update_self ..]
      exact trivial
    · rw [show (s.release t).point u = s.point u from Function.update_of_ne hu ..]
      exact h.ok u

end InputInv

theorem readsOn_iff : readsOn size line = true ↔ line.getLast? ≠ some newline ∧
    line.length < size := by
  simp [readsOn]

/-- The loop goes on with a line that is not complete. -/
theorem ReadPoint.Ok.reads (h : (ReadPoint.test size line).Ok) (hreads : readsOn size line = true) :
    (ReadPoint.p size line).Ok := by
  obtain ⟨hlast, hlength⟩ := readsOn_iff.mp hreads
  refine ⟨fun hmem => ?_, hlength⟩
  have hne : line ≠ [] := List.ne_nil_of_mem hmem
  rw [← List.dropLast_append_getLast hne, List.mem_append, List.mem_singleton] at hmem
  rcases hmem with hmem | hmem
  · exact h.1 hmem
  · exact hlast (by rw [List.getLast?_eq_some_getLast hne, hmem])

/-- The loop ends with a line. -/
theorem ReadPoint.Ok.isLine (h : (ReadPoint.test size line).Ok)
    (hreads : readsOn size line = false) :
    IsLine size line := by
  refine ⟨h.1, h.2, ?_⟩
  by_contra hneither
  rw [not_or, not_le] at hneither
  rw [readsOn_iff.mpr hneither] at hreads
  cases hreads

theorem ReadPoint.Ok.getChar (h : (ReadPoint.getChar size line).Ok) (ch : UInt8) :
    (ReadPoint.test size (line ++ [ch])).Ok := by
  refine ⟨by simpa using h.1, ?_⟩
  have hlength : (line.length : ℤ) < size := h.2
  rw [List.length_append, List.length_singleton]
  omega

/-- **What a step does**: it keeps the invariant and returns lines, and what was typed, if no character
    looks like an empty buffer, is in the lines that are returned, in the line that is being read, or
    still to be read. -/
structure Accounted (A : HandOver τ UInt8 → HandOver.Place τ → Prop) (s s' : ConsoleInput τ)
    (e : InputEvent τ) : Prop where
  inv : InputInv A s'
  chars : s.console.Plain keyboard s.place →
    (returned s e).flatMap (·.2.2) ++ (s'.line ++ s'.console.contents keyboard) =
      s.line ++ s.console.contents keyboard ++ typed [e]
  lines : ∀ p ∈ returned s e, IsLine p.2.1 p.2.2

theorem Accounted.of_inside (h : InputInv A s) (ht : (s.point t).Inside) (hq : q.Inside) (hok : q.Ok)
    {console : HandOver τ UInt8} (hconsole : A console (q.place t)) (hreturned : returned s (.go t) = [])
    (hchars : s.console.Plain keyboard s.place →
      q.line ++ console.contents keyboard = (s.point t).line ++ s.console.contents keyboard) :
    Accounted A s { s.moveTo t q with console := console } (.go t) := by
  obtain ⟨hinv, hline⟩ := h.moveTo ht hq hok hconsole
  refine ⟨hinv, fun hplain => ?_, by simp [hreturned]⟩
  rw [hreturned, h.line_eq ht, ← hchars hplain]
  simp only [List.flatMap_nil, List.nil_append, typed, List.filterMap_nil, List.filterMap_cons_none,
    List.append_nil]
  exact congrArg (· ++ _) hline

/-- **Step lemma.** -/
theorem InputInv.step (hA : HandOver.Kept keyboard A) (h : InputInv A s)
    (htype : ∀ ch, e = .type ch → A (s.console.arrive ch) s.place) (hs : inputStep s e = .ok s') :
    Accounted A s s' e := by
  cases e with
  | type ch =>
    cases Except.ok.inj hs
    refine ⟨⟨h.queue, htype ch rfl, h.ok⟩, fun _ => ?_, by simp [returned]⟩
    show [] ++ (s.line ++ (s.console.arrive ch).contents keyboard) = _
    rw [HandOver.contents_arrive, List.nil_append, ← List.append_assoc]
    rfl
  | poll =>
    cases Except.ok.inj hs
    refine ⟨⟨h.queue, hA.poll _ _ h.console, h.ok⟩, fun hplain => ?_, by simp [returned]⟩
    show [] ++ (s.line ++ (s.console.poll keyboard).contents keyboard) = _
    rw [HandOver.contents_poll hplain.2]
    simp [typed]
  | call t size =>
    simp only [inputStep] at hs
    split at hs
    · rename_i ht
      cases Except.ok.inj hs
      obtain ⟨hinv, hline⟩ := h.call ht size
      refine ⟨hinv, fun _ => ?_, by simp [returned]⟩
      rw [hline]
      simp [returned, typed, ConsoleInput.call]
    · cases hs
  | go t =>
    simp only [inputStep, ConsoleInput.go] at hs
    split at hs
    · cases hs
    · rename_i size ht
      split_ifs at hs with howner
      cases Except.ok.inj hs
      obtain ⟨hinv, hline⟩ := h.enter ht howner
      refine ⟨hinv, fun _ => ?_, by simp [returned, ht]⟩
      rw [hline]
      simp [returned, ht, typed, ConsoleInput.moveTo]
    · rename_i size line ht
      have hinside : (s.point t).Inside := by rw [ht]; exact trivial
      have hok := h.ok t
      have hconsole := h.console_at hinside
      rw [ht] at hok hconsole
      split_ifs at hs with hreads
      · cases Except.ok.inj hs
        refine .of_inside h hinside (q := .p size line) trivial (hok.reads hreads)
          (hA.call _ t hconsole) ?_ fun _ => ?_
        · simp [returned, ht, hreads]
        · rw [ht]
          rfl
      · cases Except.ok.inj hs
        rw [Bool.not_eq_true] at hreads
        obtain ⟨hinv, hline⟩ := h.release ht
        refine ⟨hinv, fun _ => ?_, ?_⟩
        · rw [hline, h.line_eq hinside, ht]
          simp [returned, ht, hreads, typed, ConsoleInput.release, ReadPoint.line]
        · simpa [returned, ht, hreads] using hok.isLine hreads
    · rename_i size line ht
      have hinside : (s.point t).Inside := by rw [ht]; exact trivial
      have hok := h.ok t
      have hconsole := h.console_at hinside
      rw [ht] at hok hconsole
      split_ifs at hs with hqueue hvalue
      · cases Except.ok.inj hs
        have hplace := h.place_eq hinside
        rw [ht] at hplace
        refine ⟨⟨h.queue, ?_, h.ok⟩, fun _ => ?_, by simp [returned, ht]⟩
        · show A (s.console.sleep t) s.place
          rw [hplace]
          exact hA.sleep _ t hconsole hqueue hvalue
        · show _ ++ (s.line ++ (s.console.sleep t).contents keyboard) = _
          simp [returned, ht, typed]
      · cases Except.ok.inj hs
        refine .of_inside h hinside (q := .getChar size line) trivial hok
          (hA.passed _ t hconsole hvalue) (by simp [returned, ht]) fun _ => ?_
        rw [ht]
        rfl
    · rename_i size line ht
      have hinside : (s.point t).Inside := by rw [ht]; exact trivial
      have hok := h.ok t
      have hconsole := h.console_at hinside
      have hplace := h.place_eq hinside
      rw [ht] at hok hconsole hplace
      cases Except.ok.inj hs
      refine .of_inside h hinside (q := .test size (line ++ [s.console.buffer])) trivial
        (hok.getChar _) (hA.take _ hconsole) (by simp [returned, ht]) fun hplain => ?_
      have hfull : keyboard.isEmpty s.console.buffer = false := by
        rw [hplace] at hplain
        exact (HandOver.take_agrees hplain.1).1
      rw [ht, HandOver.contents_take hfull]
      simp [ReadPoint.line]

/-- The lines that a run returns. -/
def linesRead : ConsoleInput τ → List (InputEvent τ) → List (τ × ℤ × List UInt8)
  | _, [] => []
  | s, e :: l =>
    match inputStep s e with
    | .ok s' => returned s e ++ linesRead s' l
    | .error _ => []

/-- **Run lemma.** -/
theorem InputInv.run {l : List (InputEvent τ)} (h : InputInv (HandOver.Plain keyboard) s)
    (hl : Guarded inputStep TypesCharacter s l) (hs : exec inputStep s l = .ok s') :
    (linesRead s l).flatMap (·.2.2) ++ (s'.line ++ s'.console.contents keyboard) =
        s.line ++ s.console.contents keyboard ++ typed l ∧
      ∀ p ∈ linesRead s l, IsLine p.2.1 p.2.2 := by
  induction l generalizing s with
  | nil =>
    cases hs
    exact ⟨by simp [linesRead, typed], by simp [linesRead]⟩
  | cons e l ih =>
    obtain ⟨s₁, hs₁, hl'⟩ := exec_cons_eq_ok hs
    have htype : ∀ ch, e = .type ch → (s.console.arrive ch).Plain keyboard s.place := by
      rintro ch rfl
      exact h.console.arrive (decide_eq_false hl.1)
    obtain ⟨hinv, hchars, hlines⟩ := h.step HandOver.kept_plain htype hs₁
    have hchars := hchars h.console
    obtain ⟨hchars', hlines'⟩ := ih hinv (hl.2 s₁ hs₁) hl'
    have htyped : typed (e :: l) = typed [e] ++ typed l := by
      rw [typed, typed, typed, ← List.filterMap_append, List.singleton_append]
    have hread : linesRead s (e :: l) = returned s e ++ linesRead s₁ l := by
      simp only [linesRead, hs₁]
    refine ⟨?_, ?_⟩
    · rw [hread, List.flatMap_append, List.append_assoc, hchars', ← List.append_assoc, hchars,
        List.append_assoc, ← htyped]
    · intro p hp
      rw [hread, List.mem_append] at hp
      exact hp.elim (hlines p) (hlines' p)

/-- **The lines are what was typed**, cut behind the newlines: nothing is lost, read twice or
    read by two threads, in whatever order they call and the device polls. -/
theorem readLine_cuts {l : List (InputEvent τ)} {s : ConsoleInput τ}
    (hl : Guarded inputStep TypesCharacter .new l) (h : exec inputStep .new l = .ok s) :
    (linesRead .new l).flatMap (·.2.2) ++ (s.line ++ s.console.contents keyboard) = typed l ∧
      ∀ p ∈ linesRead (.new : ConsoleInput τ) l, IsLine p.2.1 p.2.2 := by
  have hnew : (HandOver.new keyboard EOF : HandOver τ UInt8).Plain keyboard .away :=
    ⟨HandOver.agrees_new EOF, fun _ h => absurd h List.not_mem_nil⟩
  obtain ⟨hchars, hlines⟩ := (InputInv.new hnew).run hl h
  exact ⟨hchars, hlines⟩

omit [DecidableEq τ] in
/-- The lock has an owner when a thread is in `ReadLine`. -/
theorem InputInv.exists_owner (h : InputInv A s) (ht : s.point t ≠ .outside) :
    ∃ u, s.inputMutex.owner = some u := by
  have hcases : (s.point t).Calling ∨ (s.point t).Inside := by
    cases hpoint : s.point t with
    | outside => exact absurd hpoint ht
    | acquire size => exact Or.inl trivial
    | test size line => exact Or.inr trivial
    | p size line => exact Or.inr trivial
    | getChar size line => exact Or.inr trivial
  rcases hcases with hcalling | hinside
  · rcases h.queue.called t hcalling with howner | hmem
    · exact ⟨t, howner⟩
    · refine Option.ne_none_iff_exists'.mp fun hnone => ?_
      rw [h.queue.idle hnone] at hmem
      exact List.not_mem_nil hmem
  · exact ⟨t, h.queue.owns t hinside⟩

/-- **No lost wake-up**, whatever is typed: when no thread can go on and the poll does nothing, no
    thread is in `ReadLine`, or nothing is left to be read. -/
theorem readLine_waits {l : List (InputEvent τ)} {s : ConsoleInput τ}
    (h : exec inputStep .new l = .ok s) (hstuck : ∀ t s', inputStep s (.go t) ≠ .ok s') (hpoll : s.console.poll keyboard = s.console) :
    (∀ t, s.point t = .outside) ∨ s.console.contents keyboard = [] := by
  have hinv : InputInv (HandOver.Backed keyboard) s := by
    refine exec_preserves (fun s e s' hinv hs => ?_) (InputInv.new (HandOver.backed_new EOF)) h
    exact (hinv.step HandOver.kept_backed (fun ch _ => hinv.console.arrive ch) hs).inv
  by_contra hneither
  rw [not_or, not_forall] at hneither
  obtain ⟨⟨t, ht⟩, hcontents⟩ := hneither
  obtain ⟨u, howner⟩ := hinv.exists_owner ht
  have hgo : ∀ s', s.go u ≠ .ok s' := hstuck u
  cases hu : s.point u with
  | outside =>
    rcases hinv.queue.owner u howner with hcalling | hinside
    · change (s.point u).Calling at hcalling
      rw [hu] at hcalling
      exact hcalling
    · change (s.point u).Inside at hinside
      rw [hu] at hinside
      exact hinside
  | acquire size =>
    refine hgo (s.moveTo u (.test size [])) ?_
    simp only [ConsoleInput.go, hu]
    exact if_pos howner
  | test size line =>
    by_cases hreads : readsOn size line = true
    · exact hgo (s.moveTo u (.p size line)) (by simp [ConsoleInput.go, hu, hreads])
    · exact hgo (s.release u) (by simp [ConsoleInput.go, hu, hreads])
  | p size line =>
    by_cases hqueue : u ∈ s.console.available.queue
    · have hbacked := hinv.console_at (t := u) (by rw [hu]; exact trivial)
      rw [hu] at hbacked
      have hempty := hbacked.isEmpty_of_mem hqueue
      exact hcontents (HandOver.contents_of_poll_eq hempty hpoll)
    · by_cases hvalue : s.console.available.value = 0
      · exact hgo { s with console := s.console.sleep u }
          (by simp [ConsoleInput.go, hu, hqueue, hvalue])
      · exact hgo { s.moveTo u (.getChar size line) with console := s.console.passed }
          (by simp [ConsoleInput.go, hu, hqueue, hvalue])
  | getChar size line =>
    exact hgo { s.moveTo u (.test size (line ++ [s.console.buffer])) with
      console := s.console.take keyboard } (by simp [ConsoleInput.go, hu])

/-- A thread that waits for the first character. -/
theorem readLine_waits_one :
    ∃ s, exec inputStep .new [.call false 5, .go false, .go false, .go false] = .ok s ∧
      ((∀ t : Bool, s.point t = .outside) ∨ s.console.contents keyboard = []) := by
  have hrun : Ends inputStep .new [.call false 5, .go false, .go false, .go false] fun s =>
      (∀ t : Bool, (inputStep s (.go t)).isOk = false) ∧ s.console.file = [] := by
    decide +kernel
  obtain ⟨s, hs, hstuck, hfile⟩ := hrun
  refine ⟨s, hs, readLine_waits hs (fun t s' hs' => ?_) (HandOver.poll_of_nil hfile)⟩
  have ht := hstuck t
  rw [hs'] at ht
  cases ht

/-- Two threads read, and the line of the first is longer than its buffer. -/
def readTwice : List (InputEvent Bool) :=
  [.type 72, .type 10, .poll, .call false 1, .call true 5, .go false, .go false, .go false,
    .go false, .poll, .go false, .go true, .go true, .go true, .go true, .go true]

theorem guarded_readTwice : Guarded inputStep TypesCharacter .new readTwice := by
  apply Guarded.of_mem
  intro e he s
  simp only [readTwice, List.mem_cons, List.not_mem_nil, or_false] at he
  rcases he with rfl | rfl | rfl | rfl | rfl | rfl | rfl | rfl | rfl | rfl | rfl | rfl | rfl | rfl |
    rfl | rfl
  · exact (by decide : (72 : UInt8) ≠ 255)
  · exact (by decide : (10 : UInt8) ≠ 255)
  all_goals trivial

theorem readLine_cuts_twice :
    ∃ s, exec inputStep .new readTwice = .ok s ∧
      (linesRead .new readTwice).flatMap (·.2.2) ++ (s.line ++ s.console.contents keyboard) =
        [72, 10] := by
  have hrun : Ends inputStep .new readTwice fun s => s.console.file = [] := by decide +kernel
  obtain ⟨s, hs, -⟩ := hrun
  exact ⟨s, hs, (readLine_cuts guarded_readTwice hs).1⟩

end

end Nachos.Userprog
