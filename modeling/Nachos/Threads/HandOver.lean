import Nachos.Threads.Kernel

/-!
# One-item buffers

What `Console::CheckCharAvail` (`machine/console.cc`) and `Network::CheckPktAvail`
(`machine/network.cc`) do with what comes in. The device polls: if its buffer is empty, it moves the
next item into the buffer, and the interrupt handler calls `V`. A thread calls `P` and takes the
item out. That the buffer is empty is seen from what is in it, and some items look like an empty
buffer.

* `HandOver.Agrees`: the value of the semaphore says whether the buffer is full, until a thread has
  returned from `P`, if no item looks like an empty buffer.
* `HandOver.Backed`: without that, nobody sleeps while the buffer is full.
* `HandOver.take_agrees`: what such a thread takes out is an item.
-/

namespace Nachos.Threads

variable {τ ι : Type}

/-- How the device knows that its buffer is empty, and how the buffer is emptied. -/
structure BufferKind (ι : Type) where
  isEmpty : ι → Bool
  clear : ι → ι
  isEmpty_clear : ∀ item, isEmpty (clear item) = true

/-- What the device can still read, its buffer, and the semaphore. -/
structure HandOver (τ ι : Type) where
  file : List ι
  buffer : ι
  available : Semaphore τ

namespace HandOver

variable (k : BufferKind ι) (s : HandOver τ ι)

/-- Nothing has come in. -/
def new (item : ι) : HandOver τ ι := ⟨[], k.clear item, ⟨0, []⟩⟩

/-- Something can be read. -/
def arrive (item : ι) : HandOver τ ι := { s with file := s.file ++ [item] }

/-- The poll, with the `V` of the handler. -/
def poll : HandOver τ ι :=
  if k.isEmpty s.buffer then
    match s.file with
    | [] => s
    | item :: file => ⟨file, item, ⟨s.available.value + 1, s.available.queue.tail⟩⟩
  else s

/-- A thread in `P` finds the value 0. -/
def sleep (t : τ) : HandOver τ ι :=
  { s with available := { s.available with queue := s.available.queue ++ [t] } }

/-- `P` returns. -/
def passed : HandOver τ ι :=
  { s with available := { s.available with value := s.available.value - 1 } }

/-- The item is taken out. -/
def take : HandOver τ ι := { s with buffer := k.clear s.buffer }

/-- What has come in and not been taken out. -/
def contents : List ι := (if k.isEmpty s.buffer then [] else [s.buffer]) ++ s.file

/-- Where the thread is that takes the next item out. -/
inductive Place (τ : Type)
  | away
  | p (thread : τ)
  | take

/-- **The invariant**: the semaphore agrees with the buffer. -/
def Agrees : Place τ → Prop
  | .away => k.isEmpty s.buffer = true ∧ s.available = ⟨0, []⟩ ∨
      k.isEmpty s.buffer = false ∧ s.available = ⟨1, []⟩
  | .p t => k.isEmpty s.buffer = true ∧ (s.available = ⟨0, []⟩ ∨ s.available = ⟨0, [t]⟩) ∨
      k.isEmpty s.buffer = false ∧ s.available = ⟨1, []⟩
  | .take => k.isEmpty s.buffer = false ∧ s.available = ⟨0, []⟩

variable {k s} {place : Place τ} {t : τ}

theorem agrees_new (item : ι) : (new k item : HandOver τ ι).Agrees k .away :=
  Or.inl ⟨k.isEmpty_clear item, rfl⟩

theorem arrive_agrees (h : s.Agrees k place) (item : ι) : (s.arrive item).Agrees k place := by
  cases place with
  | away => exact h
  | p t => exact h
  | take => exact h

/-- The device does not overwrite an item. -/
theorem poll_agrees (h : s.Agrees k place) (hitem : ∀ item ∈ s.file, k.isEmpty item = false) :
    (s.poll k).Agrees k place := by
  unfold poll
  split_ifs with hempty
  · cases hfile : s.file with
    | nil => exact h
    | cons item file =>
      have hfull := hitem item (by simp [hfile])
      cases place with
      | away =>
        rcases h with ⟨-, havailable⟩ | ⟨hbuffer, -⟩
        · exact Or.inr ⟨hfull, by simp [havailable]⟩
        · simp [hempty] at hbuffer
      | p t =>
        rcases h with ⟨-, havailable | havailable⟩ | ⟨hbuffer, -⟩
        · exact Or.inr ⟨hfull, by simp [havailable]⟩
        · exact Or.inr ⟨hfull, by simp [havailable]⟩
        · simp [hempty] at hbuffer
      | take => simp [Agrees, hempty] at h
  · exact h

variable (k s) in
/-- The invariant of items none of which looks like an empty buffer. -/
def Plain (place : Place τ) : Prop := s.Agrees k place ∧ ∀ item ∈ s.file, k.isEmpty item = false

theorem Plain.arrive (h : s.Plain k place) {item : ι} (hitem : k.isEmpty item = false) :
    (s.arrive item).Plain k place := by
  refine ⟨arrive_agrees h.1 item, fun item' hitem' => ?_⟩
  rcases List.mem_append.mp hitem' with hitem' | hitem'
  · exact h.2 item' hitem'
  · rwa [List.mem_singleton.mp hitem']

/-- A thread calls `P`. -/
theorem Agrees.call (h : s.Agrees k .away) (t : τ) : s.Agrees k (.p t) :=
  h.imp_left fun hempty => ⟨hempty.1, Or.inl hempty.2⟩

theorem sleep_agrees (h : s.Agrees k (.p t)) (hqueue : t ∉ s.available.queue)
    (hvalue : s.available.value = 0) : (s.sleep t).Agrees k (.p t) := by
  rcases h with ⟨hempty, havailable | havailable⟩ | ⟨-, havailable⟩
  · exact Or.inl ⟨hempty, Or.inr (by simp [sleep, havailable])⟩
  · simp [havailable] at hqueue
  · simp [havailable] at hvalue

theorem passed_agrees (h : s.Agrees k (.p t)) (hvalue : s.available.value ≠ 0) :
    s.passed.Agrees k .take := by
  rcases h with ⟨-, havailable | havailable⟩ | ⟨hfull, havailable⟩
  · simp [havailable] at hvalue
  · simp [havailable] at hvalue
  · exact ⟨hfull, by simp [passed, havailable]⟩

theorem take_agrees (h : s.Agrees k .take) :
    k.isEmpty s.buffer = false ∧ (s.take k).Agrees k .away :=
  ⟨h.1, Or.inl ⟨k.isEmpty_clear _, h.2⟩⟩

theorem file_poll_subset : (s.poll k).file ⊆ s.file := by
  unfold poll
  split_ifs
  · cases hfile : s.file with
    | nil => simp [hfile]
    | cons item file => simp
  · simp

/-! ## Items that look like an empty buffer -/

variable (k s) in
/-- **The invariant** of any items: a full buffer has been announced, and a thread that sleeps has
    found nothing. -/
def Backed : Place τ → Prop
  | .away => s.available.queue = [] ∧ (k.isEmpty s.buffer = false → s.available.value ≠ 0)
  | .p t => s.available.queue = [] ∧ (k.isEmpty s.buffer = false → s.available.value ≠ 0) ∨
      k.isEmpty s.buffer = true ∧ s.available = ⟨0, [t]⟩
  | .take => s.available.queue = []

theorem backed_new (item : ι) : (new k item : HandOver τ ι).Backed k .away :=
  ⟨rfl, fun hfull => absurd (k.isEmpty_clear item) (by simp [← hfull, new])⟩

theorem Backed.arrive (h : s.Backed k place) (item : ι) : (s.arrive item).Backed k place := by
  cases place with
  | away => exact h
  | p t => exact h
  | take => exact h

/-- A thread that cannot go on in `P` sleeps, and the buffer is empty. -/
theorem Backed.isEmpty_of_mem (h : s.Backed k (.p t)) (hqueue : t ∈ s.available.queue) :
    k.isEmpty s.buffer = true := by
  rcases h with ⟨hnobody, -⟩ | ⟨hempty, -⟩
  · simp [hnobody] at hqueue
  · exact hempty

variable (k) in
/-- What the device and the thread keep. -/
structure Kept (A : HandOver τ ι → Place τ → Prop) : Prop where
  poll : ∀ s place, A s place → A (s.poll k) place
  call : ∀ s t, A s .away → A s (.p t)
  sleep : ∀ s t, A s (.p t) → t ∉ s.available.queue → s.available.value = 0 → A (s.sleep t) (.p t)
  passed : ∀ s t, A s (.p t) → s.available.value ≠ 0 → A s.passed .take
  take : ∀ s, A s .take → A (s.take k) .away

theorem kept_plain : Kept k fun s : HandOver τ ι => s.Plain k where
  poll _ _ h := ⟨poll_agrees h.1 h.2, fun item hitem => h.2 item (file_poll_subset hitem)⟩
  call _ t h := ⟨h.1.call t, h.2⟩
  sleep _ _ h hqueue hvalue := ⟨sleep_agrees h.1 hqueue hvalue, h.2⟩
  passed _ _ h hvalue := ⟨passed_agrees h.1 hvalue, h.2⟩
  take _ h := ⟨(take_agrees h.1).2, h.2⟩

/-- The poll announces what it reads, whatever it is. -/
theorem poll_backed (h : s.Backed k place) : (s.poll k).Backed k place := by
  unfold poll
  split_ifs with hempty
  · cases hfile : s.file with
    | nil => exact h
    | cons item file =>
      cases place with
      | away => exact ⟨by simp [h.1], fun _ => Nat.succ_ne_zero _⟩
      | p t =>
        rcases h with ⟨hnobody, -⟩ | ⟨-, havailable⟩
        · exact Or.inl ⟨by simp [hnobody], fun _ => Nat.succ_ne_zero _⟩
        · exact Or.inl ⟨by simp [havailable], fun _ => Nat.succ_ne_zero _⟩
      | take =>
        have hnobody : s.available.queue = [] := h
        simp [Backed, hnobody]
  · exact h

theorem kept_backed : Kept k fun s : HandOver τ ι => s.Backed k where
  poll _ _ h := poll_backed h
  call _ _ h := Or.inl h
  sleep s t h hqueue hvalue := by
    rcases h with ⟨hnobody, hfull⟩ | ⟨-, havailable⟩
    · have hempty : k.isEmpty s.buffer = true := by
        rw [← Bool.not_eq_false]
        exact fun h => hfull h hvalue
      refine Or.inr ⟨hempty, ?_⟩
      rw [sleep, hnobody, List.nil_append, ← hvalue]
    · simp [havailable] at hqueue
  passed s t h hvalue := by
    rcases h with ⟨hnobody, -⟩ | ⟨-, havailable⟩
    · exact hnobody
    · simp [havailable] at hvalue
  take s h := ⟨h, fun hfull => absurd (k.isEmpty_clear s.buffer) (by simp [← hfull, take])⟩

/-! ## What has come in -/

@[simp] theorem contents_new (item : ι) : (new k item : HandOver τ ι).contents k = [] := by
  simp [contents, new, k.isEmpty_clear]

@[simp] theorem contents_arrive (item : ι) :
    (s.arrive item).contents k = s.contents k ++ [item] := by
  rw [contents, contents, arrive, List.append_assoc]

theorem contents_poll (hitem : ∀ item ∈ s.file, k.isEmpty item = false) :
    (s.poll k).contents k = s.contents k := by
  unfold poll
  split_ifs with hempty
  · cases hfile : s.file with
    | nil => rfl
    | cons item file => simp [contents, hempty, hfile, hitem item (by simp [hfile])]
  · rfl

@[simp] theorem contents_sleep (t : τ) : (s.sleep t).contents k = s.contents k := rfl

@[simp] theorem contents_passed : s.passed.contents k = s.contents k := rfl

theorem contents_take (hfull : k.isEmpty s.buffer = false) :
    s.contents k = s.buffer :: (s.take k).contents k := by
  simp [contents, take, hfull, k.isEmpty_clear]

theorem poll_of_nil (hfile : s.file = []) : s.poll k = s := by
  unfold poll
  rw [hfile]
  split_ifs <;> rfl

/-- The poll does something if it can. -/
theorem contents_of_poll_eq (hempty : k.isEmpty s.buffer = true) (hpoll : s.poll k = s) :
    s.contents k = [] := by
  cases hfile : s.file with
  | nil => simp [contents, hempty, hfile]
  | cons item file =>
    have hlength := congrArg (fun s => s.file.length) hpoll
    simp [poll, hempty, hfile] at hlength

end HandOver

end Nachos.Threads
