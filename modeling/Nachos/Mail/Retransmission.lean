import Nachos.Mail.Resend

/-!
# Retransmission

Runs of one machine's threads on `unAckedMessages`. `Lock::Acquire` by the owner does
not count, so the first `Send` that the resending thread makes releases the lock that
the thread has taken for its whole pass.

* `list_exact`: the list holds just the messages that have been sent and not
  acknowledged, if no acknowledgement is handled while a `Send` of its message is on
  its way to the network.
* `list_not_exact`: a message that is acknowledged between the test and the `Send` is
  put back.
* `reads_safe`: the resending thread reads the list safely as long as it finds no entry
  due.
* `reads_not_safe`: after a `Send` it reads an entry that has been erased.
-/

namespace Nachos.Mail

open Nachos.Lib Nachos.Network Nachos.Threads

/-! ## The history of the list -/

/-- The keys that the history leaves in the list. -/
def remaining (history : List Happening) : List Key :=
  history.foldl (fun keys happening =>
    match happening with
    | .sent key => keys ++ [key]
    | .acked key => keys.erase key
    | .transmitted _ => keys) []

/-- The keys of the list. -/
def Machine.keys (s : Machine) : List Key := s.unAckedMessages.map (·.key)

instance (s : Machine) (key : Key) : Decidable (key ∈ s.keys) :=
  inferInstanceAs (Decidable (_ ∈ List.map _ _))

/-- **The list is exact**: it holds the messages that have been sent and not
    acknowledged, each once. A message whose acknowledgement has been handled is never put
    into the list or given to the network again. -/
structure Exact (s : Machine) : Prop where
  list : s.keys = remaining s.history
  nodup : (s.keys).Nodup
  finished : ∀ before key after, s.history = before ++ .acked key :: after → .sent key ∈ before →
    .sent key ∉ after ∧ .transmitted key ∉ after

/-- The list of keys belongs to the history. -/
structure Recorded (keys : List Key) (history : List Happening) : Prop where
  list : keys = remaining history
  nodup : keys.Nodup
  sent : ∀ key ∈ keys, .sent key ∈ history
  finished : ∀ before key after, history = before ++ .acked key :: after → .sent key ∈ before →
    key ∉ keys ∧ .sent key ∉ after ∧ .transmitted key ∉ after

theorem Recorded.init : Recorded [] [] where
  list := rfl
  nodup := List.nodup_nil
  sent := nofun
  finished _ _ _ h := by simp at h

section

variable {keys : List Key} {history : List Happening} {key : Key}

theorem remaining_append (happening : Happening) : remaining (history ++ [happening]) =
    match happening with
    | .sent key => remaining history ++ [key]
    | .acked key => (remaining history).erase key
    | .transmitted _ => remaining history := by
  rw [remaining, List.foldl_append]
  rfl

/-- The last entry of a history is an acknowledgement, or stands behind it. -/
theorem append_eq_cons {history before after : List Happening} {x y : Happening}
    (h : history ++ [x] = before ++ y :: after) :
    before = history ∧ y = x ∧ after = [] ∨
      ∃ after', after = after' ++ [x] ∧ history = before ++ y :: after' := by
  rcases List.eq_nil_or_concat after with rfl | ⟨after', last, rfl⟩
  · obtain ⟨rfl, hx⟩ := List.append_inj' h rfl
    exact Or.inl ⟨rfl, by simpa using hx.symm, rfl⟩
  · rw [List.concat_eq_append, ← List.cons_append, ← List.append_assoc] at h
    obtain ⟨hhistory, hx⟩ := List.append_inj' h rfl
    exact Or.inr ⟨after', by simpa using hx.symm, hhistory⟩

/-- A message is sent that has never been sent. -/
theorem Recorded.append_sent (h : Recorded keys history) (hnew : .sent key ∉ history) :
    Recorded (keys ++ [key]) (history ++ [.sent key]) where
  list := by rw [remaining_append, ← h.list]
  nodup := by
    rw [← List.concat_eq_append, List.nodup_concat]
    exact ⟨fun hmem => hnew (h.sent key hmem), h.nodup⟩
  sent key' hkey' := by
    rcases List.mem_append.mp hkey' with hkey' | hkey'
    · exact List.mem_append_left _ (h.sent key' hkey')
    · rw [List.mem_singleton.mp hkey']
      exact List.mem_append_right _ (List.mem_singleton_self _)
  finished before key' after heq hsent := by
    rcases append_eq_cons heq with ⟨-, hacked, -⟩ | ⟨after', rfl, hhistory⟩
    · cases hacked
    · obtain ⟨hkeys, hafter, htransmitted⟩ := h.finished before key' after' hhistory hsent
      have hne : key' ≠ key := by
        rintro rfl
        exact hnew (hhistory ▸ List.mem_append_left _ hsent)
      simp [hkeys, hafter, htransmitted, hne]

/-- An acknowledgement erases its message. -/
theorem Recorded.append_acked (h : Recorded keys history) (key : Key) :
    Recorded (keys.erase key) (history ++ [.acked key]) where
  list := by rw [remaining_append, ← h.list]
  nodup := h.nodup.erase key
  sent key' hkey' := List.mem_append_left _ (h.sent key' (List.mem_of_mem_erase hkey'))
  finished before key' after heq hsent := by
    rcases append_eq_cons heq with ⟨-, hacked, rfl⟩ | ⟨after', rfl, hhistory⟩
    · cases hacked
      exact ⟨fun hmem => (h.nodup.mem_erase_iff.mp hmem).1 rfl, nofun, nofun⟩
    · obtain ⟨hkeys, hafter, htransmitted⟩ := h.finished before key' after' hhistory hsent
      refine ⟨fun hmem => hkeys (List.mem_of_mem_erase hmem), ?_⟩
      simp [hafter, htransmitted]

/-- A message in the list goes to the network. -/
theorem Recorded.append_transmitted (h : Recorded keys history) (hmem : key ∈ keys) :
    Recorded keys (history ++ [.transmitted key]) where
  list := by rw [remaining_append, ← h.list]
  nodup := h.nodup
  sent key' hkey' := List.mem_append_left _ (h.sent key' hkey')
  finished before key' after heq hsent := by
    rcases append_eq_cons heq with ⟨-, hacked, -⟩ | ⟨after', rfl, hhistory⟩
    · cases hacked
    · obtain ⟨hkeys, hafter, htransmitted⟩ := h.finished before key' after' hhistory hsent
      have hne : key' ≠ key := by
        rintro rfl
        exact hkeys hmem
      simp [hkeys, hafter, htransmitted, hne]

end

/-! ## What keeps the list exact -/

/-- The message of a `Send` of the resending thread that has not reached the network. -/
def ResendPhase.message : ResendPhase → Option Outgoing
  | call _ _ m | send _ _ m | transmit _ _ m _ => some m
  | outside | acquire | test _ _ | print _ _ => none

/-- The message, to be acknowledged, of a `Send` that has put it into the list and not
    yet reached the network. -/
def Task.message : Task → Option Outgoing
  | transmit m _ => if m.doAck then some m else none
  | send _ | erase _ => none

/-- A `Send` of the message is on its way to the network. -/
def UnderWay (netAddr : ℤ) (s : Machine) (key : Key) : Prop :=
  (∃ m ∈ s.resend.message, m.key netAddr = key) ∨
    ∃ p ∈ s.tasks, ∃ m ∈ p.2.message, m.key netAddr = key

instance (netAddr : ℤ) (s : Machine) (key : Key) : Decidable (UnderWay netAddr s key) :=
  inferInstanceAs (Decidable ((∃ m ∈ s.resend.message, _) ∨ ∃ p ∈ s.tasks, ∃ m ∈ p.2.message, _))

/-- Messages that are to be acknowledged have headers and time stamps of their own, and
    no acknowledgement is handled while a `Send` of its message is under way. -/
def RetransmitOk (netAddr : ℤ) (s : Machine) : ResendEvent → Prop
  | .call _ (.send m) => m.doAck → m.key netAddr ∉ s.used
  | .run n _ =>
    match s.task n with
    | some (.erase key) => ¬ UnderWay netAddr s key
    | _ => True
  | _ => True

/-- A condition on the message whose acknowledgement a task handles. -/
def decidableErase {p : Key → Prop} [∀ key, Decidable (p key)] : (task : Option Task) →
    Decidable (match task with
      | some (.erase key) => p key
      | _ => True)
  | some (.erase key) => inferInstanceAs (Decidable (p key))
  | some (.send _) | some (.transmit _ _) | none => isTrue trivial

instance (netAddr : ℤ) (s : Machine) : (e : ResendEvent) → Decidable (RetransmitOk netAddr s e)
  | .call _ (.send m) => inferInstanceAs (Decidable (m.doAck → m.key netAddr ∉ s.used))
  | .call _ (.processAck _ _ _) | .call _ (.localAck _ _ _) | .resend _ => isTrue trivial
  | .run n _ => decidableErase (s.task n)

/-- The list belongs to the history, and a message whose `Send` is under way is in it. A
    message that a thread has just passed to `Send` is new. -/
structure Consistent (netAddr : ℤ) (keys : List Key) (history : List Happening) (used : List Key)
    (tasks : List (ℕ × Task)) (message : Option Outgoing) : Prop where
  recorded : Recorded keys history
  own : ∀ key ∈ keys, key.1.fromMachine = netAddr
  fresh : ∀ key, .sent key ∈ history → key ∈ used
  calling : ∀ n m, (n, .send m) ∈ tasks → m.doAck →
    m.key netAddr ∈ used ∧ .sent (m.key netAddr) ∉ history
  distinct : ∀ n n' m m', (n, .send m) ∈ tasks → (n', .send m') ∈ tasks → m.doAck → m'.doAck →
    m.key netAddr = m'.key netAddr → n = n'
  transmitting : ∀ n task, (n, task) ∈ tasks → ∀ m ∈ task.message, m.key netAddr ∈ keys
  resending : ∀ m ∈ message, m.key netAddr ∈ keys

/-- The invariant of a machine. -/
def MachineInv (netAddr : ℤ) (s : Machine) : Prop :=
  Consistent netAddr s.keys s.history s.used s.tasks s.resend.message

theorem MachineInv.init (netAddr : ℤ) : MachineInv netAddr Machine.init where
  recorded := Recorded.init
  own _ h := absurd h List.not_mem_nil
  fresh _ h := absurd h List.not_mem_nil
  calling _ _ h := absurd h List.not_mem_nil
  distinct _ _ _ _ h := absurd h List.not_mem_nil
  transmitting _ _ h := absurd h List.not_mem_nil
  resending _ h := nomatch h

theorem MachineInv.exact {netAddr : ℤ} {s : Machine} (h : MachineInv netAddr s) : Exact s where
  list := h.recorded.list
  nodup := h.recorded.nodup
  finished before key after heq hsent := (h.recorded.finished before key after heq hsent).2

/-! ## The steps -/

section

variable {netAddr : ℤ} {keys used : List Key} {history : List Happening} {tasks : List (ℕ × Task)}
  {message : Option Outgoing} {n : ℕ} {m : Outgoing}

theorem mem_moved {task : Option Task} {n' : ℕ} {task' : Task} :
    (n', task') ∈ moved tasks n task ↔
      n' = n ∧ task = some task' ∨ n' ≠ n ∧ (n', task') ∈ tasks := by
  cases task with
  | none => simp [moved, and_comm]
  | some task =>
    simp only [moved, Option.map_some, Option.toList_some, List.singleton_append,
      List.mem_cons, Prod.mk.injEq, List.mem_filter, decide_eq_true_eq, Option.some.injEq]
    tauto

/-- A thread passes a new message to `Send`. -/
theorem Consistent.call_send (h : Consistent netAddr keys history used tasks message)
    (hnew : m.doAck → m.key netAddr ∉ used) :
    Consistent netAddr keys history (if m.doAck then used ++ [m.key netAddr] else used)
      (moved tasks n (some (.send m))) message := by
  have hused {key : Key} (hkey : key ∈ used) :
      key ∈ if m.doAck then used ++ [m.key netAddr] else used := by
    split_ifs
    · exact List.mem_append_left _ hkey
    · exact hkey
  refine
    { recorded := h.recorded
      own := h.own
      fresh := fun key hkey => hused (h.fresh key hkey)
      calling := fun n' m' hm' hdoAck => ?_
      distinct := fun n₁ n₂ m₁ m₂ h₁ h₂ hdoAck₁ hdoAck₂ hkey => ?_
      transmitting := fun n' task' htask m' hm' => ?_
      resending := h.resending }
  · rcases mem_moved.mp hm' with ⟨-, heq⟩ | ⟨-, hm'⟩
    · cases heq
      refine ⟨?_, fun hsent => hnew hdoAck (h.fresh _ hsent)⟩
      simp [hdoAck]
    · obtain ⟨hmem, hsent⟩ := h.calling n' m' hm' hdoAck
      exact ⟨hused hmem, hsent⟩
  · rcases mem_moved.mp h₁ with ⟨hn₁, heq₁⟩ | ⟨-, hold₁⟩ <;>
      rcases mem_moved.mp h₂ with ⟨hn₂, heq₂⟩ | ⟨-, hold₂⟩
    · rw [hn₁, hn₂]
    · cases heq₁
      exact absurd (hkey ▸ (h.calling _ _ hold₂ hdoAck₂).1) (hnew hdoAck₁)
    · cases heq₂
      exact absurd (hkey ▸ (h.calling _ _ hold₁ hdoAck₁).1) (hnew hdoAck₂)
    · exact h.distinct _ _ _ _ hold₁ hold₂ hdoAck₁ hdoAck₂ hkey
  · rcases mem_moved.mp htask with ⟨-, htask⟩ | ⟨-, htask⟩
    · cases htask
      cases hm'
    · exact h.transmitting n' task' htask m' hm'

/-- A thread moves to where it has no message of its own. -/
theorem Consistent.moved (h : Consistent netAddr keys history used tasks message) (n : ℕ)
    (task : Option Task)
    (hsend : ∀ m, task ≠ some (.send m))
    (hmessage : ∀ task' ∈ task, ∀ m ∈ task'.message, m.key netAddr ∈ keys) :
    Consistent netAddr keys history used (moved tasks n task) message where
  recorded := h.recorded
  own := h.own
  fresh := h.fresh
  calling n' m' hm' := by
    rcases mem_moved.mp hm' with ⟨-, heq⟩ | ⟨-, hm'⟩
    · exact absurd heq (hsend m')
    · exact h.calling n' m' hm'
  distinct n₁ n₂ m₁ m₂ h₁ h₂ := by
    rcases mem_moved.mp h₁ with ⟨-, heq⟩ | ⟨-, hold₁⟩
    · exact absurd heq (hsend m₁)
    · rcases mem_moved.mp h₂ with ⟨-, heq⟩ | ⟨-, hold₂⟩
      · exact absurd heq (hsend m₂)
      · exact h.distinct n₁ n₂ m₁ m₂ hold₁ hold₂
  transmitting n' task' htask m' hm' := by
    rcases mem_moved.mp htask with ⟨-, htask⟩ | ⟨-, htask⟩
    · exact hmessage task' htask m' hm'
    · exact h.transmitting n' task' htask m' hm'
  resending := h.resending

/-- **A new message** passes through `Send` and is put into the list. -/
theorem Consistent.sent (h : Consistent netAddr keys history used tasks message) (text : Text)
    (htask : (n, .send m) ∈ tasks) (hdoAck : m.doAck) :
    Consistent netAddr (keys ++ [m.key netAddr]) (history ++ [.sent (m.key netAddr)]) used
      (Mail.moved tasks n (some (.transmit m text))) message := by
  obtain ⟨hmem, hnew⟩ := h.calling n m htask hdoAck
  refine
    { recorded := h.recorded.append_sent hnew
      own := fun key hkey => ?_
      fresh := fun key hkey => ?_
      calling := fun n' m' hm' hdoAck' => ?_
      distinct := fun n₁ n₂ m₁ m₂ h₁ h₂ hdoAck₁ hdoAck₂ hkey => ?_
      transmitting := fun n' task' htask' m' hm' => ?_
      resending := fun m' hm' => List.mem_append_left _ (h.resending m' hm') }
  · rcases List.mem_append.mp hkey with hkey | hkey
    · exact h.own key hkey
    · rw [List.mem_singleton.mp hkey]
      rfl
  · rcases List.mem_append.mp hkey with hkey | hkey
    · exact h.fresh key hkey
    · cases List.mem_singleton.mp hkey
      exact hmem
  · rcases mem_moved.mp hm' with ⟨-, heq⟩ | ⟨hn', hm'⟩
    · cases heq
    · obtain ⟨hmem', hnew'⟩ := h.calling n' m' hm' hdoAck'
      refine ⟨hmem', fun hsent => ?_⟩
      rcases List.mem_append.mp hsent with hsent | hsent
      · exact hnew' hsent
      · rw [List.mem_singleton, Happening.sent.injEq] at hsent
        exact hn' (h.distinct n' n m' m hm' htask hdoAck' hdoAck hsent)
  · rcases mem_moved.mp h₁ with ⟨-, heq₁⟩ | ⟨-, hold₁⟩
    · cases heq₁
    · rcases mem_moved.mp h₂ with ⟨-, heq₂⟩ | ⟨-, hold₂⟩
      · cases heq₂
      · exact h.distinct _ _ _ _ hold₁ hold₂ hdoAck₁ hdoAck₂ hkey
  · rw [List.mem_append, List.mem_singleton]
    rcases mem_moved.mp htask' with ⟨-, heq⟩ | ⟨-, htask'⟩
    · cases heq
      rw [Task.message, if_pos hdoAck] at hm'
      cases hm'
      exact Or.inr rfl
    · exact Or.inl (h.transmitting n' task' htask' m' hm')

/-- **An acknowledgement** whose message is not under way is handled. -/
theorem Consistent.acked (h : Consistent netAddr keys history used tasks message) {key : Key}
    (hmessage : ∀ m ∈ message, m.key netAddr ≠ key)
    (htasks : ∀ p ∈ tasks, ∀ m ∈ p.2.message, m.key netAddr ≠ key) :
    Consistent netAddr (keys.erase key) (history ++ [.acked key]) used tasks message where
  recorded := h.recorded.append_acked key
  own key' hkey' := h.own key' (List.mem_of_mem_erase hkey')
  fresh key' hkey' := h.fresh key' (by simpa using hkey')
  calling n m hm hdoAck := by simpa using h.calling n m hm hdoAck
  distinct := h.distinct
  transmitting n task htask m hm :=
    (List.mem_erase_of_ne (htasks (n, task) htask m hm)).mpr (h.transmitting n task htask m hm)
  resending m hm := (List.mem_erase_of_ne (hmessage m hm)).mpr (h.resending m hm)

/-- A message in the list goes to the network. -/
theorem Consistent.transmitted (h : Consistent netAddr keys history used tasks message) {key : Key}
    (hkey : key ∈ keys) :
    Consistent netAddr keys (history ++ [.transmitted key]) used tasks message where
  recorded := h.recorded.append_transmitted hkey
  own := h.own
  fresh key' hkey' := h.fresh key' (by simpa using hkey')
  calling n m hm hdoAck := by simpa using h.calling n m hm hdoAck
  distinct := h.distinct
  transmitting := h.transmitting
  resending := h.resending

/-- The resending thread takes up a message of the list, or leaves the one it has. -/
theorem Consistent.resend (h : Consistent netAddr keys history used tasks message)
    {message' : Option Outgoing} (hmessage : ∀ m ∈ message', m.key netAddr ∈ keys) :
    Consistent netAddr keys history used tasks message' :=
  { h with resending := hmessage }

end

section

variable {netAddr : ℤ} {s s' : Machine} {n : ℕ} {t : KernelThread} {m : Outgoing} {now : Timeval}
  {text : Text}

theorem mem_of_task {task : Task} (h : s.task n = some task) : (n, task) ∈ s.tasks := by
  obtain ⟨l, l', heq, -⟩ := List.lookup_eq_some_iff.mp h
  rw [heq]
  exact List.mem_append_right _ List.mem_cons_self

theorem note_eq {doAck : Bool} {happening : Happening} : s.note doAck happening =
    { s with history := s.history ++ if doAck then [happening] else [] } := by
  rw [Machine.note]
  split_ifs <;> simp

theorem map_modify_of_eq {α β : Type} {f : α → β} {g : α → α} (h : ∀ a, f (g a) = f a) {l : List α}
    {i : ℕ} : (l.modify i g).map f = l.map f := by
  induction l generalizing i with
  | nil => simp
  | cons a l ih => cases i <;> simp [h, ih]

/-- **What `Send` does to the list**: a message that is to be acknowledged is put at its
    end, unless it is there. -/
theorem sendLocked_eq_ok (h : sendLocked netAddr s t m now = .ok (s', text)) :
    ∃ unAckedMessages sendCounters, s' = { s with unAckedMessages, sendCounters } ∧
      unAckedMessages.map (·.key) = s.keys ++
        if m.doAck ∧ m.key netAddr ∉ s.keys then [m.key netAddr] else [] := by
  rw [sendLocked] at h
  split at h
  · next i hfound =>
    split_ifs at h
    cases h
    obtain ⟨hi, hkey, -⟩ := List.findIdx?_eq_some_iff_getElem.mp hfound
    have hmem : m.key netAddr ∈ s.keys :=
      List.mem_map.mpr ⟨_, List.getElem_mem hi, of_decide_eq_true hkey⟩
    refine ⟨_, _, rfl, ?_⟩
    rw [if_neg (fun hnot => hnot.2 hmem), List.append_nil]
    apply map_modify_of_eq
    intro u
    rfl
  · next hfound =>
    simp only at h
    split_ifs at h
    cases h
    have hnot : m.key netAddr ∉ s.keys := by
      rw [Machine.keys, List.mem_map]
      rintro ⟨u, hu, hkey⟩
      simpa [hkey] using List.findIdx?_eq_none_iff.mp hfound u hu
    rw [Machine.append]
    by_cases hdoAck : m.doAck
    · rw [if_pos hdoAck, if_pos ⟨hdoAck, hnot⟩]
      exact ⟨_, _, rfl, List.map_append⟩
    · rw [if_neg hdoAck, if_neg (fun h => hdoAck h.1)]
      exact ⟨_, _, rfl, (List.append_nil _).symm⟩

theorem keys_eraseLocked {key : Key} : (eraseLocked s key).keys = s.keys.erase key := by
  have herase (l : List UnAckedMessage) :
      (l.eraseP (·.key = key)).map (·.key) = (l.map (·.key)).erase key := by
    induction l with
    | nil => rfl
    | cons u l ih => by_cases hu : u.key = key <;> simp [hu, ih]
  exact herase s.unAckedMessages

theorem call_inv (h : MachineInv netAddr s) {c : Call} (hok : RetransmitOk netAddr s (.call n c))
    (hs' : call netAddr s n c = .ok s') : MachineInv netAddr s' := by
  unfold call at hs'
  cases htask : s.task n with
  | some task =>
    simp only [htask] at hs'
    cases hs'
    exact h
  | none =>
    cases c with
    | send m =>
      simp only [htask] at hs'
      by_cases hlegal : m.Legal
      · rw [if_pos hlegal] at hs'
        cases hs'
        exact Consistent.call_send h hok
      · rw [if_neg hlegal] at hs'
        cases hs'
    | processAck | localAck =>
      simp only [htask] at hs'
      cases hs'
      exact Consistent.moved h n _ (by simp [Call.task]) (by simp [Call.task, Task.message])

/-- A step of a thread that is not the resending one. -/
theorem run_inv (h : MachineInv netAddr s) (hok : RetransmitOk netAddr s (.run n now))
    (hs' : run netAddr s n now = .ok s') : MachineInv netAddr s' := by
  unfold run at hs'
  cases htask : s.task n with
  | none =>
    rw [htask] at hs'
    cases hs'
    exact h
  | some task =>
    have hmem := mem_of_task htask
    simp only [htask, RetransmitOk] at hs' hok
    cases task with
    | send m =>
      simp only at hs'
      split_ifs at hs' with hheld
      · obtain ⟨⟨s'', text⟩, hsend, hs'⟩ := bind_eq_ok.mp hs'
        obtain ⟨unAckedMessages, sendCounters, rfl, hkeys⟩ := sendLocked_eq_ok hsend
        cases hs'
        by_cases hdoAck : m.doAck
        · have hnot : m.key netAddr ∉ s.keys := fun hin =>
            (h.calling n m hmem hdoAck).2 (h.recorded.sent _ hin)
          rw [if_pos ⟨hdoAck, hnot⟩] at hkeys
          rw [MachineInv, Machine.note, if_pos hdoAck]
          have hsent := Consistent.sent h text hmem hdoAck
          rw [← hkeys] at hsent
          exact hsent
        · rw [if_neg (fun hboth => hdoAck hboth.1), List.append_nil] at hkeys
          rw [MachineInv, Machine.note, if_neg hdoAck]
          have hmoved := Consistent.moved h n (some (.transmit m text)) (by simp)
            (by simp [Task.message, hdoAck])
          rw [← hkeys] at hmoved
          exact hmoved
      · cases hs'
        exact h
    | erase key =>
      simp only at hs'
      split_ifs at hs' with hheld
      · cases hs'
        have hacked := Consistent.acked h (fun m hm hkey => hok (Or.inl ⟨m, hm, hkey⟩))
          (fun p hp m hm hkey => hok (Or.inr ⟨p, hp, m, hm, hkey⟩))
        rw [← keys_eraseLocked] at hacked
        exact Consistent.moved hacked n none (by simp) (by simp)
      · cases hs'
        exact h
    | transmit m text =>
      cases hs'
      have hmoved {history : List Happening}
          (hinv : Consistent netAddr s.keys history s.used s.tasks s.resend.message) :=
        Consistent.moved hinv n none (by simp) (by simp)
      rw [MachineInv, Machine.note]
      split_ifs with hdoAck
      · exact hmoved (Consistent.transmitted h (h.transmitting n _ hmem m (by simp [Task.message, hdoAck])))
      · exact hmoved h

/-- A step of the resending thread. -/
theorem resendStep_inv (h : MachineInv netAddr s) (hs' : resendStep netAddr s now = .ok s') :
    MachineInv netAddr s' := by
  unfold resendStep at hs'
  split at hs'
  · cases hs'
    exact Consistent.resend h nofun
  · split_ifs at hs' <;> cases hs'
    · exact Consistent.resend h nofun
    · exact h
  · next i currentTime hphase =>
    split at hs'
    · cases hs'
      exact Consistent.resend h nofun
    · next u hu =>
      have hmem : u.key ∈ s.keys := List.mem_map_of_mem (List.mem_of_getElem? hu)
      split_ifs at hs' <;> cases hs'
      · refine Consistent.resend h fun m hm => ?_
        cases hm
        have hown : u.pktHdr.fromMachine = netAddr := h.own _ hmem
        rwa [Outgoing.key, UnAckedMessage.again, ← hown]
      · exact Consistent.resend h nofun
  · next i currentTime m hphase =>
    cases hs'
    exact Consistent.resend h fun m' hm' => h.resending m' (by rwa [hphase])
  · next i currentTime m hphase =>
    have hmem : m.key netAddr ∈ s.keys := h.resending m (by rw [hphase]; rfl)
    split_ifs at hs' with hheld
    · obtain ⟨⟨s'', text⟩, hsend, hs'⟩ := bind_eq_ok.mp hs'
      obtain ⟨unAckedMessages, sendCounters, rfl, hkeys⟩ := sendLocked_eq_ok hsend
      cases hs'
      rw [if_neg (fun hboth => hboth.2 hmem), List.append_nil] at hkeys
      have hresend := Consistent.resend h
        (show ∀ m' ∈ some m, m'.key netAddr ∈ s.keys by simpa using hmem)
      rw [← hkeys] at hresend
      have hnot : ¬ (m.doAck ∧ m.key netAddr ∉ s.keys) := fun hboth => hboth.2 hmem
      simp only [Machine.keys] at hnot
      simp only [Machine.note, hnot, decide_false]
      exact hresend
    · cases hs'
      exact h
  · next i currentTime m text hphase =>
    have hmem : m.key netAddr ∈ s.keys := h.resending m (by rw [hphase]; rfl)
    cases hs'
    rw [MachineInv, Machine.note]
    split_ifs
    · exact Consistent.resend (Consistent.transmitted h hmem) nofun
    · exact Consistent.resend h nofun
  · cases hs'
    exact Consistent.resend h nofun

/-- **Step lemma.** -/
theorem machineStep_inv {e : ResendEvent} (h : MachineInv netAddr s) (hok : RetransmitOk netAddr s e)
    (hs' : machineStep netAddr s e = .ok s') : MachineInv netAddr s' := by
  cases e with
  | call n c => exact call_inv h hok hs'
  | run n now => exact run_inv h hok hs'
  | resend now => exact resendStep_inv h hs'

end

/-- **The list is exact** in every run in which no acknowledgement is handled while a
    `Send` of its message is under way. -/
theorem list_exact {netAddr : ℤ} {events : List ResendEvent} {s : Machine}
    (hok : Guarded (machineStep netAddr) (RetransmitOk netAddr) Machine.init events)
    (hrun : exec (machineStep netAddr) Machine.init events = .ok s) : Exact s :=
  (exec_inv (fun _ _ _ => machineStep_inv) (MachineInv.init netAddr) hok hrun).exact

/-! ### Two runs -/

/-- A message of the machine 0 that is to be acknowledged. -/
def message (sec : ℤ) : Outgoing := ⟨1, ⟨0, 1⟩, ⟨sec, 0⟩, "0_a".toList, true⟩

/-- The thread `n` sends a message: it takes the lock, puts the message into the list and
    gives it to the network. -/
def sendEvents (n : ℕ) (sec : ℤ) : List ResendEvent :=
  [.call n (.send (message sec)), .run n ⟨sec, 0⟩, .run n ⟨sec, 0⟩]

/-- The acknowledgement of a message has arrived, and a thread calls `processAck`. -/
def ackCall (n : ℕ) (sec : ℤ) : ResendEvent := .call n (.processAck ⟨0, 1⟩ ⟨1, 0⟩ ⟨sec, 0⟩)

/-- A pass of the resending thread at a time, with `k` context switches. -/
def passEvents (k : ℕ) (sec : ℤ) : List ResendEvent := List.replicate k (.resend ⟨sec, 0⟩)

/-- Two messages are sent, and again after three seconds; then one is acknowledged. -/
theorem list_exact_resent : ∃ s, exec (machineStep 0) Machine.init
    (sendEvents 0 10 ++ sendEvents 0 11 ++ passEvents 12 14 ++ [ackCall 1 10, .run 1 ⟨15, 0⟩]) =
      .ok s ∧ s.unAckedMessages.length = 1 ∧ Exact s := by
  obtain ⟨s, hrun, hs⟩ : Ends (machineStep 0) Machine.init
      (sendEvents 0 10 ++ sendEvents 0 11 ++ passEvents 12 14 ++ [ackCall 1 10, .run 1 ⟨15, 0⟩])
      fun s => s.unAckedMessages.length = 1 := by decide +kernel
  exact ⟨s, hrun, hs, list_exact (by decide +kernel) hrun⟩

/-- **A message comes back**: the resending thread has released the lock in the `Send` of
    the first message, and another thread takes it for the acknowledgement of the second.
    The acknowledgement is handled between the test of the second message and its `Send`,
    and the message is put back. -/
theorem list_not_exact : ∃ s, exec (machineStep 0) Machine.init
    (sendEvents 0 10 ++ sendEvents 0 11 ++ passEvents 5 14 ++ [ackCall 1 11] ++ passEvents 4 14 ++
      [.run 1 ⟨14, 0⟩] ++ passEvents 1 14) = .ok s ∧
      (message 11).key 0 ∈ s.keys ∧ ¬ Exact s := by
  obtain ⟨s, hrun, hs, hhistory⟩ : Ends (machineStep 0) Machine.init
      (sendEvents 0 10 ++ sendEvents 0 11 ++ passEvents 5 14 ++ [ackCall 1 11] ++ passEvents 4 14 ++
        [.run 1 ⟨14, 0⟩] ++ passEvents 1 14)
      fun s => (message 11).key 0 ∈ s.keys ∧ s.history =
        [.sent ((message 10).key 0), .transmitted ((message 10).key 0), .sent ((message 11).key 0),
          .transmitted ((message 11).key 0), .transmitted ((message 10).key 0)] ++
        .acked ((message 11).key 0) :: [.sent ((message 11).key 0)] := by decide +kernel
  exact ⟨s, hrun, hs, fun h => (h.finished _ _ _ hhistory (by decide)).1 (by decide)⟩

/-! ## The reads of the resending thread -/

/-- **Every read** of the resending thread is made with the lock held, and inside the
    list. -/
def SafeReads (s : Machine) : Prop := ∀ r ∈ s.reads, r.held ∧ r.index < r.size

/-- The entry that the resending thread tests is not due. -/
def NotDue (s : Machine) : ResendEvent → Prop
  | .resend _ =>
    match s.resend with
    | .test i currentTime => ∀ u ∈ s.unAckedMessages[i]?, ¬ u.Due currentTime
    | _ => True
  | _ => True

instance (s : Machine) (e : ResendEvent) : Decidable (NotDue s e) := by
  unfold NotDue
  split
  · split <;> infer_instance
  · infer_instance

/-- The resending thread has the lock while it tests the entries, and sends none. -/
structure ReadInv (s : Machine) : Prop where
  lock : s.unAckedMessagesLock.FreeIff
  reads : SafeReads s
  phase : s.resend = .outside ∨ s.resend = .acquire ∨
    ∃ i currentTime, s.resend = .test i currentTime ∧ s.unAckedMessagesLock.HeldBy .resend

theorem ReadInv.init : ReadInv Machine.init := ⟨Lock.freeIff_new, nofun, Or.inl rfl⟩

section

variable {netAddr : ℤ} {s s' : Machine} {n : ℕ} {now : Timeval}

/-- Another thread changes neither the phase nor the reads, and the lock only by
    `Acquire` and `Release`. -/
theorem ReadInv.other (h : ReadInv s) {lock : Lock KernelThread}
    (hlock : lock = s.unAckedMessagesLock ∨ lock = s.unAckedMessagesLock.acquire (.other n) ∨
      lock = s.unAckedMessagesLock.release (.other n))
    (hs' : s'.unAckedMessagesLock = lock) (hreads : s'.reads = s.reads)
    (hresend : s'.resend = s.resend) : ReadInv s' := by
  refine ⟨?_, ?_, ?_⟩
  · rw [hs']
    rcases hlock with rfl | rfl | rfl
    · exact h.lock
    · exact h.lock.acquire
    · exact h.lock.release
  · rw [SafeReads, hreads]
    exact h.reads
  · rw [hresend, hs']
    rcases h.phase with hphase | hphase | ⟨i, currentTime, hphase, hheld⟩
    · exact Or.inl hphase
    · exact Or.inr (Or.inl hphase)
    · refine Or.inr (Or.inr ⟨i, currentTime, hphase, ?_⟩)
      rcases hlock with rfl | rfl | rfl
      · exact hheld
      · exact h.lock.owner_acquire hheld
      · exact Lock.owner_release_of_ne hheld nofun

theorem call_readInv (h : ReadInv s) {c : Call} (hs' : call netAddr s n c = .ok s') : ReadInv s' := by
  unfold call at hs'
  split at hs'
  · cases hs'
    exact h
  · next m _ =>
    by_cases hlegal : m.Legal
    · rw [if_pos hlegal] at hs'
      cases hs'
      exact h.other (Or.inr (Or.inl rfl)) rfl rfl rfl
    · rw [if_neg hlegal] at hs'
      cases hs'
  · cases hs'
    exact h.other (Or.inr (Or.inl rfl)) rfl rfl rfl

theorem run_readInv (h : ReadInv s) (hs' : run netAddr s n now = .ok s') : ReadInv s' := by
  unfold run at hs'
  split at hs'
  · cases hs'
    exact h
  · split_ifs at hs' with hheld
    · obtain ⟨⟨s'', text⟩, hsend, hs'⟩ := bind_eq_ok.mp hs'
      obtain ⟨unAckedMessages, sendCounters, rfl, -⟩ := sendLocked_eq_ok hsend
      cases hs'
      rw [note_eq]
      exact h.other (Or.inr (Or.inr rfl)) rfl rfl rfl
    · cases hs'
      exact h
  · split_ifs at hs' with hheld <;> cases hs'
    · exact h.other (Or.inr (Or.inr rfl)) rfl rfl rfl
    · exact h
  · cases hs'
    rw [note_eq]
    exact h.other (n := n) (Or.inl rfl) rfl rfl rfl

/-- As long as no entry is due the resending thread goes through the list and releases
    the lock at its end. -/
theorem resendStep_readInv (h : ReadInv s) (hok : NotDue s (.resend now))
    (hs' : resendStep netAddr s now = .ok s') : ReadInv s' := by
  unfold resendStep at hs'
  rcases h.phase with hphase | hphase | ⟨i, currentTime, hphase, hheld⟩
  · rw [hphase] at hs'
    cases hs'
    exact ⟨h.lock.acquire, h.reads, Or.inr (Or.inl rfl)⟩
  · rw [hphase] at hs'
    simp only at hs'
    split_ifs at hs' with hheld <;> cases hs'
    · exact ⟨h.lock, h.reads, Or.inr (Or.inr ⟨0, now.sec, rfl, hheld⟩)⟩
    · exact h
  · simp only [hphase, NotDue] at hs' hok
    split at hs'
    · cases hs'
      exact ⟨h.lock.release, h.reads, Or.inl rfl⟩
    · next u hu =>
      rw [if_neg (hok u hu)] at hs'
      cases hs'
      refine ⟨h.lock, fun r hr => ?_, Or.inr (Or.inr ⟨i + 1, currentTime, rfl, hheld⟩)⟩
      rcases List.mem_append.mp hr with hr | hr
      · exact h.reads r hr
      · rw [List.mem_singleton.mp hr]
        exact ⟨decide_eq_true hheld, (List.getElem?_eq_some_iff.mp hu).1⟩

theorem machineStep_readInv {e : ResendEvent} (h : ReadInv s) (hok : NotDue s e)
    (hs' : machineStep netAddr s e = .ok s') : ReadInv s' := by
  cases e with
  | call n c => exact call_readInv h hs'
  | run n now => exact run_readInv h hs'
  | resend now => exact resendStep_readInv h hok hs'

end

/-- **The list is read safely** in every run in which the resending thread finds no entry
    due. -/
theorem reads_safe {netAddr : ℤ} {events : List ResendEvent} {s : Machine}
    (hok : Guarded (machineStep netAddr) NotDue Machine.init events)
    (hrun : exec (machineStep netAddr) Machine.init events = .ok s) : SafeReads s :=
  (exec_inv (fun _ _ _ => machineStep_readInv) ReadInv.init hok hrun).reads

/-- A pass over two messages that are not due, with an acknowledgement in between. -/
theorem reads_safe_young : ∃ s, exec (machineStep 0) Machine.init
    (sendEvents 0 10 ++ sendEvents 0 11 ++ passEvents 3 12 ++ [ackCall 1 10, .run 1 ⟨12, 0⟩] ++
      passEvents 2 12 ++ [.run 1 ⟨12, 0⟩]) = .ok s ∧
      (s.reads.map Read.index = [0, 1] ∧ s.unAckedMessages.length = 1) ∧ SafeReads s := by
  obtain ⟨s, hrun, hs⟩ : Ends (machineStep 0) Machine.init
      (sendEvents 0 10 ++ sendEvents 0 11 ++ passEvents 3 12 ++ [ackCall 1 10, .run 1 ⟨12, 0⟩] ++
        passEvents 2 12 ++ [.run 1 ⟨12, 0⟩])
      fun s => s.reads.map Read.index = [0, 1] ∧ s.unAckedMessages.length = 1 := by decide +kernel
  exact ⟨s, hrun, hs, reads_safe (by decide +kernel) hrun⟩

/-- **A read outside the list**: while the resending thread waits for the network in
    `Send`, the acknowledgement erases the only entry; then the thread prints it. -/
theorem reads_not_safe : ∃ s, exec (machineStep 0) Machine.init
    (sendEvents 0 10 ++ passEvents 5 14 ++ [ackCall 1 10, .run 1 ⟨14, 0⟩] ++ passEvents 2 14) = .ok s ∧
      ⟨false, 0, 0⟩ ∈ s.reads ∧ ¬ SafeReads s := by
  obtain ⟨s, hrun, hs⟩ : Ends (machineStep 0) Machine.init
      (sendEvents 0 10 ++ passEvents 5 14 ++ [ackCall 1 10, .run 1 ⟨14, 0⟩] ++ passEvents 2 14)
      fun s => ⟨false, 0, 0⟩ ∈ s.reads := by decide +kernel
  exact ⟨s, hrun, hs, fun h => absurd (h _ hs).1 (by decide)⟩

end Nachos.Mail
