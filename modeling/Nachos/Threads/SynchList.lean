import Nachos.Threads.InterleavingLocks

/-!
# Synchronized lists

`class SynchList` (`threads/synchlist.cc`): `Append` and `Remove` under one lock, with a condition
for the consumers that find the list empty. `Append` signals once. A consumer that arrives before
the one that has been woken can take the item, and the woken one waits again.

* `synchList_fifo`: what is removed is what was appended, in order, and an item is never left with
  sleeping consumers only.
-/

namespace Nachos.Threads

open Nachos.Lib

variable {α : Type}

/-! ## The list -/

/-- `class SynchList` (synchlist.h), with what has been appended and removed. A pointer may be
    `NULL`, which is `none`. -/
structure SynchList (α : Type) where
  list : List (Option α)
  appended : List (Option α)
  removed : List (Option α)
  /-- `ASSERT(item != NULL)` has failed. -/
  failed : Bool

/-- The constructor. -/
def SynchList.new : SynchList α := ⟨[], [], [], false⟩

/-- `list->Append` (list.cc:79) of an item that is not `NULL`. -/
def SynchList.append (s : SynchList α) (item : α) : SynchList α :=
  { s with list := s.list ++ [some item], appended := s.appended ++ [some item] }

/-- `list->Remove` (list.cc:126), which returns `NULL` if nothing is on the list. -/
def SynchList.first (s : SynchList α) : Option α := s.list.head?.join

/-- `list->Remove`, and the assertion. -/
def SynchList.remove (s : SynchList α) : SynchList α :=
  { s with
    list := s.list.tail
    removed := s.removed ++ [s.first]
    failed := s.failed || s.first.isNone }

/-- What a thread does next. -/
inductive ListRequest (α : Type)
  | append (item : α)
  | remove
  | fork
  | exit

/-- Where a thread goes on. -/
inductive ListPoint (α : Type)
  /-- Outside, with what the last `Remove` has returned. -/
  | idle (result : Option α)
  | append (item : α)
  | appended
  /-- At the test of the loop; `waited` if it has been in `Wait` since it called `Remove`. -/
  | remove (waited : Bool)
  /-- Behind the loop. -/
  | take (waited : Bool)

/-- The threads, with the lock and the condition of one list. -/
abbrev ListSystem (α : Type) := Machine Unit Unit (ListPoint α) (SynchList α)

/-- `SynchList::Append` (synchlist.cc:53) and `Remove` (synchlist.cc:70). -/
def listProgram (p : ListPoint α) (x : ListRequest α) (s : SynchList α) :
    Action Unit Unit (ListPoint α) (SynchList α) :=
  match p with
  | .idle result =>
    match x with
    | .append item => ⟨s, .acquire (), .append item⟩
    | .remove => ⟨s, .acquire (), .remove false⟩
    | .fork => ⟨s, .fork (.idle none), .idle result⟩
    | .exit => ⟨s, .finish, .idle result⟩
  | .append item => ⟨s.append item, .signal () (), .appended⟩
  | .appended => ⟨s, .release (), .idle none⟩
  | .remove waited =>
    if s.list = [] then ⟨s, .wait () (), .remove true⟩ else ⟨s, .yield, .take waited⟩
  | .take _ => ⟨s.remove, .release (), .idle s.first⟩

/-- One thread and an empty list. -/
def listStart : ListSystem α := Machine.init (.idle none) .new

/-! ## The property -/

/-- The consumer has been woken since it called `Remove`, if it is not waiting. -/
def ListPoint.again : ListPoint α → Bool
  | .remove waited | .take waited => waited
  | .idle _ | .append _ | .appended => false

/-- The consumers that have been woken and have not taken an item since. -/
def wokenConsumers (m : ListSystem α) : Finset ℕ :=
  (Finset.range (m.numThreads + 1)).filter fun u =>
    (m.pc u).any ListPoint.again ∧ m.status u ≠ .waiting () ()

/-- **The list is an atomic queue.** -/
structure AtomicQueue (m : ListSystem α) : Prop where
  /-- What has been removed are the first items that were appended, and the rest is on the list. -/
  inOrder : m.shared.appended = m.shared.removed ++ m.shared.list
  assertion : m.shared.failed = false
  /-- A consumer that takes an item returns the first one, which is not `NULL`. -/
  taken : ∀ t waited x m', m.pc t = some (.take waited) → m.status t = .ready →
    Machine.step listProgram m (t, x) = .ok m' → ∃ item rest, m.shared.list = some item :: rest ∧
      m'.pc t = some (.idle (some item)) ∧ m'.shared.removed = m.shared.removed ++ [some item] ∧
        m'.shared.list = rest
  /-- If a consumer waits, there are no more items than consumers that have been woken. -/
  woken : (m.conditions ()).waitingThreads ≠ [] →
    m.shared.list.length ≤ (wokenConsumers m).card

/-! ## The invariant -/

/-- The thread has the lock. -/
def ListPoint.inside : ListPoint α → Prop
  | .append _ | .appended | .remove _ | .take _ => True
  | .idle _ => False

/-- What `Machine.Owns` needs. -/
abbrev ListPoint.holds (_ : SynchList α) (p : ListPoint α) (_ : Unit) : Prop := p.inside

/-- One for a consumer that has waited. -/
def ListPoint.weight (p : ListPoint α) : ℕ := p.again.toNat

/-- **The invariant.** -/
structure SynchListInv (m : ListSystem α) : Prop where
  ok : m.Ok
  owns : m.Owns (m.Has ListPoint.holds)
  /-- Behind the loop the list is not empty. -/
  take : ∀ t waited, m.pc t = some (.take waited) → m.status t = .ready ∧ m.shared.list ≠ []
  notNull : ∀ item ∈ m.shared.list, item ≠ none
  inOrder : m.shared.appended = m.shared.removed ++ m.shared.list
  assertion : m.shared.failed = false
  /-- Who sleeps in the condition, or has been woken, is in the loop of `Remove`. -/
  asleep : ∀ t l, (∃ c, m.status t = .waiting c l) ∨ m.status t = .woken l →
    m.pc t = some (.remove true)
  calm : ∀ t c l, m.status t ≠ .broadcasting c l
  /-- Of the consumers that have waited, those that do not wait now can take all items. -/
  count : (m.conditions ()).waitingThreads ≠ [] →
    m.shared.list.length + (m.conditions ()).waitingThreads.length ≤ m.total ListPoint.weight

/-! ## Counting -/

section

variable {m : ListSystem α}

theorem total_eq_card (m : ListSystem α) : m.total ListPoint.weight =
    ((Finset.range (m.numThreads + 1)).filter fun u => (m.pc u).any ListPoint.again).card := by
  unfold Machine.total
  rw [Finset.card_filter]
  refine Finset.sum_congr rfl fun u _ => ?_
  cases m.pc u with
  | none => rfl
  | some p =>
    show p.again.toNat = if p.again = true then 1 else 0
    cases p.again <;> rfl

/-- **Those that have waited** are those that wait and those that have been woken. -/
theorem total_eq (hok : m.Ok)
    (hasleep : ∀ t, m.status t = .waiting () () → m.pc t = some (.remove true)) :
    m.total ListPoint.weight =
      (m.conditions ()).waitingThreads.length + (wokenConsumers m).card := by
  have hwaiting : ((Finset.range (m.numThreads + 1)).filter fun u =>
      (m.pc u).any ListPoint.again ∧ m.status u = .waiting () ()) =
        (m.conditions ()).waitingThreads.toFinset := by
    ext u
    rw [Finset.mem_filter, List.mem_toFinset, hok.waiting () u, Finset.mem_range]
    constructor
    · rintro ⟨-, -, hu⟩
      exact ⟨(), hu⟩
    · rintro ⟨l, hu⟩
      have hpc := hasleep u hu
      refine ⟨?_, by rw [hpc]; rfl, hu⟩
      by_contra hlt
      rw [hok.unborn u (by omega)] at hpc
      cases hpc
  rw [total_eq_card,
    ← Finset.card_filter_add_card_filter_not (fun u => m.status u = .waiting () ()),
    Finset.filter_filter, Finset.filter_filter, hwaiting,
    List.toFinset_card_of_nodup (hok.cond_nodup ())]
  rfl

end

/-! ## What a step does -/

/-- The calls that the routines make. -/
def ListCalls (a : Action Unit Unit (ListPoint α) (SynchList α)) : Prop :=
  match a.op with
  | .wait _ _ => a.pc = .remove true
  | .broadcast _ _ => False
  | .fork child => child = .idle none
  | .acquire _ | .release _ | .signal _ _ | .yield | .finish => True

section

variable {m m' : ListSystem α} {t : ℕ} {x : ListRequest α} {p : ListPoint α}
  {a : Action Unit Unit (ListPoint α) (SynchList α)}

theorem listProgram_calls (p : ListPoint α) (x : ListRequest α) (s : SynchList α) :
    ListCalls (listProgram p x s) := by
  cases p with
  | idle result => cases x <;> trivial
  | append item => trivial
  | appended => trivial
  | remove waited =>
    unfold listProgram
    simp only
    split_ifs
    · rfl
    · trivial
  | take waited => trivial

theorem listProgram_keeps (p : ListPoint α) (x : ListRequest α) (s : SynchList α) :
    Machine.Keeps ListPoint.holds s p (listProgram p x s) := by
  cases p with
  | idle result =>
    cases x <;> simp [Machine.Keeps, listProgram, ListPoint.holds, ListPoint.inside]
  | append item => simp [Machine.Keeps, listProgram, ListPoint.holds, ListPoint.inside]
  | appended => simp [Machine.Keeps, listProgram, ListPoint.holds, ListPoint.inside]
  | remove waited =>
    unfold listProgram
    simp only
    split_ifs <;> simp [Machine.Keeps, ListPoint.holds, ListPoint.inside]
  | take waited => simp [Machine.Keeps, listProgram, ListPoint.holds, ListPoint.inside]

/-- Who sleeps in the condition is in the loop of `Remove`, after a call too. -/
theorem SynchListInv.asleep_perform (h : SynchListInv m) (hp : m.pc t = some p)
    (ht : m.status t = .ready) (hcalls : ListCalls a) :
    (∀ u l, (∃ c, ((m.compute t a.shared a.pc).perform t a.op).status u = .waiting c l) ∨
        ((m.compute t a.shared a.pc).perform t a.op).status u = .woken l →
      ((m.compute t a.shared a.pc).perform t a.op).pc u = some (.remove true)) ∧
    ∀ u c l, ((m.compute t a.shared a.pc).perform t a.op).status u ≠ .broadcasting c l := by
  have hpc : m.pc t ≠ none := by simp [hp]
  have hok' : (m.compute t a.shared a.pc).Ok := h.ok.compute hpc _ _
  have hready : (m.compute t a.shared a.pc).status t = .ready := ht
  have hself := Machine.status_perform_self hok' hready a.op
  unfold ListCalls at hcalls
  constructor
  · intro u l hu
    by_cases hut : u = t
    · subst hut
      -- the thread sleeps only in `Wait`
      have hwait : a.pc = .remove true := by
        cases hop : a.op <;> rw [hop] at hself hcalls hu
        case wait c k => exact hcalls
        case broadcast c k => exact hcalls.elim
        case acquire k =>
          rcases hself with hself | hself <;> rw [hself] at hu <;> simp at hu
        all_goals
          rw [hself] at hu
          simp at hu
      rw [Machine.pc_computed_self h.ok hpc, hwait]
    · refine Machine.pc_computed_of_ne h.ok hut (h.asleep u l ?_) a
      rcases Machine.status_perform_of_ne hok' hut a.op with
        hsame | ⟨k, -, -, hnew⟩ | ⟨c, k, -, hwaiting, hwoken⟩
      · rw [hsame] at hu
        exact hu
      · rw [hnew] at hu
        simp at hu
      · rw [hwoken] at hu
        exact Or.inl ⟨c, hwaiting⟩
  · intro u c l hu
    by_cases hut : u = t
    · subst hut
      cases hop : a.op <;> rw [hop] at hself hcalls hu
      case broadcast c k => exact hcalls
      case acquire k => rcases hself with hself | hself <;> rw [hself] at hu <;> cases hu
      case wait c k => rcases hself with hself | hself <;> rw [hself] at hu <;> cases hu
      all_goals
        rw [hself] at hu
        cases hu
    · rcases Machine.status_perform_of_ne hok' hut a.op with
        hsame | ⟨k, -, -, hnew⟩ | ⟨d, k, -, -, hwoken⟩
      · rw [hsame] at hu
        exact h.calm u c l hu
      · rw [hnew] at hu
        cases hu
      · rw [hwoken] at hu
        cases hu

/-- `Signal` takes the first of the waiting threads from the queue. -/
theorem waitingThreads_signal_tail (hok : m.Ok) :
    ((m.signal () ()).conditions ()).waitingThreads = (m.conditions ()).waitingThreads.tail := by
  unfold Machine.signal
  simp only
  split
  next hqueue => rw [hqueue, List.tail_nil]
  next u rest hqueue =>
    obtain ⟨l, hu⟩ := (hok.waiting () u).mp (by rw [hqueue]; exact List.mem_cons_self ..)
    rw [if_neg (not_not.mpr (hok.waitingLock () u l hu)), hqueue]
    simp [Machine.setStatus]

theorem conditions_release (m : ListSystem α) (t : ℕ) (l : Unit) :
    (m.release t l).conditions = m.conditions := by
  unfold Machine.release
  simp only
  split <;> rfl

/-- A thread at the end of the loop is alone with the lock. -/
theorem SynchListInv.unique (h : SynchListInv m) {u : ℕ} {q : ListPoint α}
    (hp : m.pc t = some p) (ht : m.status t = .ready) (hin : p.inside)
    (hq : m.pc u = some q) (hu : m.status u = .ready) (hin' : q.inside) : t = u := by
  refine h.owns.unique (l := ()) ⟨p, hp, hin⟩ ⟨q, hq, hin'⟩ ?_ ?_
  · rw [ht]
    exact id
  · rw [hu]
    exact id

/-- What `list->Remove` returns. -/
theorem SynchListInv.exists_first (h : SynchListInv m) (hlist : m.shared.list ≠ []) :
    ∃ item rest, m.shared.list = some item :: rest ∧ m.shared.first = some item := by
  cases hitems : m.shared.list with
  | nil => exact absurd hitems hlist
  | cons i rest =>
    cases i with
    | none => exact absurd rfl (h.notNull none (by rw [hitems]; exact List.mem_cons_self ..))
    | some item =>
      refine ⟨item, rest, rfl, ?_⟩
      rw [SynchList.first, hitems]
      rfl

/-- The weight of the threads after a step. -/
theorem total_step (h : SynchListInv m) (hp : m.pc t = some p) (hcalls : ListCalls a) :
    ((m.compute t a.shared a.pc).perform t a.op).total ListPoint.weight + p.weight =
      m.total ListPoint.weight + a.pc.weight := by
  have hweight : a.op.weight ListPoint.weight = 0 := by
    unfold ListCalls at hcalls
    cases hop : a.op <;> rw [hop] at hcalls
    case fork child => rw [hcalls]; rfl
    all_goals rfl
  have htotal := Machine.total_compute h.ok hp ListPoint.weight a.shared a.pc
  rw [Machine.total_perform, hweight]
  omega

end

/-! ## One step -/

section

variable {m m' : ListSystem α} {t : ℕ} {x : ListRequest α} {p : ListPoint α}
  {a : Action Unit Unit (ListPoint α) (SynchList α)}

/-- **A step of a routine**, from what it does to the list and to the queue. -/
theorem SynchListInv.of_action (h : SynchListInv m) (hp : m.pc t = some p)
    (ht : m.status t = .ready) (hcalls : ListCalls a)
    (hm' : m' = (m.compute t a.shared a.pc).perform t a.op) (hok : m'.Ok)
    (howns : m'.Owns (m'.Has ListPoint.holds))
    (hself : ∀ w, a.pc = .take w → a.op = .yield ∧ a.shared.list ≠ [])
    (hother : ∀ u w, u ≠ t → m.pc u = some (.take w) → a.shared.list ≠ [])
    (hnotNull : ∀ item ∈ a.shared.list, item ≠ none)
    (hinOrder : a.shared.appended = a.shared.removed ++ a.shared.list)
    (hassertion : a.shared.failed = false)
    (hcount : (m'.conditions ()).waitingThreads ≠ [] →
      a.shared.list.length + (m'.conditions ()).waitingThreads.length ≤
        m'.total ListPoint.weight) : SynchListInv m' := by
  obtain ⟨hasleep, hcalm⟩ := h.asleep_perform hp ht hcalls
  have hpc : m.pc t ≠ none := by simp [hp]
  have hok' : (m.compute t a.shared a.pc).Ok := h.ok.compute hpc _ _
  have hshared : m'.shared = a.shared := by
    rw [hm', Machine.shared_perform]
    rfl
  subst hm'
  refine ⟨hok, howns, ?_, ?_, ?_, ?_, hasleep, hcalm, ?_⟩
  · intro u w hu
    rw [hshared]
    rcases Machine.pc_computed h.ok hu with ⟨rfl, htake⟩ | ⟨hut, hold⟩ | ⟨-, hfork⟩
    · obtain ⟨hyield, hlist⟩ := hself w htake.symm
      rw [hyield]
      exact ⟨ht, hlist⟩
    · refine ⟨?_, hother u w hut hold⟩
      have hready := (h.take u w hold).1
      rcases Machine.status_perform_of_ne hok' hut a.op with
        hsame | ⟨l, -, -, hnew⟩ | ⟨c, l, -, hwaiting, -⟩
      · exact hsame.trans hready
      · exact hnew
      · have hfalse := hready.symm.trans hwaiting
        cases hfalse
    · unfold ListCalls at hcalls
      rw [hfork] at hcalls
      cases hcalls
  · rwa [hshared]
  · rwa [hshared]
  · rwa [hshared]
  · rwa [hshared]

/-- **A step of a routine.** -/
theorem SynchListInv.computed (h : SynchListInv m) (hp : m.pc t = some p)
    (ht : m.status t = .ready) (hok : m'.Ok) (howns : m'.Owns (m'.Has ListPoint.holds))
    (hm' : m' = (m.compute t (listProgram p x m.shared).shared
      (listProgram p x m.shared).pc).perform t (listProgram p x m.shared).op) :
    SynchListInv m' := by
  have hcalls := listProgram_calls p x m.shared
  have htotal := total_step h hp hcalls
  rw [← hm'] at htotal
  cases p with
  | idle result =>
    have hconditions : m'.conditions = m.conditions := by
      rw [hm']
      cases x <;> rfl
    refine h.of_action hp ht hcalls hm' hok howns ?_ ?_ ?_ ?_ ?_ ?_
    · intro w hw
      cases x <;> cases hw
    · intro u w _ hu
      have hlist := (h.take u w hu).2
      cases x <;> exact hlist
    · cases x <;> exact h.notNull
    · cases x <;> exact h.inOrder
    · cases x <;> exact h.assertion
    · rw [hconditions]
      intro hwaiting
      have hcount := h.count hwaiting
      cases x <;> simp [listProgram, ListPoint.weight, ListPoint.again] at htotal ⊢ <;> omega
  | append item =>
    have hqueue : (m'.conditions ()).waitingThreads = (m.conditions ()).waitingThreads.tail := by
      have hpc : m.pc t ≠ none := by simp [hp]
      rw [hm']
      exact waitingThreads_signal_tail (h.ok.compute hpc _ _)
    refine h.of_action hp ht hcalls hm' hok howns nofun ?_ ?_ ?_ h.assertion ?_
    · intro u w _ _
      show m.shared.list ++ [some item] ≠ []
      simp
    · intro i hi
      rcases List.mem_append.mp hi with hi | hi
      · exact h.notNull i hi
      · rw [List.mem_singleton.mp hi]
        simp
    · show m.shared.appended ++ [some item] = m.shared.removed ++ (m.shared.list ++ [some item])
      rw [h.inOrder, List.append_assoc]
    · -- one more item, and one consumer less that waits
      rw [hqueue]
      intro hwaiting
      have hold : (m.conditions ()).waitingThreads ≠ [] := by
        intro hnil
        rw [hnil] at hwaiting
        exact hwaiting rfl
      have hcount := h.count hold
      have hpos := List.length_pos_iff.mpr hold
      show (m.shared.list ++ [some item]).length + _ ≤ _
      simp only [listProgram, ListPoint.weight, ListPoint.again, Bool.toNat_false] at htotal
      rw [List.length_append, List.length_singleton, List.length_tail]
      omega
  | appended =>
    have hconditions : m'.conditions = m.conditions := by
      rw [hm']
      exact conditions_release _ t ()
    refine h.of_action hp ht hcalls hm' hok howns nofun ?_ h.notNull h.inOrder h.assertion ?_
    · intro u w _ hu
      exact (h.take u w hu).2
    · rw [hconditions]
      intro hwaiting
      have hcount := h.count hwaiting
      simp only [listProgram, ListPoint.weight, ListPoint.again, Bool.toNat_false] at htotal ⊢
      omega
  | remove waited =>
    have hothers (u : ℕ) (w : Bool) (_ : u ≠ t) (hu : m.pc u = some (.take w)) :
        m.shared.list ≠ [] := (h.take u w hu).2
    by_cases hempty : m.shared.list = []
    · have hprogram : listProgram (.remove waited) x m.shared =
          ⟨m.shared, .wait () (), .remove true⟩ := if_pos hempty
      rw [hprogram] at hcalls hm'
      obtain ⟨hasleep, -⟩ := h.asleep_perform hp ht hcalls
      rw [← hm'] at hasleep
      refine h.of_action hp ht hcalls hm' hok howns nofun hothers h.notNull h.inOrder h.assertion ?_
      -- all that wait have waited
      intro _
      rw [total_eq hok fun u hu => hasleep u () (Or.inl ⟨(), hu⟩)]
      show m.shared.list.length + _ ≤ _
      rw [hempty, List.length_nil]
      omega
    · have hprogram : listProgram (.remove waited) x m.shared =
          ⟨m.shared, .yield, .take waited⟩ := if_neg hempty
      rw [hprogram] at hcalls htotal hm'
      refine h.of_action hp ht hcalls hm' hok howns ?_ hothers h.notNull h.inOrder h.assertion ?_
      · intro w _
        exact ⟨rfl, hempty⟩
      · intro hwaiting
        have hconditions : m'.conditions = m.conditions := by
          rw [hm']
          rfl
        rw [hconditions] at hwaiting ⊢
        have hcount := h.count hwaiting
        simp only [ListPoint.weight, ListPoint.again] at htotal ⊢
        omega
  | take waited =>
    obtain ⟨item, rest, hlist, hfirst⟩ := h.exists_first (h.take t waited hp).2
    have hconditions : m'.conditions = m.conditions := by
      rw [hm']
      exact conditions_release _ t ()
    refine h.of_action hp ht hcalls hm' hok howns nofun ?_ ?_ ?_ ?_ ?_
    · intro u w hu hq
      exact absurd (h.unique hp ht trivial hq (h.take u w hq).1 trivial) (Ne.symm hu)
    · intro i hi
      exact h.notNull i (List.mem_of_mem_tail hi)
    · show m.shared.appended = m.shared.removed ++ [m.shared.first] ++ m.shared.list.tail
      rw [h.inOrder, hfirst, hlist, List.tail_cons, List.append_assoc]
      rfl
    · show (m.shared.failed || m.shared.first.isNone) = false
      rw [h.assertion, hfirst]
      rfl
    · rw [hconditions]
      intro hwaiting
      have hcount := h.count hwaiting
      show m.shared.list.tail.length + _ ≤ _
      simp only [listProgram, ListPoint.weight, ListPoint.again, Bool.toNat_false] at htotal
      have hle := Bool.toNat_le waited
      rw [List.length_tail]
      rw [hlist, List.length_cons] at hcount ⊢
      omega

/-- **One step.** -/
theorem SynchListInv.step (h : SynchListInv m)
    (hs : Machine.step listProgram m (t, x) = .ok m') : SynchListInv m' := by
  have hok := h.ok.step hs
  have howns := h.owns.step h.ok hs (fun p _ _ => listProgram_keeps p x m.shared)
    fun _ _ _ _ _ _ _ _ hl => hl
  rcases Machine.step_cases hs with ⟨p, hp, ht, hm'⟩ | ⟨p, l, hp, ht, rfl⟩ | ⟨p, c, l, hp, ht, -⟩
  · exact h.computed hp ht hok howns hm'
  · have hpc := h.asleep t l (Or.inr ht)
    have hstatus : (m.acquire t l).status t =
        if ((m.locks l).acquire t).HeldBy t then .ready else .acquiring l := Function.update_self ..
    refine ⟨hok, howns, ?_, h.notNull, h.inOrder, h.assertion, ?_, ?_, h.count⟩
    · intro u w hu
      have hut : u ≠ t := by
        rintro rfl
        rw [show m.pc u = _ from hu] at hpc
        cases hpc
      rw [Machine.status_acquire_of_ne hut]
      exact h.take u w hu
    · intro u k hu
      by_cases hut : u = t
      · subst hut
        exact hpc
      · rw [Machine.status_acquire_of_ne hut] at hu
        exact h.asleep u k hu
    · intro u c k hu
      by_cases hut : u = t
      · subst hut
        rw [hstatus] at hu
        split_ifs at hu
      · rw [Machine.status_acquire_of_ne hut] at hu
        exact h.calm u c k hu
  · exact absurd ht (h.calm t c l)

end

/-! ## The theorem -/

theorem SynchListInv.start : SynchListInv (listStart : ListSystem α) := by
  refine ⟨.init _ _, ?_, ?_, ?_, rfl, rfl, ?_, ?_, ?_⟩
  · rintro u l ⟨p, hp, hin⟩
    rw [Machine.pc_init hp] at hin
    exact hin.elim
  · intro t w hp
    have hidle := Machine.pc_init hp
    cases hidle
  · intro item hitem
    cases hitem
  · rintro t l (⟨c, hc⟩ | hw)
    · cases hc
    · cases hw
  · intro t c l hb
    cases hb
  · intro hwaiting
    exact absurd rfl hwaiting

/-- **What the invariant says.** -/
theorem SynchListInv.atomicQueue {m : ListSystem α} (h : SynchListInv m) : AtomicQueue m := by
  refine ⟨h.inOrder, h.assertion, ?_, ?_⟩
  · intro t waited x m' hp ht hs
    obtain ⟨item, rest, hlist, hfirst⟩ := h.exists_first (h.take t waited hp).2
    have hm' : m' = (m.compute t m.shared.remove (.idle m.shared.first)).release t () := by
      unfold Machine.step at hs
      simp only [hp, ht] at hs
      exact (Except.ok.inj hs).symm
    refine ⟨item, rest, hlist, ?_, ?_, ?_⟩
    · rw [hm', Machine.pc_release, hfirst]
      exact Function.update_self ..
    · rw [hm', Machine.shared_release]
      show m.shared.removed ++ [m.shared.first] = _
      rw [hfirst]
    · rw [hm', Machine.shared_release]
      show m.shared.list.tail = rest
      rw [hlist, List.tail_cons]
  · intro hwaiting
    have hcount := h.count hwaiting
    rw [total_eq h.ok fun u hu => h.asleep u () (Or.inl ⟨(), hu⟩)] at hcount
    omega

/-- **A synchronized list is an atomic queue** in every run of any number of threads that append and
    remove. -/
theorem synchList_fifo {events : List (ℕ × ListRequest α)} {m : ListSystem α}
    (h : exec (Machine.step listProgram) listStart events = .ok m) : AtomicQueue m :=
  (exec_preserves (fun _ _ _ h hs => SynchListInv.step h hs) .start h).atomicQueue

/-- Two consumers wait, and the main thread has appended an item: one consumer has been woken. -/
theorem synchList_fifo_two :
    ∃ m : ListSystem ℕ, exec (Machine.step listProgram) listStart
        [(0, .fork), (0, .fork), (1, .remove), (1, .exit), (2, .remove), (2, .exit),
          (0, .append 7), (0, .exit)] = .ok m ∧
      m.shared.list = [some 7] ∧ (m.conditions ()).waitingThreads = [2] ∧ AtomicQueue m := by
  have hrun : Ends (Machine.step listProgram) (listStart : ListSystem ℕ)
      [(0, .fork), (0, .fork), (1, .remove), (1, .exit), (2, .remove), (2, .exit),
        (0, .append 7), (0, .exit)] fun m =>
      m.shared.list = [some 7] ∧ (m.conditions ()).waitingThreads = [2] := by
    decide +kernel
  obtain ⟨m, hm, hlist, hwaiting⟩ := hrun
  exact ⟨m, hm, hlist, hwaiting, synchList_fifo hm⟩

end Nachos.Threads
