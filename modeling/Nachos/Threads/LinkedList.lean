import Nachos.Lib.Agenda
import Nachos.Lib.Chain
import Nachos.Lib.Run

/-!
# Linked lists

`class List` (`threads/list.cc`) with its elements in memory, where `first` and `last` point into
one chain. `Mapcar`, which only passes over the chain, is left out, and so is the destructor.

* `HasCells`: the chain from `first` on ends at `last`.
* `list_is_sequence`: any calls from the constructor on are those on a sequence, and `SortedInsert`
  keeps it sorted.
-/

namespace Nachos.Threads

open Nachos.Lib

variable {α : Type}

/-! ## The list -/

/-- `class ListElement` (list.h). `none` is `NULL`. -/
structure ListElement (α : Type) where
  next : Option ℕ
  key : ℤ
  item : α

/-- `class List` (list.h), with the memory for elements. `none` is one that is not allocated. -/
structure LinkedList (α : Type) where
  memory : ℕ → Option (ListElement α)
  first : Option ℕ
  last : Option ℕ

/-- What stops a call. -/
inductive ListFault
  | nullPointer
  /-- An element that has been deleted. -/
  | dangling
  /-- The loop has not ended so far. -/
  | running

namespace LinkedList

/-- The constructor. The memory may have elements of other lists. -/
def new (memory : ℕ → Option (ListElement α)) : LinkedList α := ⟨memory, none, none⟩

/-- `new ListElement(itemPtr, sortKey)`, at an address that is free. -/
def alloc (s : LinkedList α) (element : ℕ) (item : α) (sortKey : ℤ) : LinkedList α :=
  { s with memory := Function.update s.memory element (some ⟨none, sortKey, item⟩) }

/-- `*p`. -/
def load (s : LinkedList α) : Option ℕ → Except ListFault (ListElement α)
  | none => .error .nullPointer
  | some a =>
    match s.memory a with
    | none => .error .dangling
    | some e => .ok e

/-- `p->next = q`. -/
def setNext (s : LinkedList α) (p q : Option ℕ) : Except ListFault (LinkedList α) :=
  match p with
  | none => .error .nullPointer
  | some a =>
    match s.memory a with
    | none => .error .dangling
    | some e => .ok { s with memory := Function.update s.memory a (some { e with next := q }) }

/-- `IsEmpty` (list.cc:161). -/
def isEmpty (s : LinkedList α) : Bool := s.first.isNone

/-- `Append` (list.cc:76). -/
def append (s : LinkedList α) (element : ℕ) (item : α) : Except ListFault (LinkedList α) :=
  let s := s.alloc element item 0
  if s.isEmpty then .ok { s with first := some element, last := some element }
  else do
    let s ← s.setNext s.last (some element)
    return { s with last := some element }

/-- `Prepend` (list.cc:101). -/
def prepend (s : LinkedList α) (element : ℕ) (item : α) : Except ListFault (LinkedList α) :=
  let s := s.alloc element item 0
  if s.isEmpty then .ok { s with first := some element, last := some element }
  else do
    let s ← s.setNext (some element) s.first
    return { s with first := some element }

/-- The loop of `SortedInsert` and what is behind it, for at most `fuel` tests. -/
def walk (s : LinkedList α) (element : ℕ) (sortKey : ℤ) :
    ℕ → Option ℕ → Except ListFault (LinkedList α)
  | 0, _ => .error .running
  | fuel + 1, ptr => do
    let e ← s.load ptr
    if e.next.isNone then
      let s ← s.setNext s.last (some element)
      return { s with last := some element }
    else
      let f ← s.load e.next
      if sortKey < f.key then
        let s ← s.setNext (some element) e.next
        s.setNext ptr (some element)
      else s.walk element sortKey fuel e.next

/-- `SortedInsert` (list.cc:178). -/
def sortedInsert (fuel : ℕ) (s : LinkedList α) (element : ℕ) (item : α) (sortKey : ℤ) :
    Except ListFault (LinkedList α) :=
  let s := s.alloc element item sortKey
  if s.isEmpty then .ok { s with first := some element, last := some element }
  else do
    let f ← s.load s.first
    if sortKey < f.key then
      let s ← s.setNext (some element) s.first
      return { s with first := some element }
    else s.walk element sortKey fuel s.first

/-- `SortedRemove` (list.cc:214): the item with its key, which is what `*keyPtr` is set to. -/
def sortedRemove (s : LinkedList α) : Except ListFault (Option (α × ℤ) × LinkedList α) :=
  match s.first with
  | none => .ok (none, s)
  | some a => do
    let e ← s.load s.first
    let s := if s.first = s.last then { s with first := none, last := none }
      else { s with first := e.next }
    return (some (e.item, e.key), { s with memory := Function.update s.memory a none })

/-- `Remove` (list.cc:126). -/
def remove (s : LinkedList α) : Except ListFault (Option α × LinkedList α) := do
  let (thing, s) ← s.sortedRemove
  return (thing.map Prod.fst, s)

/-! ## Its chain -/

/-- The elements from `first` on, up to `last`. -/
structure HasCells (s : LinkedList α) (cells : List (ℕ × α × ℤ)) : Prop where
  chain : Chain ListElement.next (fun e => (e.item, e.key)) s.memory s.first cells
  last_eq : s.last = (cells.map Prod.fst).getLast?

variable {s : LinkedList α} {cells l l₁ l₂ : List (ℕ × α × ℤ)} {element a fuel : ℕ}
  {e : ListElement α} {item : α} {sortKey : ℤ} {x y : α × ℤ} {q : Option ℕ}

theorem load_some (h : s.memory a = some e) : s.load (some a) = .ok e := by
  simp [load, h]

theorem setNext_some (h : s.memory a = some e) (q : Option ℕ) :
    s.setNext (some a) q =
      .ok { s with memory := Function.update s.memory a (some { e with next := q }) } := by
  simp [setNext, h]

theorem hasCells_new (memory : ℕ → Option (ListElement α)) : (new memory).HasCells [] :=
  ⟨rfl, rfl⟩

namespace HasCells

theorem first_eq_none_iff (h : s.HasCells cells) : s.first = none ↔ cells = [] :=
  h.chain.eq_nil_iff.symm

theorem last_eq_none_iff (h : s.HasCells cells) : s.last = none ↔ cells = [] := by
  rw [h.last_eq]
  simp

theorem isEmpty_eq (h : s.HasCells cells) : s.isEmpty = true ↔ cells = [] := by
  rw [← h.first_eq_none_iff, isEmpty, Option.isNone_iff_eq_none]

theorem last_concat (h : s.HasCells (l ++ [(a, x)])) : s.last = some a := by
  rw [h.last_eq]
  simp

end HasCells

/-- An element that is allocated and not yet on the list. -/
structure Detached (s : LinkedList α) (cells : List (ℕ × α × ℤ)) (element : ℕ) (x : α × ℤ) :
    Prop where
  memory_eq : s.memory element = some ⟨none, x.2, x.1⟩
  ne : ∀ y ∈ cells, y.1 ≠ element

namespace HasCells

/-- `new ListElement` leaves the chain. -/
theorem alloc (h : s.HasCells cells) (hfree : s.memory element = none) (item : α) (sortKey : ℤ) :
    (s.alloc element item sortKey).HasCells cells ∧
      (s.alloc element item sortKey).Detached cells element (item, sortKey) := by
  have hne := h.chain.ne_of_not_allocated hfree
  refine ⟨⟨h.chain.congr ?_, h.last_eq⟩, ⟨Function.update_self .., hne⟩⟩
  intro y hy
  exact Function.update_of_ne (hne y hy) ..

/-- The element is the only one. -/
theorem only (h : s.Detached [] element x) :
    { s with first := some element, last := some element }.HasCells [(element, x)] :=
  ⟨⟨rfl, _, h.memory_eq, rfl, rfl⟩, rfl⟩

/-- `element->next = first; first = element`. -/
theorem front (h : s.HasCells ((a, y) :: cells)) (hnew : s.Detached ((a, y) :: cells) element x) :
    ∃ s', s.setNext (some element) s.first = .ok s' ∧
      { s' with first := some element }.HasCells ((element, x) :: (a, y) :: cells) := by
  refine ⟨_, setNext_some hnew.memory_eq _, ?_, ?_⟩
  · refine Chain.cons ?_ (Function.update_self ..) rfl
    exact h.chain.congr fun z hz => Function.update_of_ne (hnew.ne z hz) ..
  · rw [show s.last = _ from h.last_eq]
    simp

/-- `last->next = element; last = element`. -/
theorem back (h : s.HasCells (l ++ [(a, y)])) (hnew : s.Detached (l ++ [(a, y)]) element x) :
    ∃ s', s.setNext s.last (some element) = .ok s' ∧
      { s' with last := some element }.HasCells (l ++ [(a, y), (element, x)]) := by
  obtain ⟨e, he, -, hnext⟩ := h.chain.cell
  have hne : element ≠ a := (hnew.ne (a, y) (by simp)).symm
  rw [h.last_concat]
  refine ⟨_, setNext_some he _, ?_, by simp⟩
  have hself (memory : ℕ → Option (ListElement α)) :
      Function.update memory a (some { e with next := some element }) a =
        some { e with next := some element } := Function.update_self ..
  refine h.chain.insert he (hself _) rfl rfl (d := ⟨none, x.2, x.1⟩) ?_ hnext.symm ?_
  · rw [Function.update_of_ne hne, hnew.memory_eq]
  · intro z hz
    exact Function.update_of_ne (h.chain.ne_of_mem z hz) ..

/-- `element->next = ptr->next; ptr->next = element`, in front of an element. -/
theorem between {b : ℕ} {z : α × ℤ} (h : s.HasCells (l₁ ++ (a, y) :: (b, z) :: l₂))
    (hnew : s.Detached (l₁ ++ (a, y) :: (b, z) :: l₂) element x) :
    ∃ s₁ s', s.setNext (some element) (some b) = .ok s₁ ∧
      s₁.setNext (some a) (some element) = .ok s' ∧
      s'.HasCells (l₁ ++ (a, y) :: (element, x) :: (b, z) :: l₂) := by
  obtain ⟨e, he, -, hnext⟩ := h.chain.cell
  have hne : a ≠ element := hnew.ne (a, y) (by simp)
  have he₁ : Function.update s.memory element (some ⟨some b, x.2, x.1⟩) a = some e := by
    rw [Function.update_of_ne hne, he]
  refine ⟨_, _, setNext_some hnew.memory_eq _, setNext_some he₁ _, ?_, ?_⟩
  · have hself (memory : ℕ → Option (ListElement α)) :
        Function.update memory a (some { e with next := some element }) a =
          some { e with next := some element } := Function.update_self ..
    refine h.chain.insert he (hself _) rfl rfl (d := ⟨some b, x.2, x.1⟩) ?_ hnext.1.symm ?_
    · rw [Function.update_of_ne hne.symm]
      exact Function.update_self ..
    · intro w hw
      rw [Function.update_of_ne (h.chain.ne_of_mem w hw)]
      refine Function.update_of_ne (hnew.ne w ?_) ..
      simp only [List.mem_append, List.mem_cons] at hw ⊢
      tauto
  · rw [show s.last = _ from h.last_eq]
    simp

/-! ## The functions -/

/-- **`Append`**. -/
theorem append (h : s.HasCells cells) (hfree : s.memory element = none) (item : α) :
    ∃ s', s.append element item = .ok s' ∧ s'.HasCells (cells ++ [(element, item, 0)]) := by
  obtain ⟨h, hnew⟩ := h.alloc hfree item 0
  unfold LinkedList.append
  rcases List.eq_nil_or_concat cells with rfl | ⟨l, ⟨a, y⟩, rfl⟩
  · rw [if_pos (h.isEmpty_eq.mpr rfl)]
    exact ⟨_, rfl, only hnew⟩
  · rw [List.concat_eq_append] at h hnew ⊢
    obtain ⟨s', hset, hcells⟩ := h.back hnew
    rw [if_neg (by simp [h.isEmpty_eq]), hset]
    exact ⟨_, rfl, by simpa using hcells⟩

/-- **`Prepend`**. -/
theorem prepend (h : s.HasCells cells) (hfree : s.memory element = none) (item : α) :
    ∃ s', s.prepend element item = .ok s' ∧ s'.HasCells ((element, item, 0) :: cells) := by
  obtain ⟨h, hnew⟩ := h.alloc hfree item 0
  unfold LinkedList.prepend
  match cells with
  | [] =>
    rw [if_pos (h.isEmpty_eq.mpr rfl)]
    exact ⟨_, rfl, only hnew⟩
  | (a, y) :: cells =>
    obtain ⟨s', hset, hcells⟩ := h.front hnew
    rw [if_neg (by simp [h.isEmpty_eq]), hset]
    exact ⟨_, rfl, hcells⟩

/-- The place of an element among those behind `ptr`, by induction on these. -/
theorem walk (h : s.HasCells (l₁ ++ (a, y) :: l₂))
    (hnew : s.Detached (l₁ ++ (a, y) :: l₂) element x) (hfuel : l₂.length < fuel) :
    ∃ s', s.walk element x.2 fuel (some a) = .ok s' ∧
      s'.HasCells (l₁ ++ (a, y) :: insertByTime (fun c => c.2.2) (element, x) l₂) := by
  induction l₂ generalizing l₁ a y fuel with
  | nil =>
    obtain ⟨fuel, rfl⟩ : ∃ m, fuel = m + 1 := ⟨fuel - 1, by simp at hfuel; omega⟩
    obtain ⟨e, he, -, hnext⟩ := h.chain.cell
    obtain ⟨s', hset, hcells⟩ := h.back hnew
    have hend : e.next = none := hnext
    refine ⟨_, ?_, hcells⟩
    simp [LinkedList.walk, load_some he, hend, hset]
  | cons z l₂ ih =>
    obtain ⟨b, z⟩ := z
    obtain ⟨fuel, rfl⟩ : ∃ m, fuel = m + 1 := ⟨fuel - 1, by simp at hfuel; omega⟩
    obtain ⟨e, he, -, hnext, f, hf, hz, -⟩ := h.chain.cell
    have hkey : f.key = z.2 := congrArg Prod.snd hz
    unfold insertByTime
    by_cases hlt : x.2 < z.2
    · obtain ⟨s₁, s', hset₁, hset, hcells⟩ := h.between hnew
      rw [if_pos hlt]
      refine ⟨s', ?_, hcells⟩
      simp [LinkedList.walk, load_some he, hnext, load_some hf, hkey, hlt, hset₁, hset]
    · rw [List.append_cons] at h hnew
      obtain ⟨s', hwalk, hcells⟩ := ih h hnew (by simp at hfuel; omega)
      rw [if_neg hlt]
      refine ⟨s', ?_, by simpa using hcells⟩
      simp [LinkedList.walk, load_some he, hnext, load_some hf, hkey, hlt, hwalk]

/-- **`SortedInsert`** puts the element behind all that are not greater, up to the first that is. -/
theorem sortedInsert (h : s.HasCells cells) (hfree : s.memory element = none) (item : α)
    (sortKey : ℤ) (hfuel : cells.length ≤ fuel) :
    ∃ s', s.sortedInsert fuel element item sortKey = .ok s' ∧
      s'.HasCells (insertByTime (fun c => c.2.2) (element, item, sortKey) cells) := by
  obtain ⟨h, hnew⟩ := h.alloc hfree item sortKey
  unfold LinkedList.sortedInsert
  match cells with
  | [] =>
    rw [if_pos (h.isEmpty_eq.mpr rfl)]
    exact ⟨_, rfl, only hnew⟩
  | (a, y) :: cells =>
    obtain ⟨hfirst, f, hf, hy, -⟩ := h.chain
    have hkey : f.key = y.2 := congrArg Prod.snd hy
    rw [if_neg (by simp [h.isEmpty_eq]), hfirst, load_some hf, ok_bind, hkey]
    unfold insertByTime
    by_cases hlt : sortKey < y.2
    · obtain ⟨s', hset, hcells⟩ := h.front hnew
      rw [hfirst] at hset
      rw [if_pos hlt, if_pos hlt, hset]
      exact ⟨_, rfl, hcells⟩
    · rw [if_neg hlt, if_neg hlt]
      have hlength : cells.length < fuel := by simpa using hfuel
      have hwalk : (s.alloc element item sortKey).HasCells ([] ++ (a, y) :: cells) := h
      exact hwalk.walk hnew hlength

/-- **`SortedRemove`** takes the first element, and deletes it. -/
theorem sortedRemove (h : s.HasCells cells) :
    ∃ s', s.sortedRemove = .ok (cells.head?.map Prod.snd, s') ∧ s'.HasCells cells.tail := by
  unfold LinkedList.sortedRemove
  match cells with
  | [] =>
    rw [h.first_eq_none_iff.mpr rfl]
    exact ⟨s, rfl, h⟩
  | (a, y) :: cells =>
    obtain ⟨hfirst, e, he, hy, hrest⟩ := h.chain
    have hne : ∀ z ∈ [] ++ cells, z.1 ≠ a := Chain.ne_of_mem h.chain
    rw [List.nil_append] at hne
    rw [hfirst]
    simp only [load_some he, ok_bind, hy, pure_eq_ok]
    rcases List.eq_nil_or_concat cells with rfl | ⟨l, ⟨b, z⟩, rfl⟩
    · have hlast : s.last = some a := by simp [h.last_eq]
      rw [if_pos hlast.symm]
      exact ⟨_, rfl, rfl, rfl⟩
    · rw [List.concat_eq_append] at h hne hrest ⊢
      have hlast : s.last = some b := last_concat (l := (a, y) :: l) h
      have hba : a ≠ b := (hne (b, z) (by simp)).symm
      rw [if_neg (by simpa [hlast] using hba)]
      refine ⟨_, rfl, hrest.congr fun w hw => Function.update_of_ne (hne w hw) .., ?_⟩
      simp [hlast]

theorem remove (h : s.HasCells cells) :
    ∃ s', s.remove = .ok (cells.head?.map fun c => c.2.1, s') ∧ s'.HasCells cells.tail := by
  obtain ⟨s', hremove, hcells⟩ := h.sortedRemove
  refine ⟨s', ?_, hcells⟩
  rw [LinkedList.remove, hremove]
  cases cells <;> rfl

end HasCells

end LinkedList

/-! ## Calls -/

/-- The functions, with the address that `new` returns. -/
inductive ListCall (α : Type)
  | append (element : ℕ) (item : α)
  | prepend (element : ℕ) (item : α)
  | remove
  | sortedInsert (element : ℕ) (item : α) (sortKey : ℤ)
  | sortedRemove

/-- What they return. -/
inductive ListAnswer (α : Type)
  | void
  | item (thing : Option α)
  | sorted (thing : Option (α × ℤ))

namespace LinkedList

/-- A call, at the end of those that have been answered. -/
def step (fuel : ℕ) (s : LinkedList α × List (ListAnswer α)) :
    ListCall α → Except ListFault (LinkedList α × List (ListAnswer α))
  | .append element item => do return (← s.1.append element item, s.2 ++ [.void])
  | .prepend element item => do return (← s.1.prepend element item, s.2 ++ [.void])
  | .remove => do
    let (thing, list) ← s.1.remove
    return (list, s.2 ++ [.item thing])
  | .sortedInsert element item sortKey => do
    return (← s.1.sortedInsert fuel element item sortKey, s.2 ++ [.void])
  | .sortedRemove => do
    let (thing, list) ← s.1.sortedRemove
    return (list, s.2 ++ [.sorted thing])

/-- `new` returns memory that is free. -/
def Free (s : LinkedList α × List (ListAnswer α)) : ListCall α → Prop
  | .append element _ | .prepend element _ | .sortedInsert element _ _ =>
    s.1.memory element = none
  | .remove | .sortedRemove => True

end LinkedList

/-- The calls on a sequence of items with their keys, and what they return. -/
def sequenceStep (s : List (α × ℤ) × List (ListAnswer α)) :
    ListCall α → List (α × ℤ) × List (ListAnswer α)
  | .append _ item => (s.1 ++ [(item, 0)], s.2 ++ [.void])
  | .prepend _ item => ((item, 0) :: s.1, s.2 ++ [.void])
  | .remove => (s.1.tail, s.2 ++ [.item (s.1.head?.map Prod.fst)])
  | .sortedInsert _ item sortKey =>
    (insertByTime Prod.snd (item, sortKey) s.1, s.2 ++ [.void])
  | .sortedRemove => (s.1.tail, s.2 ++ [.sorted s.1.head?])

namespace LinkedList

variable {s : LinkedList α × List (ListAnswer α)} {seq : List (α × ℤ) × List (ListAnswer α)}
  {call : ListCall α} {calls : List (ListCall α)} {fuel : ℕ}

/-- The list has the items of a sequence, and has answered what is answered on it. -/
def Represents (s : LinkedList α × List (ListAnswer α))
    (seq : List (α × ℤ) × List (ListAnswer α)) : Prop :=
  s.2 = seq.2 ∧ ∃ cells, s.1.HasCells cells ∧ cells.map Prod.snd = seq.1

theorem length_sequenceStep (seq : List (α × ℤ) × List (ListAnswer α)) (call : ListCall α) :
    (sequenceStep seq call).1.length ≤ seq.1.length + 1 := by
  cases call with
  | sortedInsert element item sortKey =>
    exact ((perm_insertByTime Prod.snd (item, sortKey) seq.1).length_eq).le
  | append | prepend | remove | sortedRemove => simp [sequenceStep] <;> omega

/-- One call. -/
theorem Represents.step (h : Represents s seq) (hfree : Free s call) (hfuel : seq.1.length ≤ fuel) :
    ∃ s', step fuel s call = .ok s' ∧ Represents s' (sequenceStep seq call) := by
  obtain ⟨hanswers, cells, hcells, hitems⟩ := h
  have htail : cells.tail.map Prod.snd = seq.1.tail := by rw [← hitems, List.map_tail]
  cases call with
  | append element item =>
    obtain ⟨list, hcall, hcells'⟩ := hcells.append hfree item
    refine ⟨_, by rw [LinkedList.step, hcall]; rfl, ?_, _, hcells', ?_⟩
    · simp [sequenceStep, hanswers]
    · simp [sequenceStep, hitems]
  | prepend element item =>
    obtain ⟨list, hcall, hcells'⟩ := hcells.prepend hfree item
    refine ⟨_, by rw [LinkedList.step, hcall]; rfl, ?_, _, hcells', ?_⟩
    · simp [sequenceStep, hanswers]
    · simp [sequenceStep, hitems]
  | remove =>
    obtain ⟨list, hcall, hcells'⟩ := hcells.remove
    refine ⟨_, by rw [LinkedList.step, hcall]; rfl, ?_, _, hcells', htail⟩
    simp [sequenceStep, hanswers, ← hitems, Function.comp_def]
  | sortedInsert element item sortKey =>
    have hlength : cells.length ≤ fuel := by simpa [← hitems] using hfuel
    obtain ⟨list, hcall, hcells'⟩ := hcells.sortedInsert hfree item sortKey hlength
    refine ⟨_, by rw [LinkedList.step, hcall]; rfl, ?_, _, hcells', ?_⟩
    · simp [sequenceStep, hanswers]
    · show _ = insertByTime Prod.snd (item, sortKey) seq.1
      rw [← hitems]
      exact map_insertByTime Prod.snd Prod.snd _ _
  | sortedRemove =>
    obtain ⟨list, hcall, hcells'⟩ := hcells.sortedRemove
    refine ⟨_, by rw [LinkedList.step, hcall]; rfl, ?_, _, hcells', htail⟩
    simp [sequenceStep, hanswers, ← hitems]

/-- Many calls, by induction on their list: as many tests as there have been calls are enough for
    the loop of `SortedInsert`. -/
theorem Represents.exec (h : Represents s seq) (hfree : Guarded (LinkedList.step fuel) Free s calls)
    (hfuel : seq.1.length + calls.length ≤ fuel) :
    ∃ s', Lib.exec (LinkedList.step fuel) s calls = .ok s' ∧
      Represents s' (calls.foldl sequenceStep seq) ∧
      (calls.foldl sequenceStep seq).1.length ≤ fuel := by
  induction calls generalizing s seq with
  | nil => exact ⟨s, rfl, h, by simpa using hfuel⟩
  | cons call calls ih =>
    have hlength := length_sequenceStep seq call
    rw [List.length_cons] at hfuel
    obtain ⟨s₁, hstep, h₁⟩ := h.step hfree.1 (show seq.1.length ≤ fuel by omega)
    obtain ⟨s₂, hexec, h₂⟩ := ih h₁ (hfree.2 s₁ hstep) (by omega)
    exact ⟨s₂, by rw [exec_cons_ok hstep, hexec], h₂⟩

/-- Calls from the constructor on. -/
theorem represents_exec (memory : ℕ → Option (ListElement α))
    (hfree : Guarded (LinkedList.step fuel) Free (new memory, []) calls)
    (hfuel : calls.length ≤ fuel) :
    ∃ s', exec (LinkedList.step fuel) (new memory, []) calls = .ok s' ∧
      Represents s' (calls.foldl sequenceStep ([], [])) ∧
      (calls.foldl sequenceStep ([], [])).1.length ≤ fuel :=
  Represents.exec ⟨rfl, [], hasCells_new memory, rfl⟩ hfree (by simpa using hfuel)

/-- **`SortedInsert`** into a sorted list keeps it sorted, with the new item behind all items of the
    same key. -/
theorem Represents.sortedInsert (h : Represents s seq) {element : ℕ}
    (hfree : s.1.memory element = none) (hfuel : seq.1.length ≤ fuel)
    (hsorted : seq.1.Pairwise fun x y => x.2 ≤ y.2) (item : α) (sortKey : ℤ) :
    ∃ list cells l₁ l₂, s.1.sortedInsert fuel element item sortKey = .ok list ∧
      list.HasCells cells ∧ seq.1 = l₁ ++ l₂ ∧
      cells.map Prod.snd = l₁ ++ (item, sortKey) :: l₂ ∧
      (l₁ ++ (item, sortKey) :: l₂).Pairwise (fun x y => x.2 ≤ y.2) ∧
      (∀ y ∈ l₁, y.2 ≤ sortKey) ∧ ∀ y ∈ l₂, sortKey < y.2 := by
  obtain ⟨-, cells, hcells, hitems⟩ := h
  obtain ⟨list, hcall, hcells'⟩ :=
    hcells.sortedInsert hfree item sortKey (by simpa [← hitems] using hfuel)
  obtain ⟨l₁, l₂, heq, hinsert, hbefore, hbehind⟩ :=
    insertByTime_eq_append hsorted (item, sortKey)
  have hpairwise := pairwise_insertByTime hsorted (item, sortKey)
  have hmap := map_insertByTime Prod.snd Prod.snd (element, item, sortKey) cells
  rw [hinsert] at hpairwise
  rw [hitems, hinsert] at hmap
  exact ⟨list, _, l₁, l₂, hcall, hcells', heq, hmap, hpairwise, hbefore, hbehind⟩

/-- **A list is a sequence.** Whatever other elements the memory has, calls from the constructor on
    answer as they do on a sequence that is empty at first. Afterwards the chain from `first` on has
    the items of the sequence and ends at `last`, and both are `NULL` exactly when it is empty; and
    `SortedInsert` keeps it sorted, with the new item behind all items of the same key. -/
theorem list_is_sequence (memory : ℕ → Option (ListElement α))
    (hfree : Guarded (LinkedList.step fuel) Free (new memory, []) calls)
    (hfuel : calls.length ≤ fuel) :
    ∃ s seq cells, exec (LinkedList.step fuel) (new memory, []) calls = .ok s ∧
      calls.foldl sequenceStep ([], []) = (seq, s.2) ∧
      Chain ListElement.next (fun e => (e.item, e.key)) s.1.memory s.1.first cells ∧
      s.1.last = (cells.map Prod.fst).getLast? ∧
      cells.map Prod.snd = seq ∧
      (s.1.first = none ↔ seq = []) ∧ (s.1.last = none ↔ seq = []) ∧
      (seq.Pairwise (fun x y => x.2 ≤ y.2) →
        ∀ element item sortKey, s.1.memory element = none →
          ∃ list cells l₁ l₂, s.1.sortedInsert fuel element item sortKey = .ok list ∧
            list.HasCells cells ∧ seq = l₁ ++ l₂ ∧
            cells.map Prod.snd = l₁ ++ (item, sortKey) :: l₂ ∧
            (l₁ ++ (item, sortKey) :: l₂).Pairwise (fun x y => x.2 ≤ y.2) ∧
            (∀ y ∈ l₁, y.2 ≤ sortKey) ∧ ∀ y ∈ l₂, sortKey < y.2) := by
  obtain ⟨s, hexec, h, hlength⟩ := represents_exec memory hfree hfuel
  obtain ⟨hanswers, cells, hcells, hitems⟩ := id h
  have hempty : (calls.foldl sequenceStep ([], [])).1 = [] ↔ cells = [] := by
    rw [← hitems, List.map_eq_nil_iff]
  refine ⟨s, _, cells, hexec, Prod.ext rfl hanswers.symm, hcells.chain, hcells.last_eq, hitems,
    hcells.first_eq_none_iff.trans hempty.symm, hcells.last_eq_none_iff.trans hempty.symm, ?_⟩
  intro hsorted element item sortKey hnew
  exact h.sortedInsert hnew hlength hsorted item sortKey

instance (s : LinkedList α × List (ListAnswer α)) : DecidablePred (Free s)
  | .append element _ | .prepend element _ | .sortedInsert element _ _ =>
    inferInstanceAs (Decidable (s.1.memory element = none))
  | .remove | .sortedRemove => .isTrue trivial

/-- The element of a removed item is used again, for an item that goes to the front. -/
theorem list_is_sequence_reused :
    ∃ s cells, exec (LinkedList.step 5) (new fun _ => none, [])
        [.sortedInsert 0 'a' 5, .sortedInsert 1 'b' 5, .sortedRemove, .sortedInsert 0 'c' 3,
          .sortedInsert 2 'd' 5] = .ok s ∧
      s.1.HasCells cells ∧ cells.map Prod.snd = [('c', 3), ('b', 5), ('d', 5)] := by
  have hfree : Guarded (LinkedList.step 5) Free (new fun _ => none, [])
      [.sortedInsert 0 'a' 5, .sortedInsert 1 'b' 5, .sortedRemove, .sortedInsert 0 'c' 3,
        .sortedInsert 2 'd' 5] := by decide
  obtain ⟨s, seq, cells, hexec, hseq, hchain, hlast, hitems, -⟩ :=
    list_is_sequence _ hfree (by decide)
  exact ⟨s, cells, hexec, ⟨hchain, hlast⟩, hitems.trans (congrArg Prod.fst hseq).symm⟩

end LinkedList

end Nachos.Threads
