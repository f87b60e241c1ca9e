import Nachos.Lib.Run
import Nachos.Userprog.BitMap

/-!
# Open files

The file table of an address space (`class Table`, `userprog/addrspace.cc`), and the system calls
`Open` and `Close` of the threads of a process. `Put` takes an id under its lock, and stores the file
after it has released the lock, so other calls come between. An open file is a number, new for every
`Open`.

* `ids_safe_iff`: the ids are safe in the runs in which `Close` is never called with a console id, or
  with an id that a `Put` has just taken.
-/

namespace Nachos.Userprog

open Nachos.Lib

/-! ## The table -/

/-- addrspace.h:26. -/
abbrev MaxOpenFiles : ℕ := 256

/-- `class Table` (table.h) of `OpenFile *`, with `none` for `NULL`. -/
structure FileTable where
  map : BitMap
  table : ℕ → Option ℕ

namespace FileTable

/-- The constructor (addrspace.cc:27). The array is not initialised. -/
def new (memory : ℕ → Option ℕ) : FileTable := ⟨.new MaxOpenFiles, memory⟩

/-- `Get` (addrspace.cc:47). -/
def get (t : FileTable) (i : ℤ) : Option ℕ :=
  if 0 ≤ i ∧ i < MaxOpenFiles ∧ t.map.map i.toNat = true then t.table i.toNat else none

/-- The first part of `Put` (addrspace.cc:55), under the lock. -/
def take (t : FileTable) : Option (ℕ × FileTable) :=
  t.map.find.map fun (i, map) => (i, { t with map := map })

/-- The second part of `Put`. -/
def store (t : FileTable) (i : ℕ) (f : Option ℕ) : FileTable :=
  { t with table := Function.update t.table i f }

/-- `Remove` (addrspace.cc:71). -/
def remove (t : FileTable) (i : ℤ) : Option ℕ × FileTable :=
  if 0 ≤ i ∧ i < MaxOpenFiles ∧ t.map.map i.toNat = true then
    (t.table i.toNat, ⟨t.map.clear i.toNat, Function.update t.table i.toNat none⟩)
  else (none, t)

/-- `Put(0)`, when no other thread uses the table. -/
def putNull (t : FileTable) : FileTable :=
  match t.take with
  | none => t
  | some (i, t) => t.store i none

/-- The table of a new address space (addrspace.cc:135). -/
def ofSpace (memory : ℕ → Option ℕ) : FileTable := (new memory).putNull.putNull

end FileTable

/-! ## Histories -/

/-- What a call has done. -/
inductive FileEvent
  /-- `Open` returns the id. -/
  | opened (id : ℤ) (f : ℕ)
  /-- `Close` of an open id. -/
  | closed (id : ℤ)
  /-- `Close` of another int, with the table before and after. -/
  | refused (id : ℤ) (before after : FileTable)
  /-- `delete f`. -/
  | deleted (f : ℕ)

/-- The files that are open after the event. -/
def FileEvent.openFiles (files : List (ℤ × ℕ)) : FileEvent → List (ℤ × ℕ)
  | .opened id f => (id, f) :: files
  | .closed id => files.filter fun x => x.1 ≠ id
  | .refused .. | .deleted _ => files

/-- The open files, as the calls and their answers say. -/
def openFiles (history : List FileEvent) : List (ℤ × ℕ) := history.foldl FileEvent.openFiles []

/-- The files that have been deleted. -/
def deletedFiles (history : List FileEvent) : List ℕ :=
  history.filterMap fun
    | .deleted f => some f
    | _ => none

/-! ## System calls -/

/-- What stops a step. -/
inductive FileFault
  /-- A length below -1: the buffer is written in front of its first byte, or it has no memory. -/
  | outside
  /-- There is no such `Put`. -/
  | impossible
  deriving DecidableEq

/-- The table of the process, and its threads that are in `Put` after the lock. -/
structure Files where
  fileTable : FileTable
  putting : List (ℕ × ℕ)
  /-- The number of the next `OpenFile`. -/
  next : ℕ
  history : List FileEvent

namespace Files

def new (memory : ℕ → Option ℕ) : Files := ⟨.ofSpace memory, [], 0, []⟩

/-- `Open_Syscall` (exception.cc:135), up to the end of the lock in `Put`; `found` says whether the
    file system has the file. A length of -1 is what `copyin` returns for a bad pointer. -/
def open_Syscall (s : Files) (len : ℤ) (found : Bool) : Except FileFault Files :=
  if len = -1 then .ok s
  else if len < 0 then .error .outside
  else if found then
    match s.fileTable.take with
    | none => .ok { s with next := s.next + 1, history := s.history ++ [.deleted s.next] }
    | some (i, t) =>
      .ok { s with fileTable := t, putting := (i, s.next) :: s.putting, next := s.next + 1 }
  else .ok s

/-- `Put` stores the file, and `Open` returns. -/
def finishOpen (s : Files) (k : ℕ) : Except FileFault Files :=
  match s.putting[k]? with
  | none => .error .impossible
  | some (i, f) =>
    .ok { s with
      fileTable := s.fileTable.store i (some f)
      putting := s.putting.eraseIdx k
      history := s.history ++ [.opened i f] }

/-- `Close_Syscall` (exception.cc:272). -/
def close_Syscall (s : Files) (fd : ℤ) : Files :=
  { s with
    fileTable := (s.fileTable.remove fd).2
    history := s.history ++
      (if fd ∈ (openFiles s.history).map Prod.fst then .closed fd
        else .refused fd s.fileTable (s.fileTable.remove fd).2) ::
      (s.fileTable.remove fd).1.toList.map FileEvent.deleted }

end Files

/-- What happens next. -/
inductive FileLabel
  | openFile (len : ℤ) (found : Bool)
  /-- The thread that is in `Put` at this place of the list goes on. -/
  | finish (k : ℕ)
  | close (fd : ℤ)

/-- A step of the process. -/
def fileStep (s : Files) : FileLabel → Except FileFault Files
  | .openFile len found => s.open_Syscall len found
  | .finish k => s.finishOpen k
  | .close fd => .ok (s.close_Syscall fd)

/-- **Safe ids**: `Open` returns ids from 2 on that were not open, `Get` yields the files that are
    open, no file is deleted twice, and `Close` of another int leaves the table. -/
structure IdsSafe (s : Files) : Prop where
  fresh : ∀ pre post id f, s.history = pre ++ .opened id f :: post →
    2 ≤ id ∧ id ∉ (openFiles pre).map Prod.fst
  get : ∀ id f, (id, f) ∈ openFiles s.history → s.fileTable.get id = some f
  once : (deletedFiles s.history).Nodup
  refused : ∀ id before after, .refused id before after ∈ s.history → after = before

/-- `Close` is not called with a console id, or with an id that a `Put` has just taken. -/
def ClosesOpen (s : Files) : FileLabel → Prop
  | .close fd => fd ≠ 0 ∧ fd ≠ 1 ∧ ∀ x ∈ s.putting, fd ≠ x.1
  | _ => True

instance (s : Files) (l : FileLabel) : Decidable (ClosesOpen s l) := by
  cases l <;> unfold ClosesOpen <;> infer_instance

/-! ## The invariant -/

namespace Files

/-- The ids that are not free, but for the console. -/
def taken (s : Files) : List ℤ :=
  s.putting.map (fun x => (x.1 : ℤ)) ++ (openFiles s.history).map Prod.fst

/-- The files that `Open` has found. -/
def found (s : Files) : List ℕ :=
  deletedFiles s.history ++ (s.putting.map Prod.snd ++ (openFiles s.history).map Prod.snd)

end Files

/-- The bits are those of the console and of the ids, and every file is in one place. -/
structure FilesInv (s : Files) : Prop where
  numBits : s.fileTable.map.numBits = MaxOpenFiles
  lt : ∀ i, s.fileTable.map.map i = true → i < MaxOpenFiles
  bits : ∀ i : ℕ, s.fileTable.map.map i = true ↔ i < 2 ∨ (i : ℤ) ∈ s.taken
  two_le : ∀ id ∈ s.taken, 2 ≤ id
  distinct : s.taken.Nodup
  files : s.found.Nodup
  next : ∀ f ∈ s.found, f < s.next
  safe : IdsSafe s

section

variable {history events : List FileEvent} {e : FileEvent} {s s' : Files} {id fd : ℤ} {i f k : ℕ}

theorem openFiles_append : openFiles (history ++ events) =
    events.foldl FileEvent.openFiles (openFiles history) := List.foldl_append

theorem deletedFiles_append : deletedFiles (history ++ events) =
    deletedFiles history ++ deletedFiles events := List.filterMap_append

/-- One more event is an `Open` with a new id, or none. -/
theorem fresh_concat
    (h : ∀ pre post id f, history = pre ++ .opened id f :: post →
      2 ≤ id ∧ id ∉ (openFiles pre).map Prod.fst)
    (he : ∀ id f, e = .opened id f → 2 ≤ id ∧ id ∉ (openFiles history).map Prod.fst) :
    ∀ pre post id f, history ++ [e] = pre ++ .opened id f :: post →
      2 ≤ id ∧ id ∉ (openFiles pre).map Prod.fst := by
  intro pre post id f heq
  obtain rfl | ⟨post, x, rfl⟩ := List.eq_nil_or_concat post
  · obtain ⟨rfl, hlast⟩ := List.append_inj' heq rfl
    cases hlast
    exact he id f rfl
  · rw [List.concat_eq_append, ← List.cons_append, ← List.append_assoc] at heq
    exact h pre post id f (List.append_inj' heq rfl).1

/-! ## Steps -/

/-- The bit of an id. -/
theorem get_eq (h : 0 ≤ id) (hlt : id < MaxOpenFiles) (t : FileTable) :
    t.get id = if t.map.map id.toNat = true then t.table id.toNat else none := by
  unfold FileTable.get
  simp only [h, hlt, true_and]

theorem take_eq_some {t t' : FileTable} (h : t.take = some (i, t')) :
    i < t.map.numBits ∧ t.map.map i = false ∧ t' = { t with map := t.map.mark i } := by
  obtain ⟨⟨j, map⟩, hfind, heq⟩ := Option.map_eq_some_iff.mp h
  cases heq
  obtain ⟨hlt, hclear, -, rfl⟩ := BitMap.find_eq_some hfind
  exact ⟨hlt, hclear, rfl⟩

/-- `Open` takes a free id, or deletes the file again. -/
theorem FilesInv.open_Syscall (h : FilesInv s) {len : ℤ} {found : Bool}
    (hstep : s.open_Syscall len found = .ok s') : FilesInv s' := by
  unfold Files.open_Syscall at hstep
  split_ifs at hstep with hbad hlen hfound
  · cases hstep
    exact h
  · split at hstep
    · cases hstep
      have hopen : openFiles (s.history ++ [FileEvent.deleted s.next]) = openFiles s.history := by
        rw [openFiles_append]
        rfl
      have hdeleted : deletedFiles (s.history ++ [FileEvent.deleted s.next]) =
          deletedFiles s.history ++ [s.next] := by
        rw [deletedFiles_append]
        rfl
      have hnot : s.next ∉ s.found := fun hmem => lt_irrefl _ (h.next _ hmem)
      have hnodup : (deletedFiles s.history ++ s.next ::
          (s.putting.map Prod.snd ++ (openFiles s.history).map Prod.snd)).Nodup := by
        rw [List.nodup_middle, List.nodup_cons]
        exact ⟨hnot, h.files⟩
      refine ⟨h.numBits, h.lt, ?_, ?_, ?_, ?_, ?_, ?_⟩
      · intro i
        unfold Files.taken
        simp only [hopen]
        exact h.bits i
      · unfold Files.taken
        simp only [hopen]
        exact h.two_le
      · unfold Files.taken
        simp only [hopen]
        exact h.distinct
      · unfold Files.found
        simp only [hopen, hdeleted]
        rw [List.append_assoc]
        exact hnodup
      · intro f hf
        unfold Files.found at hf
        simp only [hopen, hdeleted, List.append_assoc, List.mem_append, List.mem_singleton] at hf
        have := h.next f
        unfold Files.found at this
        simp only [List.mem_append] at this
        show f < s.next + 1
        grind
      · refine ⟨?_, ?_, ?_, ?_⟩
        · apply fresh_concat h.safe.fresh
          intro _ _ heq
          cases heq
        · simp only [hopen]
          exact h.safe.get
        · simp only [hdeleted]
          exact hnodup.sublist (by simp)
        · intro id before after hmem
          simp only [List.mem_append, List.mem_singleton, reduceCtorEq, or_false] at hmem
          exact h.safe.refused id before after hmem
    · rename_i i t htake
      cases hstep
      obtain ⟨hlt, hclear, rfl⟩ := take_eq_some htake
      have hfree : ¬(i < 2 ∨ (i : ℤ) ∈ s.taken) := by
        rw [← h.bits, hclear]
        exact Bool.false_ne_true
      rw [not_or] at hfree
      have hnot : s.next ∉ s.found := fun hmem => lt_irrefl _ (h.next _ hmem)
      refine ⟨h.numBits, ?_, ?_, ?_, ?_, ?_, ?_, ?_⟩
      · intro j hj
        by_cases hji : j = i
        · rw [hji, ← h.numBits]
          exact hlt
        · simp only [BitMap.map_mark_of_ne hji] at hj
          exact h.lt j hj
      · intro j
        show (s.fileTable.map.mark i).map j = true ↔ j < 2 ∨ (j : ℤ) ∈ (i : ℤ) :: s.taken
        rw [List.mem_cons]
        by_cases hji : j = i
        · subst hji
          simp
        · rw [BitMap.map_mark_of_ne hji, h.bits]
          have hne : (j : ℤ) ≠ i := by exact_mod_cast hji
          simp [hne]
      · intro id hid
        obtain rfl | hid := List.mem_cons.mp (show id ∈ (i : ℤ) :: s.taken from hid)
        · omega
        · exact h.two_le id hid
      · exact List.nodup_cons.mpr ⟨hfree.2, h.distinct⟩
      · show (deletedFiles s.history ++ s.next ::
          (s.putting.map Prod.snd ++ (openFiles s.history).map Prod.snd)).Nodup
        rw [List.nodup_middle, List.nodup_cons]
        exact ⟨hnot, h.files⟩
      · intro f hf
        have hf' : f ∈ deletedFiles s.history ++ s.next ::
          (s.putting.map Prod.snd ++ (openFiles s.history).map Prod.snd) := hf
        have := h.next f
        unfold Files.found at this
        show f < s.next + 1
        grind
      · refine ⟨h.safe.fresh, ?_, h.safe.once, h.safe.refused⟩
        intro id f hf
        have hget := h.safe.get id f hf
        unfold FileTable.get at hget ⊢
        split_ifs at hget with hbit
        have hne : id.toNat ≠ i := by
          rintro rfl
          rw [hclear] at hbit
          exact absurd hbit.2.2 Bool.false_ne_true
        simp only [BitMap.map_mark_of_ne hne]
        rw [if_pos hbit]
        exact hget
  · cases hstep
    exact h

/-- The file is stored, and its id goes from the `Put` to the open files. -/
theorem FilesInv.finishOpen (h : FilesInv s) (hstep : s.finishOpen k = .ok s') : FilesInv s' := by
  unfold Files.finishOpen at hstep
  split at hstep
  · cases hstep
  · rename_i i f hk
    cases hstep
    have hperm : ((i, f) :: s.putting.eraseIdx k).Perm s.putting := by
      obtain ⟨hlt, hget⟩ := List.getElem?_eq_some_iff.mp hk
      rw [← hget]
      exact List.getElem_cons_eraseIdx_perm hlt
    have hopen : openFiles (s.history ++ [FileEvent.opened i f]) =
        ((i : ℤ), f) :: openFiles s.history := by
      rw [openFiles_append]
      rfl
    have hdeleted : deletedFiles (s.history ++ [FileEvent.opened i f]) = deletedFiles s.history := by
      rw [deletedFiles_append]
      exact List.append_nil _
    have htaken : ((s.putting.eraseIdx k).map (fun x => (x.1 : ℤ)) ++
        (i : ℤ) :: (openFiles s.history).map Prod.fst).Perm s.taken := by
      apply List.perm_middle.trans
      rw [← List.cons_append]
      exact (hperm.map fun x => (x.1 : ℤ)).append_right _
    have hfound : (deletedFiles s.history ++ ((s.putting.eraseIdx k).map Prod.snd ++
        f :: (openFiles s.history).map Prod.snd)).Perm s.found := by
      apply List.Perm.append_left
      apply List.perm_middle.trans
      rw [← List.cons_append]
      exact (hperm.map Prod.snd).append_right _
    have hmem : (i : ℤ) ∈ s.taken := htaken.mem_iff.mp (by simp)
    have hnew : (i : ℤ) ∉ (openFiles s.history).map Prod.fst := by
      have hnodup := htaken.nodup_iff.mpr h.distinct
      rw [List.nodup_append] at hnodup
      exact (List.nodup_cons.mp hnodup.2.1).1
    refine ⟨h.numBits, h.lt, ?_, ?_, ?_, ?_, ?_, ?_⟩
    · intro j
      unfold Files.taken
      simp only [hopen, List.map_cons]
      rw [htaken.mem_iff]
      exact h.bits j
    · unfold Files.taken
      simp only [hopen, List.map_cons]
      intro id hid
      exact h.two_le id (htaken.mem_iff.mp hid)
    · unfold Files.taken
      simp only [hopen, List.map_cons]
      exact htaken.nodup_iff.mpr h.distinct
    · unfold Files.found
      simp only [hopen, hdeleted, List.map_cons]
      exact hfound.nodup_iff.mpr h.files
    · unfold Files.found
      simp only [hopen, hdeleted, List.map_cons]
      intro g hg
      exact h.next g (hfound.mem_iff.mp hg)
    · refine ⟨?_, ?_, ?_, ?_⟩
      · apply fresh_concat h.safe.fresh
        intro id g heq
        cases heq
        exact ⟨h.two_le _ hmem, hnew⟩
      · intro id g hg
        simp only [hopen, List.mem_cons, Prod.mk.injEq] at hg
        obtain ⟨rfl, rfl⟩ | hg := hg
        · have hbit : s.fileTable.map.map i = true := (h.bits i).mpr (.inr hmem)
          have hlt := h.lt i hbit
          rw [get_eq (by omega) (by omega)]
          simp [FileTable.store, hbit]
        · have hne : id ≠ i := by
            rintro rfl
            exact hnew (List.mem_map_of_mem hg)
          have hget := h.safe.get id g hg
          unfold FileTable.get at hget ⊢
          split_ifs at hget with hbit
          have hne' : id.toNat ≠ i := by omega
          simp only [FileTable.store, Function.update_of_ne hne']
          rw [if_pos hbit]
          exact hget
      · simp only [hdeleted]
        exact h.safe.once
      · intro id before after hmem
        simp only [List.mem_append, List.mem_singleton, reduceCtorEq, or_false] at hmem
        exact h.safe.refused id before after hmem

/-- The file that is removed, and the table without it. -/
theorem remove_of_bit (t : FileTable) (hi : i < MaxOpenFiles) (hbit : t.map.map i = true) :
    t.remove i = (t.table i, ⟨t.map.clear i, Function.update t.table i none⟩) := by
  unfold FileTable.remove
  rw [if_pos ⟨by omega, by omega, by simpa using hbit⟩]
  simp

theorem remove_of_clear (t : FileTable)
    (hclear : ¬(0 ≤ fd ∧ fd < MaxOpenFiles ∧ t.map.map fd.toNat = true)) :
    t.remove fd = (none, t) := if_neg hclear

/-- The other files of a list with different ids. -/
theorem perm_cons_filter {l : List (ℤ × ℕ)} (hnodup : (l.map Prod.fst).Nodup) (h : (fd, f) ∈ l) :
    l.Perm ((fd, f) :: l.filter fun x => x.1 ≠ fd) := by
  induction l with
  | nil => cases h
  | cons x l ih =>
    rw [List.map_cons, List.nodup_cons] at hnodup
    by_cases hx : x.1 = fd
    · have hl : fd ∉ l.map Prod.fst := hx ▸ hnodup.1
      have hxf : x = (fd, f) := by
        obtain h | h := List.mem_cons.mp h
        · exact h.symm
        · exact absurd (List.mem_map_of_mem h) hl
      have hself : l.filter (fun x => decide (x.1 ≠ fd)) = l := by
        apply List.filter_eq_self.mpr
        intro y hy
        simp only [ne_eq, decide_eq_true_eq]
        rintro rfl
        exact hl (List.mem_map_of_mem hy)
      rw [List.filter_cons_of_neg (by simpa using hx), hself, hxf]
    · have hmem : (fd, f) ∈ l := by
        obtain h | h := List.mem_cons.mp h
        · exact absurd (congrArg Prod.fst h).symm hx
        · exact h
      rw [List.filter_cons_of_pos (by simpa using hx)]
      exact ((ih hnodup.2 hmem).cons x).trans (.swap ..)

/-- `Close` of an open id deletes its file. -/
theorem FilesInv.close_open (h : FilesInv s) (hopen : (fd, f) ∈ openFiles s.history) :
    FilesInv (s.close_Syscall fd) := by
  have hfd : fd ∈ (openFiles s.history).map Prod.fst := List.mem_map_of_mem hopen
  have htaken : fd ∈ s.taken := List.mem_append_right _ hfd
  have hdistinct := h.distinct
  unfold Files.taken at hdistinct
  rw [List.nodup_append] at hdistinct
  have hperm := perm_cons_filter hdistinct.2.1 hopen
  -- The bit of the id is set, and its place has the file.
  have hpos := h.two_le fd htaken
  obtain ⟨i, rfl⟩ : ∃ i : ℕ, fd = i := ⟨fd.toNat, by omega⟩
  have hbit : s.fileTable.map.map i = true := (h.bits i).mpr (.inr htaken)
  have hlt := h.lt i hbit
  have hremove := remove_of_bit s.fileTable hlt hbit
  have hget := h.safe.get _ _ hopen
  rw [get_eq (by omega) (by omega), if_pos (by simpa using hbit), Int.toNat_natCast] at hget
  have hclose : s.close_Syscall i = { s with
      fileTable := ⟨s.fileTable.map.clear i, Function.update s.fileTable.table i none⟩
      history := s.history ++ [.closed i, .deleted f] } := by
    unfold Files.close_Syscall
    rw [hremove, hget, if_pos hfd]
    rfl
  have hopen' : openFiles (s.history ++ [FileEvent.closed i, .deleted f]) =
      (openFiles s.history).filter fun x => x.1 ≠ (i : ℤ) := by
    rw [openFiles_append]
    rfl
  have hdeleted : deletedFiles (s.history ++ [FileEvent.closed i, .deleted f]) =
      deletedFiles s.history ++ [f] := by
    rw [deletedFiles_append]
    rfl
  have htaken' : s.taken.Perm (i :: (s.putting.map (fun x => (x.1 : ℤ)) ++
      ((openFiles s.history).filter fun x => x.1 ≠ (i : ℤ)).map Prod.fst)) := by
    refine ((hperm.map Prod.fst).append_left _).trans ?_
    exact List.perm_middle
  have hfound : s.found.Perm ((deletedFiles s.history ++ [f]) ++ (s.putting.map Prod.snd ++
      ((openFiles s.history).filter fun x => x.1 ≠ (i : ℤ)).map Prod.snd)) := by
    rw [List.append_assoc, List.singleton_append]
    apply List.Perm.append_left
    refine ((hperm.map Prod.snd).append_left _).trans ?_
    exact List.perm_middle
  have hnodup := htaken'.nodup_iff.mp h.distinct
  rw [List.nodup_cons] at hnodup
  have hnodup' := hfound.nodup_iff.mp h.files
  rw [hclose]
  refine ⟨h.numBits, ?_, ?_, ?_, ?_, ?_, ?_, ?_⟩
  · intro j hj
    by_cases hji : j = i
    · rw [hji]
      exact hlt
    · simp only [BitMap.map_clear_of_ne hji] at hj
      exact h.lt j hj
  · intro j
    unfold Files.taken
    simp only [hopen']
    by_cases hji : j = i
    · subst hji
      have := h.two_le _ htaken
      simp only [BitMap.map_clear_self, hnodup.1, or_false, Bool.false_eq_true, false_iff]
      omega
    · rw [BitMap.map_clear_of_ne hji, h.bits, htaken'.mem_iff, List.mem_cons]
      have hne : (j : ℤ) ≠ i := by exact_mod_cast hji
      simp only [hne, false_or]
  · unfold Files.taken
    simp only [hopen']
    intro id hid
    exact h.two_le id (htaken'.mem_iff.mpr (List.mem_cons_of_mem _ hid))
  · unfold Files.taken
    simp only [hopen']
    exact hnodup.2
  · unfold Files.found
    simp only [hopen', hdeleted]
    exact hnodup'
  · unfold Files.found
    simp only [hopen', hdeleted]
    intro g hg
    exact h.next g (hfound.mem_iff.mpr hg)
  · refine ⟨?_, ?_, ?_, ?_⟩
    · have hfresh := fresh_concat (e := .closed i) h.safe.fresh fun _ _ heq => by cases heq
      have := fresh_concat (e := .deleted f) hfresh fun _ _ heq => by cases heq
      simpa using this
    · intro id g hg
      simp only [hopen', List.mem_filter, ne_eq, decide_eq_true_eq] at hg
      have hget' := h.safe.get id g hg.1
      unfold FileTable.get at hget' ⊢
      split_ifs at hget' with hbit'
      have hne : id.toNat ≠ i := by omega
      simp only [BitMap.map_clear_of_ne hne, Function.update_of_ne hne]
      rw [if_pos hbit']
      exact hget'
    · simp only [hdeleted]
      exact hnodup'.sublist (List.sublist_append_left _ _)
    · intro id before after hmem
      simp only [List.mem_append, List.mem_cons, List.not_mem_nil, reduceCtorEq, or_false] at hmem
      exact h.safe.refused id before after hmem

/-- `Close` of an int that is nobody's id does nothing. -/
theorem FilesInv.close_other (h : FilesInv s) (hfd : fd ≠ 0 ∧ fd ≠ 1) (hnot : fd ∉ s.taken) :
    FilesInv (s.close_Syscall fd) := by
  have hclear : ¬(0 ≤ fd ∧ fd < MaxOpenFiles ∧ s.fileTable.map.map fd.toNat = true) := by
    rintro ⟨hpos, -, hbit⟩
    rw [h.bits, Int.toNat_of_nonneg hpos] at hbit
    obtain hlt | hmem := hbit
    · omega
    · exact hnot hmem
  have hclosed : fd ∉ (openFiles s.history).map Prod.fst :=
    fun hmem => hnot (List.mem_append_right _ hmem)
  have hclose : s.close_Syscall fd =
      { s with history := s.history ++ [.refused fd s.fileTable s.fileTable] } := by
    unfold Files.close_Syscall
    rw [remove_of_clear s.fileTable hclear, if_neg hclosed]
    rfl
  have hopen : openFiles (s.history ++ [FileEvent.refused fd s.fileTable s.fileTable]) =
      openFiles s.history := by
    rw [openFiles_append]
    rfl
  have hdeleted : deletedFiles (s.history ++ [FileEvent.refused fd s.fileTable s.fileTable]) =
      deletedFiles s.history := by
    rw [deletedFiles_append]
    exact List.append_nil _
  rw [hclose]
  refine ⟨h.numBits, h.lt, ?_, ?_, ?_, ?_, ?_, ?_⟩
  · unfold Files.taken
    simp only [hopen]
    exact h.bits
  · unfold Files.taken
    simp only [hopen]
    exact h.two_le
  · unfold Files.taken
    simp only [hopen]
    exact h.distinct
  · unfold Files.found
    simp only [hopen, hdeleted]
    exact h.files
  · unfold Files.found
    simp only [hopen, hdeleted]
    exact h.next
  · refine ⟨?_, ?_, ?_, ?_⟩
    · apply fresh_concat h.safe.fresh
      intro _ _ heq
      cases heq
    · simp only [hopen]
      exact h.safe.get
    · simp only [hdeleted]
      exact h.safe.once
    · intro id before after hmem
      simp only [List.mem_append, List.mem_singleton, FileEvent.refused.injEq] at hmem
      obtain hmem | ⟨-, rfl, rfl⟩ := hmem
      · exact h.safe.refused id before after hmem
      · rfl

/-- `Close` of any other int frees an id that is in use. -/
theorem FilesInv.close_taken (h : FilesInv s) (hbit : s.fileTable.map.map i = true)
    (hclosed : (i : ℤ) ∉ (openFiles s.history).map Prod.fst) :
    ¬IdsSafe (s.close_Syscall i) := by
  intro hsafe
  have hremove := remove_of_bit s.fileTable (h.lt i hbit) hbit
  have hmem : FileEvent.refused i s.fileTable (s.fileTable.remove i).2 ∈
      (s.close_Syscall i).history := by
    unfold Files.close_Syscall
    simp only [if_neg hclosed]
    simp
  have hsame := hsafe.refused _ _ _ hmem
  have hmap := congrArg (fun t => t.map.map i) hsame
  rw [hremove] at hmap
  simp only [BitMap.map_clear_self, hbit] at hmap
  cases hmap

end

variable {s s' : Files} {l : FileLabel} {i : ℕ}

/-- **Such a step** keeps the ids safe. -/
theorem filesInv_of_fileStep (h : FilesInv s) (hl : ClosesOpen s l)
    (hstep : fileStep s l = .ok s') : FilesInv s' := by
  cases l with
  | openFile len found => exact h.open_Syscall hstep
  | finish k => exact h.finishOpen hstep
  | close fd =>
    cases hstep
    obtain ⟨hzero, hone, hputting⟩ := hl
    by_cases hopen : fd ∈ (openFiles s.history).map Prod.fst
    · obtain ⟨⟨id, f⟩, hmem, rfl⟩ := List.mem_map.mp hopen
      exact h.close_open hmem
    · apply h.close_other ⟨hzero, hone⟩
      intro htaken
      obtain hput | hmem := List.mem_append.mp htaken
      · obtain ⟨x, hx, rfl⟩ := List.mem_map.mp hput
        exact hputting x hx rfl
      · exact hopen hmem

/-- Any other step is not safe. -/
theorem not_idsSafe_of_fileStep (h : FilesInv s) (hl : ¬ClosesOpen s l)
    (hstep : fileStep s l = .ok s') : ¬IdsSafe s' := by
  cases l with
  | openFile len found => exact absurd trivial hl
  | finish k => exact absurd trivial hl
  | close fd =>
    cases hstep
    have hconsole : ∀ i : ℕ, i < 2 → ¬IdsSafe (s.close_Syscall i) := by
      intro i hi
      apply h.close_taken ((h.bits i).mpr (.inl hi))
      intro hmem
      have := h.two_le i (List.mem_append_right _ hmem)
      omega
    unfold ClosesOpen at hl
    simp only [not_and_or, not_forall, ne_eq, not_not] at hl
    obtain rfl | rfl | ⟨x, hx, rfl⟩ := hl
    · exact hconsole 0 (by omega)
    · exact hconsole 1 (by omega)
    · have hmem : (x.1 : ℤ) ∈ s.putting.map fun x => (x.1 : ℤ) := List.mem_map_of_mem hx
      apply h.close_taken ((h.bits x.1).mpr (.inr (List.mem_append_left _ hmem)))
      intro hopen
      have hdistinct := h.distinct
      unfold Files.taken at hdistinct
      rw [List.nodup_append] at hdistinct
      exact hdistinct.2.2 _ hmem _ hopen rfl

/-- `Find` takes the first bit. -/
theorem take_of_first {t : FileTable} (hlt : i < t.map.numBits)
    (hset : ∀ j < i, t.map.map j = true) (hclear : t.map.map i = false) :
    t.take = some (i, { t with map := t.map.mark i }) := by
  unfold FileTable.take
  cases hfind : t.map.find with
  | none =>
    rw [BitMap.find_eq_none hfind hlt] at hclear
    cases hclear
  | some x =>
    obtain ⟨j, map⟩ := x
    obtain ⟨-, hj, hbefore, rfl⟩ := BitMap.find_eq_some hfind
    have hji : j = i := by
      obtain h | h | h := lt_trichotomy j i
      · rw [hset j h] at hj
        cases hj
      · exact h
      · rw [hbefore i h] at hclear
        cases hclear
    subst hji
    rfl

/-- The console has the ids 0 and 1. -/
theorem map_ofSpace (memory : ℕ → Option ℕ) :
    (FileTable.ofSpace memory).map = ((BitMap.new MaxOpenFiles).mark 0).mark 1 := by
  have hzero : (FileTable.new memory).take = _ :=
    take_of_first (i := 0) (by simp [FileTable.new, BitMap.new]) (by simp) rfl
  have hset : ∀ j < 1, ((BitMap.new MaxOpenFiles).mark 0).map j = true := by
    intro j hj
    rw [Nat.lt_one_iff.mp hj]
    exact BitMap.map_mark_self
  have hone := take_of_first
    (t := ⟨(BitMap.new MaxOpenFiles).mark 0, Function.update memory 0 none⟩)
    (by simp [BitMap.new]) hset (BitMap.map_mark_of_ne one_ne_zero)
  have hput : (FileTable.new memory).putNull =
      ⟨(BitMap.new MaxOpenFiles).mark 0, Function.update memory 0 none⟩ := by
    unfold FileTable.putNull
    rw [hzero]
    rfl
  unfold FileTable.ofSpace
  rw [hput]
  unfold FileTable.putNull
  rw [hone]
  rfl

theorem filesInv_new (memory : ℕ → Option ℕ) : FilesInv (.new memory) := by
  have hmap := map_ofSpace memory
  have hbits (i : ℕ) : (FileTable.ofSpace memory).map.map i = true ↔ i < 2 := by
    rw [hmap]
    by_cases hone : i = 1
    · simp [hone]
    · rw [BitMap.map_mark_of_ne hone]
      by_cases hzero : i = 0
      · simp [hzero]
      · rw [BitMap.map_mark_of_ne hzero]
        simp only [BitMap.new, Bool.false_eq_true, false_iff]
        omega
  refine ⟨?_, ?_, ?_, by simp [Files.taken, Files.new, openFiles], .nil, .nil,
    by simp [Files.found, Files.new, openFiles, deletedFiles], ?_⟩
  · show (FileTable.ofSpace memory).map.numBits = MaxOpenFiles
    rw [hmap]
    rfl
  · intro i hi
    have := (hbits i).mp hi
    show i < 256
    omega
  · intro i
    simpa [Files.taken, Files.new, openFiles] using hbits i
  · refine ⟨?_, by simp [Files.new, openFiles], .nil, by simp [Files.new]⟩
    intro pre post id f heq
    simp [Files.new] at heq

/-- **The ids of open files are safe in every state of a run if and only if** `Close` is never called
    with a console id, or with an id that a `Put` has just taken. -/
theorem ids_safe_iff (memory : ℕ → Option ℕ) {l : List FileLabel} {s : Files}
    (h : exec fileStep (.new memory) l = .ok s) :
    Throughout fileStep IdsSafe (.new memory) l ↔ Guarded fileStep ClosesOpen (.new memory) l :=
  throughout_iff_guarded_of_exec (fun _ hs => hs.safe) (fun _ _ _ => filesInv_of_fileStep)
    (fun _ _ _ => not_idsSafe_of_fileStep) (filesInv_new memory) h

/-- Two files are opened, and one of them is closed twice. -/
theorem ids_safe_iff_closed :
    Throughout fileStep IdsSafe (.new fun _ => none)
      [.openFile 4 true, .openFile 4 true, .finish 1, .close 2, .close 2, .finish 0] := by
  have hrun : Ends fileStep (.new fun _ => none)
      [.openFile 4 true, .openFile 4 true, .finish 1, .close 2, .close 2, .finish 0]
      fun _ => True := by
    decide +kernel
  obtain ⟨s, h, -⟩ := hrun
  apply (ids_safe_iff _ h).mpr
  decide +kernel

/-- After `Close(0)` a file gets the id of the console. -/
theorem close_console_frees :
    ∃ s, exec fileStep (.new fun _ => none) [.close 0, .openFile 4 true, .finish 0] = .ok s ∧
      ∃ pre, s.history = pre ++ [.opened 0 0] ∧ ¬IdsSafe s := by
  have hrun : Ends fileStep (.new fun _ => none) [.close 0, .openFile 4 true] fun s =>
      s.putting = [(0, 0)] := by
    decide +kernel
  obtain ⟨s, h, hput⟩ := hrun
  have hfinish : fileStep s (.finish 0) = .ok { s with
      fileTable := s.fileTable.store 0 (some 0)
      putting := []
      history := s.history ++ [.opened 0 0] } := by
    unfold fileStep Files.finishOpen
    rw [hput]
    rfl
  have hall := (exec_concat (.finish 0) h).trans hfinish
  refine ⟨_, hall, s.history, rfl, ?_⟩
  intro hsafe
  have := (hsafe.fresh _ [] 0 0 rfl).1
  omega

end Nachos.Userprog
