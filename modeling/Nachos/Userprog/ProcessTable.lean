import Nachos.Lib.Run

/-!
# The process table

`class ProcessTable` (`userprog/processtable.cc`). An address space is a number. The specification
is the multiset of the address spaces of the threads.

* `counts_threads_iff`: the table agrees with the multiset in the runs in which every new entry
  happens to have its address space, and no others.
-/

namespace Nachos.Userprog

open Nachos.Lib

/-- processtable.h:7. -/
abbrev MAX_NUM_PROCESSES : ℕ := 100

/-- `class ProcessTableEntry`. -/
structure ProcessTableEntry where
  space : ℕ
  numThreads : ℤ

/-- `class ProcessTable`, with `none` for `NULL`. -/
structure ProcessTable where
  processes : List (Option ProcessTableEntry)
  length_eq : processes.length = MAX_NUM_PROCESSES

/-- What stops a step. -/
inductive ProcessFault
  /-- `ASSERT(numThreads > 0)`. -/
  | assertion
  /-- More than `MAX_NUM_PROCESSES` processes would be alive. -/
  | tooMany
  deriving DecidableEq

/-! ## Entries -/

/-- The first entry of the address space is replaced. -/
def replaceFirst (space : ℕ) (f : ProcessTableEntry → Option ProcessTableEntry) :
    List (Option ProcessTableEntry) → List (Option ProcessTableEntry)
  | [] => []
  | none :: l => none :: replaceFirst space f l
  | some e :: l => if e.space = space then f e :: l else some e :: replaceFirst space f l

/-- The first place without an entry gets one. -/
def fillFirst (e : ProcessTableEntry) :
    List (Option ProcessTableEntry) → List (Option ProcessTableEntry)
  | [] => []
  | none :: l => some e :: l
  | some e' :: l => some e' :: fillFirst e l

theorem length_replaceFirst (space : ℕ) (f : ProcessTableEntry → Option ProcessTableEntry)
    (l : List (Option ProcessTableEntry)) : (replaceFirst space f l).length = l.length := by
  induction l with
  | nil => rfl
  | cons o l ih =>
    cases o with
    | none => simp [replaceFirst, ih]
    | some e =>
      unfold replaceFirst
      split_ifs
      · rfl
      · simp [ih]

theorem length_fillFirst (e : ProcessTableEntry) (l : List (Option ProcessTableEntry)) :
    (fillFirst e l).length = l.length := by
  induction l with
  | nil => rfl
  | cons o l ih => cases o <;> simp [fillFirst, ih]

namespace ProcessTable

/-- The constructor. -/
def new : ProcessTable := ⟨List.replicate MAX_NUM_PROCESSES none, List.length_replicate⟩

/-- The loops pass over `NULL`. -/
def entries (t : ProcessTable) : List ProcessTableEntry := t.processes.reduceOption

def entryOf (t : ProcessTable) (space : ℕ) : Option ProcessTableEntry :=
  t.entries.find? fun e => e.space = space

/-- `addProcess` (processtable.cc:84). The new entry has in `space` what its memory had. -/
def addProcess (t : ProcessTable) (memory : ℕ) : ProcessTable where
  processes := fillFirst ⟨memory, 1⟩ t.processes
  length_eq := by rw [length_fillFirst, t.length_eq]

def replace (t : ProcessTable) (space : ℕ) (f : ProcessTableEntry → Option ProcessTableEntry) :
    ProcessTable where
  processes := replaceFirst space f t.processes
  length_eq := by rw [length_replaceFirst, t.length_eq]

/-- `addThread` (processtable.cc:48). -/
def addThread (t : ProcessTable) (space memory : ℕ) : ProcessTable :=
  match t.entryOf space with
  | some _ => t.replace space fun e => some { e with numThreads := e.numThreads + 1 }
  | none => t.addProcess memory

/-- `killThread` (processtable.cc:65). -/
def killThread (t : ProcessTable) (space : ℕ) : Except ProcessFault ProcessTable :=
  match t.entryOf space with
  | none => .ok t
  | some e =>
    if 0 < e.numThreads then
      .ok (t.replace space fun e =>
        if e.numThreads - 1 ≤ 0 then none else some { e with numThreads := e.numThreads - 1 })
    else .error .assertion

/-- `killProcess` (processtable.cc:99). -/
def killProcess (t : ProcessTable) (space : ℕ) : ProcessTable := t.replace space fun _ => none

/-- `getNumProcesses` (processtable.cc:115). -/
def getNumProcesses (t : ProcessTable) : ℕ := t.entries.length

/-- `getNumThreadsForProcess` (processtable.cc:126). -/
def getNumThreadsForProcess (t : ProcessTable) (space : ℕ) : ℤ :=
  match t.entryOf space with
  | some e => e.numThreads
  | none => -1

/-- `getNumThreads` (processtable.cc:139). -/
def getNumThreads (t : ProcessTable) : ℤ := (t.entries.map ProcessTableEntry.numThreads).sum

end ProcessTable

/-! ## Runs -/

/-- A call, with what the memory of a new entry has where `space` is. -/
inductive ProcessLabel
  | addProcess (space memory : ℕ)
  | addThread (space memory : ℕ)
  | killThread (space : ℕ)
  | killProcess (space : ℕ)

/-- The table after the call. -/
def ProcessTable.call (t : ProcessTable) : ProcessLabel → Except ProcessFault ProcessTable
  | .addProcess _ memory => .ok (t.addProcess memory)
  | .addThread space memory => .ok (t.addThread space memory)
  | .killThread space => t.killThread space
  | .killProcess space => .ok (t.killProcess space)

/-- The threads after the call, as the address space of each. -/
def threadsAfter (m : Multiset ℕ) : ProcessLabel → Multiset ℕ
  | .addProcess space _ | .addThread space _ => space ::ₘ m
  | .killThread space => m.erase space
  | .killProcess space => m.filter (· ≠ space)

/-- A step of the table and of the threads that it counts. -/
def processStep (x : ProcessTable × Multiset ℕ) (l : ProcessLabel) :
    Except ProcessFault (ProcessTable × Multiset ℕ) :=
  if MAX_NUM_PROCESSES < (threadsAfter x.2 l).toFinset.card then .error .tooMany
  else do
    let t ← x.1.call l
    return (t, threadsAfter x.2 l)

/-- The queries agree with the threads. -/
def CountsThreads (x : ProcessTable × Multiset ℕ) : Prop :=
  (∀ space, x.1.getNumThreadsForProcess space =
    if space ∈ x.2 then (x.2.count space : ℤ) else -1) ∧
  x.1.getNumProcesses = x.2.toFinset.card ∧ x.1.getNumThreads = x.2.card

/-- A new entry has its address space in `space`, and there is none for it. -/
def NamesSpace (x : ProcessTable × Multiset ℕ) : ProcessLabel → Prop
  | .addProcess space memory => memory = space ∧ x.1.getNumThreadsForProcess space = -1
  | .addThread space memory => x.1.getNumThreadsForProcess space = -1 → memory = space
  | .killThread _ | .killProcess _ => True

instance (x : ProcessTable × Multiset ℕ) (l : ProcessLabel) : Decidable (NamesSpace x l) := by
  cases l <;> unfold NamesSpace <;> infer_instance

/-! ## The threads of the entries -/

/-- The threads that the entries stand for. -/
def threadsOf (es : List ProcessTableEntry) : Multiset ℕ :=
  (es.map fun e => Multiset.replicate e.numThreads.toNat e.space).sum

section

variable {es es' : List ProcessTableEntry} {e : ProcessTableEntry} {space : ℕ}
  {l : List (Option ProcessTableEntry)}

@[simp] theorem threadsOf_nil : threadsOf [] = 0 := rfl

@[simp] theorem threadsOf_cons : threadsOf (e :: es) =
    Multiset.replicate e.numThreads.toNat e.space + threadsOf es := by
  simp [threadsOf]

@[simp] theorem threadsOf_append : threadsOf (es ++ es') = threadsOf es + threadsOf es' := by
  simp [threadsOf]

/-- The entries of different processes, which have threads. -/
structure WellFormed (es : List ProcessTableEntry) : Prop where
  distinct : (es.map ProcessTableEntry.space).Nodup
  positive : ∀ e ∈ es, 0 < e.numThreads

theorem mem_threadsOf (h : ∀ e ∈ es, 0 < e.numThreads) :
    space ∈ threadsOf es ↔ space ∈ es.map ProcessTableEntry.space := by
  induction es with
  | nil => simp [threadsOf]
  | cons e es ih =>
    have he := h e List.mem_cons_self
    have hn : e.numThreads.toNat ≠ 0 := by omega
    rw [threadsOf_cons, Multiset.mem_add, Multiset.mem_replicate, List.map_cons, List.mem_cons,
      ih fun e' he' => h e' (List.mem_cons_of_mem _ he')]
    simp only [hn, ne_eq, not_false_eq_true, true_and]

/-- One entry has all threads of its process. -/
theorem count_threadsOf (hw : WellFormed (es ++ e :: es')) :
    ((threadsOf (es ++ e :: es')).count e.space : ℤ) = e.numThreads := by
  obtain ⟨hdistinct, hpositive⟩ := hw
  have he := hpositive e (by simp)
  rw [List.map_append, List.map_cons, List.nodup_middle, List.nodup_cons, ← List.map_append,
    ← mem_threadsOf (fun e' he' => hpositive e' (by simp at he' ⊢; tauto)), threadsOf_append,
    Multiset.mem_add, not_or] at hdistinct
  rw [threadsOf_append, threadsOf_cons, Multiset.count_add, Multiset.count_add,
    Multiset.count_eq_zero_of_notMem hdistinct.1.1, Multiset.count_eq_zero_of_notMem hdistinct.1.2,
    Multiset.count_replicate_self]
  omega

theorem card_threadsOf (h : ∀ e ∈ es, 0 < e.numThreads) :
    ((threadsOf es).card : ℤ) = (es.map ProcessTableEntry.numThreads).sum := by
  induction es with
  | nil => simp [threadsOf]
  | cons e es ih =>
    have he := h e List.mem_cons_self
    rw [threadsOf_cons, Multiset.card_add, Multiset.card_replicate, List.map_cons, List.sum_cons,
      ← ih fun e' he' => h e' (List.mem_cons_of_mem _ he')]
    push_cast
    omega

theorem card_toFinset_threadsOf (hw : WellFormed es) :
    (threadsOf es).toFinset.card = es.length := by
  have hsame : (threadsOf es).toFinset = (es.map ProcessTableEntry.space).toFinset := by
    ext space
    rw [Multiset.mem_toFinset, mem_threadsOf hw.positive, List.mem_toFinset]
  rw [hsame, List.toFinset_card_of_nodup hw.distinct, List.length_map]

/-! ## What the loops do -/

/-- The first entry of the address space is replaced. -/
theorem reduceOption_replaceFirst (h : (l.reduceOption.find? fun e => e.space = space) = some e) :
    ∃ es es', l.reduceOption = es ++ e :: es' ∧ e.space = space ∧
      ∀ f, (replaceFirst space f l).reduceOption = es ++ (f e).toList ++ es' := by
  induction l with
  | nil => cases h
  | cons o l ih =>
    cases o with
    | none =>
      rw [List.reduceOption_cons_of_none] at h
      simpa [replaceFirst] using ih h
    | some e' =>
      rw [List.reduceOption_cons_of_some] at h
      by_cases heq : e'.space = space
      · rw [List.find?_cons_of_pos (by simpa using heq)] at h
        cases h
        refine ⟨[], l.reduceOption, by simp, heq, ?_⟩
        intro f
        unfold replaceFirst
        rw [if_pos heq]
        cases f e with
        | none => simp
        | some e' => simp
      · rw [List.find?_cons_of_neg (by simpa using heq)] at h
        obtain ⟨es, es', hsplit, hspace, hnew⟩ := ih h
        refine ⟨e' :: es, es', by simp [hsplit], hspace, ?_⟩
        intro f
        unfold replaceFirst
        rw [if_neg heq, List.reduceOption_cons_of_some, hnew]
        simp

theorem reduceOption_replaceFirst_of_none
    {f : ProcessTableEntry → Option ProcessTableEntry}
    (h : (l.reduceOption.find? fun e => e.space = space) = none) : replaceFirst space f l = l := by
  induction l with
  | nil => rfl
  | cons o l ih =>
    cases o with
    | none =>
      rw [List.reduceOption_cons_of_none] at h
      rw [replaceFirst, ih h]
    | some e =>
      rw [List.reduceOption_cons_of_some, List.find?_cons] at h
      split at h
      · cases h
      · rename_i hne
        rw [replaceFirst, if_neg (by simpa using hne), ih h]

/-- There is a place, or all are taken. -/
theorem reduceOption_fillFirst (e : ProcessTableEntry) (l : List (Option ProcessTableEntry)) :
    (∃ es es', l.reduceOption = es ++ es' ∧ (fillFirst e l).reduceOption = es ++ e :: es') ∨
      fillFirst e l = l ∧ l.reduceOption.length = l.length := by
  induction l with
  | nil => exact .inr ⟨rfl, rfl⟩
  | cons o l ih =>
    cases o with
    | none => exact .inl ⟨[], l.reduceOption, by simp, by simp [fillFirst]⟩
    | some e' =>
      obtain ⟨es, es', hsplit, hnew⟩ | ⟨hsame, hfull⟩ := ih
      · exact .inl ⟨e' :: es, es', by simp [hsplit], by simp [fillFirst, hnew]⟩
      · exact .inr ⟨by rw [fillFirst, hsame], by simp [hfull]⟩

end

/-! ## The invariant -/

/-- The entries have the threads. -/
structure Tabled (x : ProcessTable × Multiset ℕ) : Prop where
  wellFormed : WellFormed x.1.entries
  threads : x.2 = threadsOf x.1.entries

namespace ProcessTable

variable {t : ProcessTable} {m : Multiset ℕ} {space : ℕ} {e : ProcessTableEntry}

theorem tabled_new : Tabled (new, 0) := by
  have hentries : new.entries = [] := List.reduceOption_replicate_none
  refine ⟨⟨?_, ?_⟩, ?_⟩
  · simp [hentries]
  · simp [hentries]
  · simp [hentries, threadsOf]

/-- The entry of an address space, and the others. -/
theorem entryOf_eq_some (h : t.entryOf space = some e) :
    ∃ es es', t.entries = es ++ e :: es' ∧ e.space = space ∧
      ∀ f, (t.replace space f).entries = es ++ (f e).toList ++ es' :=
  reduceOption_replaceFirst h

theorem mem_of_tabled (h : Tabled (t, m)) : space ∈ m ↔ t.entryOf space ≠ none := by
  have hmem : space ∈ threadsOf t.entries ↔ _ := mem_threadsOf h.wellFormed.positive
  rw [← h.threads] at hmem
  rw [hmem]
  unfold entryOf
  rw [ne_eq, List.find?_eq_none]
  simp

/-- The entry of a process says how many threads it has. -/
theorem numThreads_of_entryOf (h : Tabled (t, m)) (he : t.entryOf space = some e) :
    e.space = space ∧ 0 < e.numThreads ∧ (m.count space : ℤ) = e.numThreads := by
  obtain ⟨es, es', hsplit, rfl, -⟩ := entryOf_eq_some he
  have hw := h.wellFormed
  have hm : m = threadsOf t.entries := h.threads
  refine ⟨rfl, hw.positive e (List.mem_of_find?_eq_some he), ?_⟩
  rw [hsplit] at hw
  rw [hm, hsplit, count_threadsOf hw]

/-- **The queries** are those of the threads. -/
theorem countsThreads_of_tabled (h : Tabled (t, m)) : CountsThreads (t, m) := by
  refine ⟨?_, ?_, ?_⟩
  · intro space
    have hmem : space ∈ m ↔ _ := mem_of_tabled h
    unfold getNumThreadsForProcess
    cases he : t.entryOf space with
    | none =>
      rw [he] at hmem
      rw [if_neg (by simpa using hmem)]
    | some e =>
      rw [he] at hmem
      rw [if_pos (by simpa using hmem), (numThreads_of_entryOf h he).2.2]
  · have hm : m = threadsOf t.entries := h.threads
    show t.entries.length = m.toFinset.card
    rw [hm, card_toFinset_threadsOf h.wellFormed]
  · have hm : m = threadsOf t.entries := h.threads
    show (t.entries.map ProcessTableEntry.numThreads).sum = (m.card : ℤ)
    rw [hm, card_threadsOf h.wellFormed.positive]

theorem entryOf_eq_none_iff : t.entryOf space = none ↔ space ∉ t.entries.map (·.space) := by
  unfold entryOf
  rw [List.find?_eq_none]
  simp

/-- The queries know whether there is an entry. -/
theorem getNumThreadsForProcess_eq_neg_one_iff (h : Tabled (t, m)) :
    t.getNumThreadsForProcess space = -1 ↔ t.entryOf space = none := by
  unfold getNumThreadsForProcess
  cases he : t.entryOf space with
  | none => simp
  | some e =>
    have hpos := h.wellFormed.positive e (List.mem_of_find?_eq_some he)
    simp only [reduceCtorEq, iff_false]
    omega

/-- A new entry is in the first free place, or there is none. -/
theorem entries_addProcess (t : ProcessTable) (memory : ℕ) :
    (∃ es es', t.entries = es ++ es' ∧ (t.addProcess memory).entries = es ++ ⟨memory, 1⟩ :: es') ∨
      (t.addProcess memory).entries = t.entries ∧ t.entries.length = MAX_NUM_PROCESSES := by
  obtain h | ⟨hsame, hfull⟩ := reduceOption_fillFirst ⟨memory, 1⟩ t.processes
  · exact .inl h
  · refine .inr ⟨congrArg List.reduceOption hsame, ?_⟩
    rw [← t.length_eq]
    exact hfull

end ProcessTable

open ProcessTable

variable {t t' : ProcessTable} {m : Multiset ℕ} {space memory : ℕ} {e : ProcessTableEntry}
  {f : ProcessTableEntry → Option ProcessTableEntry}

/-! ## Steps -/

/-- The entry of a process has other threads, or none. -/
theorem Tabled.replace (h : Tabled (t, m)) (he : t.entryOf space = some e) {m' : Multiset ℕ}
    (hf : ∀ e' ∈ f e, e'.space = space ∧ 0 < e'.numThreads)
    (hm' : ∀ q, m'.count q = if q = space then (f e).elim 0 fun e' => e'.numThreads.toNat
      else m.count q) : Tabled (t.replace space f, m') := by
  obtain ⟨es, es', hsplit, hspace, hnew⟩ := entryOf_eq_some he
  have hw := h.wellFormed
  have hm : m = threadsOf t.entries := h.threads
  rw [hsplit] at hw hm
  have hdistinct := hw.distinct
  rw [List.map_append, List.map_cons, List.nodup_middle, List.nodup_cons, ← List.map_append,
    hspace] at hdistinct
  have hother : space ∉ threadsOf (es ++ es') := by
    rw [mem_threadsOf fun e' he' => hw.positive e' (by simp at he' ⊢; tauto)]
    exact hdistinct.1
  constructor
  · show WellFormed (t.replace space f).entries
    rw [hnew]
    cases hfe : f e with
    | none =>
      refine ⟨by simpa using hdistinct.2, ?_⟩
      intro e' he'
      apply hw.positive e'
      simp at he' ⊢
      tauto
    | some e' =>
      obtain ⟨hspace', hpos⟩ := hf e' hfe
      constructor
      · simp only [Option.toList_some, List.append_assoc, List.singleton_append, List.map_append,
          List.map_cons, List.nodup_middle, List.nodup_cons, hspace']
        rw [← List.map_append]
        exact hdistinct
      · intro e'' he''
        simp only [Option.toList_some, List.mem_append, List.mem_singleton] at he''
        obtain (he'' | rfl) | he'' := he''
        · exact hw.positive e'' (by simp [he''])
        · exact hpos
        · exact hw.positive e'' (by simp [he''])
  · show m' = threadsOf (t.replace space f).entries
    ext q
    have hcount := Multiset.count_eq_zero_of_notMem hother
    rw [threadsOf_append, Multiset.count_add] at hcount
    rw [hm' q, hnew, hm]
    by_cases hq : q = space
    · subst hq
      cases hfe : f e with
      | none =>
        simp
        omega
      | some e' =>
        simp [(hf e' hfe).1]
        omega
    · have hne : space ≠ q := fun heq => hq heq.symm
      rw [if_neg hq]
      cases hfe : f e with
      | none => simp [hspace, Multiset.count_replicate, hne]
      | some e' => simp [hspace, (hf e' hfe).1, Multiset.count_replicate, hne]

/-- **A new process** gets an entry with its address space. -/
theorem Tabled.addProcess (h : Tabled (t, m))
    (hroom : (space ::ₘ m).toFinset.card ≤ MAX_NUM_PROCESSES) (hnone : t.entryOf space = none) :
    Tabled (t.addProcess space, space ::ₘ m) := by
  have hm : m = threadsOf t.entries := h.threads
  have hcard : t.entries.length = m.toFinset.card := by
    rw [hm, card_toFinset_threadsOf h.wellFormed]
  have hnot : space ∉ m := by
    rw [mem_of_tabled h, hnone]
    exact fun hne => hne rfl
  obtain ⟨es, es', hsplit, hnew⟩ | ⟨-, hfull⟩ := entries_addProcess t space
  · have hw := h.wellFormed
    have hentry := entryOf_eq_none_iff.mp hnone
    rw [hsplit] at hw hm hentry
    constructor
    · show WellFormed (t.addProcess space).entries
      rw [hnew]
      constructor
      · rw [List.map_append, List.map_cons, List.nodup_middle, List.nodup_cons, ← List.map_append]
        exact ⟨hentry, hw.distinct⟩
      · intro e he
        simp only [List.mem_append, List.mem_cons] at he
        obtain he | rfl | he := he
        · exact hw.positive e (by simp [he])
        · exact Int.one_pos
        · exact hw.positive e (by simp [he])
    · show space ::ₘ m = threadsOf (t.addProcess space).entries
      rw [hnew, hm, threadsOf_append, threadsOf_append, threadsOf_cons, ← Multiset.singleton_add]
      show {space} + _ = _ + (Multiset.replicate 1 space + _)
      rw [Multiset.replicate_one]
      abel
  · rw [Multiset.toFinset_cons, Finset.card_insert_of_notMem (by simpa using hnot)] at hroom
    omega

/-- A thread more, or one less, of a process with an entry. -/
theorem Tabled.addThread (h : Tabled (t, m)) (he : t.entryOf space = some e) :
    Tabled (t.addThread space memory, space ::ₘ m) := by
  obtain ⟨hspace, hpos, hcount⟩ := numThreads_of_entryOf h he
  have hsame : t.addThread space memory =
      t.replace space fun e => some { e with numThreads := e.numThreads + 1 } := by
    unfold ProcessTable.addThread
    simp only [he]
  rw [hsame]
  apply h.replace he
  · intro e' he'
    cases he'
    refine ⟨hspace, ?_⟩
    show 0 < e.numThreads + 1
    omega
  · intro q
    by_cases hq : q = space
    · subst hq
      simp only [Multiset.count_cons_self, if_true, Option.elim_some]
      omega
    · rw [if_neg hq, Multiset.count_cons_of_ne hq]

theorem Tabled.killThread {t' : ProcessTable} (h : Tabled (t, m))
    (hkill : t.killThread space = .ok t') : Tabled (t', m.erase space) := by
  unfold ProcessTable.killThread at hkill
  split at hkill
  · rename_i hnone
    cases hkill
    have hnot : space ∉ m := by
      rw [mem_of_tabled h, hnone]
      exact fun hne => hne rfl
    rw [Multiset.erase_of_notMem hnot]
    exact h
  · rename_i e he
    split_ifs at hkill with hpos
    cases hkill
    obtain ⟨hspace, -, hcount⟩ := numThreads_of_entryOf h he
    apply h.replace he
    · intro e' he'
      split_ifs at he' with hlast
      · cases he'
      · cases he'
        refine ⟨hspace, ?_⟩
        show 0 < e.numThreads - 1
        omega
    · intro q
      by_cases hq : q = space
      · subst hq
        rw [if_pos rfl, Multiset.count_erase_self]
        split_ifs with hlast
        · simp only [Option.elim_none]
          omega
        · simp only [Option.elim_some]
          omega
      · rw [if_neg hq, Multiset.count_erase_of_ne hq]

theorem Tabled.killProcess (h : Tabled (t, m)) :
    Tabled (t.killProcess space, m.filter (· ≠ space)) := by
  cases he : t.entryOf space with
  | none =>
    have hnot : space ∉ m := by
      rw [mem_of_tabled h, he]
      exact fun hne => hne rfl
    have hsame : t.killProcess space = t := by
      unfold ProcessTable.killProcess ProcessTable.replace
      simp only [reduceOption_replaceFirst_of_none he]
    rw [hsame, Multiset.filter_eq_self.mpr]
    · exact h
    · rintro q hq rfl
      exact hnot hq
  | some e =>
    apply h.replace he
    · intro e' he'
      cases he'
    · intro q
      rw [Multiset.count_filter]
      by_cases hq : q = space
      · simp [hq]
      · simp [hq]

theorem processStep_eq_ok {x x' : ProcessTable × Multiset ℕ} {l : ProcessLabel}
    (h : processStep x l = .ok x') : x.1.call l = .ok x'.1 ∧ x'.2 = threadsAfter x.2 l ∧
      (threadsAfter x.2 l).toFinset.card ≤ MAX_NUM_PROCESSES := by
  unfold processStep at h
  split_ifs at h with hroom
  obtain ⟨t, hcall, hret⟩ := bind_eq_ok.mp h
  cases hret
  exact ⟨hcall, rfl, Nat.not_lt.mp hroom⟩

/-- **A step** whose new entry has its address space keeps the table. -/
theorem tabled_of_processStep {x x' : ProcessTable × Multiset ℕ} {l : ProcessLabel}
    (hx : Tabled x) (hl : NamesSpace x l) (h : processStep x l = .ok x') : Tabled x' := by
  obtain ⟨t, m⟩ := x
  obtain ⟨t', m'⟩ := x'
  obtain ⟨hcall, rfl, hroom⟩ := processStep_eq_ok h
  cases l with
  | addProcess space memory =>
    obtain ⟨rfl, hnone⟩ := hl
    cases hcall
    exact hx.addProcess hroom ((getNumThreadsForProcess_eq_neg_one_iff hx).mp hnone)
  | addThread space memory =>
    cases hcall
    show Tabled (t.addThread space memory, space ::ₘ m)
    cases he : t.entryOf space with
    | none =>
      have hmemory := hl ((getNumThreadsForProcess_eq_neg_one_iff hx).mpr he)
      have hsame : t.addThread space memory = t.addProcess space := by
        unfold ProcessTable.addThread
        simp only [he, hmemory]
      rw [hsame]
      exact hx.addProcess hroom he
    | some e => exact hx.addThread he
  | killThread space => exact hx.killThread hcall
  | killProcess space =>
    cases hcall
    exact hx.killProcess

/-- An entry with another address space is not found, and one more entry is one too many. -/
theorem not_countsThreads_addProcess (h : Tabled (t, m))
    (hbad : ¬(memory = space ∧ t.entryOf space = none)) :
    ¬CountsThreads (t.addProcess memory, space ::ₘ m) := by
  intro hcounts
  obtain ⟨hcount, hnum, htotal⟩ := hcounts
  obtain ⟨hcount', hnum', htotal'⟩ := countsThreads_of_tabled h
  obtain ⟨es, es', hsplit, hnew⟩ | ⟨hsame, -⟩ := entries_addProcess t memory
  · by_cases hmemory : memory = space
    · have hmem : space ∈ m := by
        rw [mem_of_tabled h]
        exact fun hnone => hbad ⟨hmemory, hnone⟩
      have hfinset : (space ::ₘ m).toFinset = m.toFinset := by
        rw [Multiset.toFinset_cons, Finset.insert_eq_of_mem (by simpa using hmem)]
      unfold getNumProcesses at hnum hnum'
      simp only [hfinset, hnew, hsplit, List.length_append, List.length_cons] at hnum hnum'
      omega
    · have hentry : (t.addProcess memory).entryOf space = t.entryOf space := by
        unfold entryOf
        rw [hnew, hsplit, List.find?_append, List.find?_append,
          List.find?_cons_of_neg (by simpa using hmemory)]
      have h₁ := hcount space
      have h₂ := hcount' space
      unfold getNumThreadsForProcess at h₁ h₂
      simp only [hentry, Multiset.mem_cons_self, if_true, Multiset.count_cons_self] at h₁ h₂
      rw [h₁] at h₂
      split_ifs at h₂
      all_goals omega
  · unfold getNumThreads at htotal htotal'
    simp only [hsame, Multiset.card_cons] at htotal htotal'
    omega

/-- Any other step loses a thread at once. -/
theorem not_countsThreads_of_processStep {x x' : ProcessTable × Multiset ℕ} {l : ProcessLabel}
    (hx : Tabled x) (hl : ¬NamesSpace x l) (h : processStep x l = .ok x') :
    ¬CountsThreads x' := by
  obtain ⟨t, m⟩ := x
  obtain ⟨t', m'⟩ := x'
  obtain ⟨hcall, rfl, -⟩ := processStep_eq_ok h
  have hnone := @getNumThreadsForProcess_eq_neg_one_iff t m
  cases l with
  | addProcess space memory =>
    cases hcall
    apply not_countsThreads_addProcess hx
    rw [← hnone hx]
    exact hl
  | addThread space memory =>
    cases hcall
    obtain ⟨hentry, hmemory⟩ := Classical.not_imp.mp hl
    rw [hnone hx] at hentry
    have hsame : t.addThread space memory = t.addProcess memory := by
      unfold ProcessTable.addThread
      simp only [hentry]
    show ¬CountsThreads (t.addThread space memory, space ::ₘ m)
    rw [hsame]
    exact not_countsThreads_addProcess hx fun hgood => hmemory hgood.1
  | killThread space => exact absurd trivial hl
  | killProcess space => exact absurd trivial hl

/-- **The process table counts the threads in every state of a run if and only if** every new entry
    finds its address space in its memory, and no process is added twice. -/
theorem counts_threads_iff {l : List ProcessLabel} {x : ProcessTable × Multiset ℕ}
    (h : exec processStep (new, 0) l = .ok x) :
    Throughout processStep CountsThreads (new, 0) l ↔
      Guarded processStep NamesSpace (new, 0) l :=
  throughout_iff_guarded_of_exec (fun _ => countsThreads_of_tabled)
    (fun _ _ _ => tabled_of_processStep) (fun _ _ _ => not_countsThreads_of_processStep)
    tabled_new h

/-- A process and its second thread, where the memory has the address space. -/
theorem counts_threads_iff_memory :
    Throughout processStep CountsThreads (new, 0)
      [.addProcess 1 1, .addThread 1 0, .killThread 1] := by
  have hrun : Ends processStep (new, 0) [.addProcess 1 1, .addThread 1 0, .killThread 1]
      fun _ => True := by
    decide
  obtain ⟨x, h, -⟩ := hrun
  apply (counts_threads_iff h).mpr
  decide

/-- A new process is not found. -/
theorem addProcess_not_found :
    ∃ x, exec processStep (new, 0) [.addProcess 1 0] = .ok x ∧
      x.1.getNumThreadsForProcess 1 = -1 ∧ ¬CountsThreads x := by
  have hrun : Ends processStep (new, 0) [.addProcess 1 0] fun x =>
      x.1.getNumThreadsForProcess 1 = -1 ∧ x.2 = {1} := by
    decide
  obtain ⟨x, h, hget, hthreads⟩ := hrun
  refine ⟨x, h, hget, ?_⟩
  intro hcounts
  have hone := hcounts.1 1
  rw [hget, hthreads] at hone
  cases hone

end Nachos.Userprog
