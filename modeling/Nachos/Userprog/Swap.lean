import Nachos.Userprog.WildAddress

/-!
# The swap file

* `swap_round_trip`: in every run, different pages have different slots, a page in the swap file has
  a valid slot, and what is loaded from the swap file for a page is what was last stored for it.
-/

namespace Nachos.Userprog

open Nachos.Lib

/-! ## The history of a page -/

/-- The bytes that an event stores for the page. -/
def PagingEvent.storedBytes (p : ℕ) (vpn : ℤ) : PagingEvent → Option Page
  | .stored q w bytes => if q = p ∧ w = vpn then some bytes else none
  | _ => none

/-- The bytes that were stored last for the page. -/
def lastStored (p : ℕ) (vpn : ℤ) (history : List PagingEvent) : Option Page :=
  (history.filterMap (PagingEvent.storedBytes p vpn)).getLast?

/-- Every load from the swap file puts the bytes into the frame that were stored last. -/
def RoundTrip (history : List PagingEvent) : Prop :=
  ∀ pre post p vpn ppn old new, history = pre ++ .loaded p vpn ppn .inSwapFile old new :: post →
    lastStored p vpn pre = some new

section

variable {p q : ℕ} {vpn w : ℤ} {history events : List PagingEvent} {e : PagingEvent}

theorem lastStored_append : lastStored p vpn (history ++ events) =
    (lastStored p vpn events).or (lastStored p vpn history) := by
  unfold lastStored
  rw [List.filterMap_append, List.getLast?_append]

theorem lastStored_stored_self {bytes : Page} :
    lastStored p vpn (history ++ [.stored p vpn bytes]) = some bytes := by
  rw [lastStored_append]
  simp [lastStored, PagingEvent.storedBytes]

theorem lastStored_stored_of_ne {bytes : Page} (h : ¬(q = p ∧ w = vpn)) :
    lastStored p vpn (history ++ [.stored q w bytes]) = lastStored p vpn history := by
  rw [lastStored_append]
  simp [lastStored, PagingEvent.storedBytes, h]

/-- One more event is a load from the swap file, with the right bytes, or none. -/
theorem RoundTrip.concat (h : RoundTrip history)
    (he : ∀ p vpn ppn old new, e = .loaded p vpn ppn .inSwapFile old new →
      lastStored p vpn history = some new) : RoundTrip (history ++ [e]) := by
  intro pre post p vpn ppn old new heq
  obtain rfl | ⟨post, x, rfl⟩ := List.eq_nil_or_concat post
  · obtain ⟨rfl, hlast⟩ := List.append_inj' heq rfl
    cases hlast
    exact he p vpn ppn old new rfl
  · rw [List.concat_eq_append, ← List.cons_append, ← List.append_assoc] at heq
    exact h pre post p vpn ppn old new (List.append_inj' heq rfl).1

end

namespace VirtualMemory

variable {c : PagingConfig} {s s' : VirtualMemory} {history events : List PagingEvent}
  {ppn p q i random : ℕ} {vpn w : ℤ} {e e' : PageTableEntry}

/-! ## The slots -/

/-- The page table entry of a page. -/
def pageEntry (s : VirtualMemory) (p : ℕ) (vpn : ℤ) : Option PageTableEntry :=
  (s.spaces p).lookup vpn

/-- The slot has the bytes that were stored last for the page. -/
def Holds (s : VirtualMemory) (history : List PagingEvent) (p : ℕ) (vpn index : ℤ) : Prop :=
  ∃ bytes, lastStored p vpn history = some bytes ∧
    index.toNat * PageSize + PageSize ≤ s.swapFile.swap.size ∧
      ∀ into, s.swapFile.load index into = bytes

/-- Slots are valid and different, and those of the pages in the swap file have their bytes. -/
structure Swapped (s : VirtualMemory) (history : List PagingEvent) : Prop where
  numBits : s.swapFile.pageMap.numBits = MAX_SWAP_PAGES
  valid : ∀ p vpn e, s.pageEntry p vpn = some e → 0 ≤ e.swapPageIndex →
    s.swapFile.IsValidIndex e.swapPageIndex
  distinct : ∀ p vpn e q w e', s.pageEntry p vpn = some e → s.pageEntry q w = some e' →
    0 ≤ e.swapPageIndex → e.swapPageIndex = e'.swapPageIndex → p = q ∧ vpn = w
  slot : ∀ p vpn e, s.pageEntry p vpn = some e → e.location = .inSwapFile → 0 ≤ e.swapPageIndex
  holds : ∀ p vpn e, s.pageEntry p vpn = some e → e.location = .inSwapFile →
    s.Holds history p vpn e.swapPageIndex
  roundTrip : RoundTrip history

theorem swapped_new (c : PagingConfig) : Swapped (new c) [] where
  numBits := rfl
  valid p vpn e h := by
    unfold pageEntry AddrSpace.lookup at h
    split_ifs at h
    cases h
  distinct p vpn e q w e' h := by
    unfold pageEntry AddrSpace.lookup at h
    split_ifs at h
    cases h
  slot p vpn e h := by
    unfold pageEntry AddrSpace.lookup at h
    split_ifs at h
    cases h
  holds p vpn e h := by
    unfold pageEntry AddrSpace.lookup at h
    split_ifs at h
    cases h
  roundTrip := by
    intro pre post p vpn ppn old new h
    simp at h

/-- New entries have no slot. -/
theorem Swapped.of_entries (hs : Swapped s history) (hswap : s'.swapFile = s.swapFile)
    (hentry : ∀ p vpn e, s'.pageEntry p vpn = some e →
      s.pageEntry p vpn = some e ∨ e.swapPageIndex < 0 ∧ e.location ≠ .inSwapFile)
    (hlast : ∀ p vpn, lastStored p vpn (history ++ events) = lastStored p vpn history)
    (hround : RoundTrip (history ++ events)) : Swapped s' (history ++ events) where
  numBits := by rw [hswap, hs.numBits]
  valid p vpn e he hpos := by
    rw [hswap]
    obtain he | ⟨hneg, -⟩ := hentry p vpn e he
    · exact hs.valid p vpn e he hpos
    · omega
  distinct p vpn e q w e' he he' hpos heq := by
    obtain he | ⟨hneg, -⟩ := hentry p vpn e he
    · obtain he' | ⟨hneg, -⟩ := hentry q w e' he'
      · exact hs.distinct p vpn e q w e' he he' hpos heq
      · omega
    · omega
  slot p vpn e he hloc := by
    obtain he | ⟨-, hnot⟩ := hentry p vpn e he
    · exact hs.slot p vpn e he hloc
    · exact absurd hloc hnot
  holds p vpn e he hloc := by
    obtain he | ⟨-, hnot⟩ := hentry p vpn e he
    · unfold Holds
      rw [hlast, hswap]
      exact hs.holds p vpn e he hloc
    · exact absurd hloc hnot
  roundTrip := hround

/-- No event, and the same tables. -/
theorem Swapped.of_eq (hs : Swapped s history) (hswap : s'.swapFile = s.swapFile)
    (hspaces : s'.spaces = s.spaces) : Swapped s' history := by
  have hs' : Swapped s' (history ++ []) := by
    apply hs.of_entries hswap
    · intro p vpn e he
      unfold pageEntry at he ⊢
      rw [hspaces] at he
      exact .inl he
    · intro p vpn
      rw [List.append_nil]
    · rw [List.append_nil]
      exact hs.roundTrip
  rwa [List.append_nil] at hs'

/-- A new address space has no page in the swap file. -/
theorem entry_of_new {executable : File} {a : AddrSpace} (h : AddrSpace.new executable = some a)
    (he : a.lookup vpn = some e) : e.swapPageIndex < 0 ∧ e.location ≠ .inSwapFile := by
  obtain ⟨noffH, -, rfl⟩ := AddrSpace.lookup_new h he
  unfold AddrSpace.firstEntry
  split_ifs
  · exact ⟨Int.negSucc_lt_zero 0, nofun⟩
  · exact ⟨Int.negSucc_lt_zero 0, nofun⟩

/-! ## A page is written back -/

/-- The slot for a page is valid, and no other page has it. -/
theorem slotFor_spec (hs : Swapped s history) (he : s.pageEntry p vpn = some e) {index : ℤ}
    {f : SwapFile} (h : s.swapFile.slotFor e = .ok (index, f)) :
    f.IsValidIndex index ∧ f.swap = s.swapFile.swap ∧ f.pageMap.numBits = MAX_SWAP_PAGES ∧
      (∀ k, s.swapFile.IsValidIndex k → f.IsValidIndex k) ∧
      ∀ q w e', s.pageEntry q w = some e' → e'.swapPageIndex = index → q = p ∧ w = vpn := by
  obtain ⟨hpos, rfl, rfl⟩ | ⟨hneg, k, b, hfind, rfl, rfl⟩ := slotFor_cases h
  · refine ⟨hs.valid p vpn e he hpos, rfl, hs.numBits, fun _ hk => hk, ?_⟩
    intro q w e' he' heq
    exact hs.distinct q w e' p vpn e he' he (by omega) heq
  · obtain ⟨hlt, hclear, -, rfl⟩ := BitMap.find_eq_some hfind
    rw [hs.numBits] at hlt
    refine ⟨⟨by omega, by omega, by simp⟩, rfl, hs.numBits, ?_, ?_⟩
    · intro j ⟨hpos, hmax, hbit⟩
      refine ⟨hpos, hmax, ?_⟩
      by_cases hj : j.toNat = k
      · rw [hj]
        exact BitMap.map_mark_self
      · rw [BitMap.map_mark_of_ne hj, hbit]
    · -- The slot was free, and the slots of pages are not.
      intro q w e' he' heq
      have hvalid := hs.valid q w e' he' (by omega)
      rw [heq] at hvalid
      have hbit := hvalid.2.2
      rw [Int.toNat_natCast, hclear] at hbit
      cases hbit

/-- The entries after a page was written back. -/
theorem pageEntry_wroteBack {index : ℤ} {f : SwapFile} (he : s.pageEntry p vpn = some e)
    (h : (s.wroteBack ppn p vpn e index f).pageEntry q w = some e') :
    (q = p ∧ w = vpn ∧ e' = { e with swapPageIndex := index, location := .inSwapFile }) ∨
      (¬(q = p ∧ w = vpn) ∧ s.pageEntry q w = some e') := by
  unfold pageEntry wroteBack at h
  unfold pageEntry at he ⊢
  by_cases hq : q = p
  · subst hq
    simp only [Function.update_self] at h
    by_cases hw : w = vpn
    · subst hw
      rw [AddrSpace.lookup_set_self he] at h
      cases h
      exact .inl ⟨rfl, rfl, rfl⟩
    · rw [AddrSpace.lookup_set_of_ne (AddrSpace.lookup_isSome_iff.mp ⟨e, he⟩).1 hw] at h
      exact .inr ⟨fun heq => hw heq.2, h⟩
  · simp only [Function.update_of_ne hq] at h
    exact .inr ⟨fun heq => hq heq.1, h⟩

/-- Different slots are different places of the file. -/
theorem load_store_of_ne {f : SwapFile} {index k : ℤ} {bytes into : Page} (hpos : 0 ≤ index)
    (hk : 0 ≤ k) (hne : k ≠ index) (hin : k.toNat * PageSize + PageSize ≤ f.swap.size) :
    (f.store index bytes).load k into = f.load k into := by
  apply File.readAt_writeAt_of_disjoint hin
  show k.toNat * 128 + 128 ≤ index.toNat * 128 ∨ index.toNat * 128 + 128 ≤ k.toNat * 128
  omega

/-- **A page that is written back** is in the swap file with its bytes, and no other page is
    touched. -/
theorem Swapped.wroteBack (hs : Swapped s history) (he : s.pageEntry p vpn = some e) {index : ℤ}
    {f : SwapFile} (h : s.swapFile.slotFor e = .ok (index, f)) :
    Swapped (s.wroteBack ppn p vpn e index f) (history ++ [.stored p vpn (s.mainMemory ppn)]) := by
  obtain ⟨hvalid, hfile, hbits, hkeep, hother⟩ := slotFor_spec hs he h
  constructor
  · exact hbits
  · intro q w e' he' hpos
    obtain ⟨-, -, rfl⟩ | ⟨-, he'⟩ := pageEntry_wroteBack he he'
    · exact hvalid
    · exact hkeep _ (hs.valid q w e' he' hpos)
  · intro q w e' q' w' e'' he' he'' hpos heq
    obtain ⟨rfl, rfl, rfl⟩ | ⟨-, hold'⟩ := pageEntry_wroteBack he he'
    · obtain ⟨rfl, rfl, -⟩ | ⟨-, hold⟩ := pageEntry_wroteBack he he''
      · exact ⟨rfl, rfl⟩
      · obtain ⟨rfl, rfl⟩ := hother q' w' e'' hold heq.symm
        exact ⟨rfl, rfl⟩
    · obtain ⟨rfl, rfl, rfl⟩ | ⟨-, hold⟩ := pageEntry_wroteBack he he''
      · exact hother q w e' hold' heq
      · exact hs.distinct q w e' q' w' e'' hold' hold hpos heq
  · intro q w e' he' hloc
    obtain ⟨-, -, rfl⟩ | ⟨-, he'⟩ := pageEntry_wroteBack he he'
    · exact hvalid.1
    · exact hs.slot q w e' he' hloc
  · intro q w e' he' hloc
    obtain ⟨rfl, rfl, rfl⟩ | ⟨hne, he'⟩ := pageEntry_wroteBack he he'
    · exact ⟨s.mainMemory ppn, lastStored_stored_self, File.add_le_size_writeAt,
        fun into => File.readAt_writeAt_self into⟩
    · obtain ⟨bytes, hlast, hin, hload⟩ := hs.holds q w e' he' hloc
      refine ⟨bytes, ?_, ?_, ?_⟩
      · rw [lastStored_stored_of_ne (fun heq => hne ⟨heq.1.symm, heq.2.symm⟩), hlast]
      · rw [← hfile] at hin
        exact le_trans hin File.le_size_writeAt
      · intro into
        have hslot : e'.swapPageIndex ≠ index := fun heq => hne (hother q w e' he' heq)
        rw [← hload into]
        show (f.store index _).load _ _ = _
        rw [load_store_of_ne hvalid.1 (hs.slot q w e' he' hloc) hslot (by rw [hfile]; exact hin)]
        unfold SwapFile.load
        rw [hfile]
  · apply hs.roundTrip.concat
    intro _ _ _ _ _ heq
    cases heq

/-! ## Steps -/

theorem Swapped.writeBack (hs : Swapped s history) (h : s.writeBack ppn = .ok (s', events)) :
    Swapped s' (history ++ events) := by
  obtain ⟨-, rfl, rfl⟩ | ⟨-, p, e, index, f, -, he, hslot, rfl, rfl⟩ := writeBack_cases h
  · rwa [List.append_nil]
  · exact hs.wroteBack he hslot

theorem Swapped.takeFrame (hs : Swapped s history)
    (h : s.takeFrame c random = .ok (ppn, s', events)) : Swapped s' (history ++ events) := by
  obtain ⟨b, -, rfl, rfl⟩ | ⟨-, hevict⟩ := takeFrame_cases h
  · rw [List.append_nil]
    exact hs.of_eq rfl rfl
  · obtain ⟨s₀, hchoose, hback⟩ := evictAPage_eq_ok hevict
    obtain ⟨hspaces, hswap⟩ := tables_chooseVictim hchoose
    have hs' : Swapped (s₀.invalidate c ppn) history := by
      apply hs.of_eq
      · rw [swapFile_invalidate, hswap]
      · rw [spaces_invalidate, hspaces]
    exact hs'.writeBack hback

theorem tables_propagate : (s.propagate i).swapFile = s.swapFile ∧
    (s.propagate i).spaces = s.spaces := by
  unfold propagate
  split_ifs
  · exact ⟨rfl, rfl⟩
  · exact ⟨rfl, rfl⟩

theorem tables_flush (n : ℕ) : (s.flush n).swapFile = s.swapFile ∧
    (s.flush n).spaces = s.spaces := by
  induction n with
  | zero => exact ⟨rfl, rfl⟩
  | succ n ih =>
    show ((s.flush n).propagate n).swapFile = _ ∧ ((s.flush n).propagate n).spaces = _
    rw [tables_propagate.1, tables_propagate.2]
    exact ih

theorem tables_enqueue : (s.enqueue c ppn).swapFile = s.swapFile ∧
    (s.enqueue c ppn).spaces = s.spaces := by
  unfold enqueue
  split_ifs
  · exact ⟨rfl, rfl⟩
  · exact ⟨rfl, rfl⟩

/-- A page from the swap file comes with the bytes that were stored last. -/
theorem Swapped.loaded (hs : Swapped s history) (he : s.pageEntry p vpn = some e) {old new : Page}
    (hread : s.readPage e old = .ok new) :
    RoundTrip (history ++ [.loaded p vpn ppn e.location old new]) := by
  apply hs.roundTrip.concat
  intro p' vpn' ppn' old' new' heq
  simp only [PagingEvent.loaded.injEq] at heq
  obtain ⟨rfl, rfl, -, hloc, -, rfl⟩ := heq
  obtain ⟨bytes, hlast, -, hload⟩ := hs.holds p vpn e he hloc
  unfold readPage at hread
  simp only [hloc, if_pos (hs.slot p vpn e he hloc), hload] at hread
  cases hread
  exact hlast

theorem Swapped.loadPageIntoIPT (hs : Swapped s history)
    (h : s.loadPageIntoIPT c vpn random = .ok (ppn, s', events)) :
    Swapped s' (history ++ events) := by
  obtain ⟨s₁, events₁, p, e, bytes, htake, -, he, hread, rfl, rfl⟩ := loadPageIntoIPT_eq_ok h
  have hs₁ := hs.takeFrame htake
  rw [← List.append_assoc]
  apply hs₁.of_entries
  · exact tables_enqueue.1
  · intro q w e' he'
    have he₁ : (s₁.enqueue c ppn).pageEntry q w = some e' := he'
    unfold pageEntry at he₁ ⊢
    rw [tables_enqueue.2] at he₁
    exact .inl he₁
  · intro q w
    rw [lastStored_append]
    rfl
  · exact hs₁.loaded he hread

theorem Swapped.updateTLBFromIPT (hs : Swapped s history) :
    Swapped (s.updateTLBFromIPT c ppn) history :=
  hs.of_eq tables_propagate.1 tables_propagate.2

theorem Swapped.newSpace (hs : Swapped s history) {executable : File}
    (h : s.newSpace executable = .ok (s', events)) : Swapped s' (history ++ events) := by
  obtain ⟨a, ha, rfl, rfl⟩ := newSpace_eq_ok h
  refine hs.of_entries ?_ ?_ ?_ ?_
  · rfl
  · intro p vpn e he
    unfold pageEntry at he ⊢
    by_cases hp : p = s.numSpaces
    · subst hp
      simp only [Function.update_self] at he
      exact .inr (entry_of_new ha he)
    · simp only [Function.update_of_ne hp] at he
      exact .inl he
  · intro p vpn
    rw [lastStored_append]
    rfl
  · apply hs.roundTrip.concat
    intro _ _ _ _ _ heq
    cases heq

/-- `AllocateStack` copies the entries, and adds new ones. -/
theorem Swapped.allocateStack (hs : Swapped s history) : Swapped (s.allocateStack p) history := by
  have hs' : Swapped (s.allocateStack p) (history ++ []) := by
    refine hs.of_entries ?_ ?_ ?_ ?_
    · rfl
    · intro q w e he
      unfold pageEntry at he ⊢
      unfold VirtualMemory.allocateStack at he
      by_cases hq : q = p
      · subst hq
        simp only [Function.update_self] at he
        obtain he | ⟨-, rfl⟩ := AddrSpace.lookup_allocateStack he
        · exact .inl he
        · exact .inr ⟨Int.negSucc_lt_zero 0, nofun⟩
      · simp only [Function.update_of_ne hq] at he
        exact .inl he
    · intro q w
      rw [List.append_nil]
    · rw [List.append_nil]
      exact hs.roundTrip
  rwa [List.append_nil] at hs'

end VirtualMemory

open VirtualMemory

variable {c : PagingConfig} {s s' : VirtualMemory} {history events : List PagingEvent}

/-- Every step keeps the slots and what they hold. -/
theorem swapped_of_pagingStep {l : PagingLabel} (hs : Swapped s history)
    (h : pagingStep c s l = .ok (s', events)) : Swapped s' (history ++ events) := by
  cases l with
  | access virtAddr a random =>
    obtain ⟨ppn, s₁, htranslate, rfl, rfl⟩ | ⟨-, hfault⟩ := accessMem_cases h
    · obtain ⟨i, -, -, rfl⟩ := translate_eq_ok htranslate
      rw [List.append_nil]
      exact hs.of_eq rfl rfl
    · obtain ⟨ppn, -, rfl, rfl⟩ | ⟨-, ppn, s₁, hload, rfl⟩ := handlePageFault_cases hfault
      · rw [List.append_nil]
        exact hs.updateTLBFromIPT
      · exact (hs.loadPageIntoIPT hload).updateTLBFromIPT
  | switch next =>
    obtain ⟨-, rfl, rfl⟩ := switch_eq_ok h
    rw [List.append_nil]
    exact hs.of_eq (tables_flush c.tlbSize).1 (tables_flush c.tlbSize).2
  | startProcess executable =>
    obtain ⟨-, s₁, hnew, rfl⟩ := startProcess_eq_ok h
    exact (hs.newSpace hnew).of_eq rfl rfl
  | exec executable =>
    obtain ⟨s₁, hnew, rfl⟩ := exec_Syscall_eq_ok h
    exact (hs.newSpace hnew).of_eq rfl rfl
  | fork functionPtr =>
    obtain ⟨rfl, rfl | ⟨p, -, rfl⟩⟩ := fork_Syscall_cases h
    · rwa [List.append_nil]
    · rw [List.append_nil]
      exact hs.allocateStack.of_eq rfl rfl

theorem swapped_of_run {l : List PagingLabel}
    (h : exec (historyStep c) (new c, []) l = .ok (s, history)) : Swapped s history := by
  have hstep : ∀ x i x', Swapped x.1 x.2 → historyStep c x i = .ok x' → Swapped x'.1 x'.2 := by
    intro x i x' hs hstep
    obtain ⟨events, hstep, hhistory⟩ := historyStep_eq_ok hstep
    rw [hhistory]
    exact swapped_of_pagingStep hs hstep
  exact exec_preserves hstep (swapped_new c) h

/-- **Swap space round trip.** Different pages have different slots, a page in the swap file has a
    valid slot, and every load from the swap file puts the bytes into the frame that were stored
    last for the page. -/
theorem swap_round_trip (c : PagingConfig) {l : List PagingLabel} {s : VirtualMemory}
    {history : List PagingEvent} (h : exec (historyStep c) (new c, []) l = .ok (s, history)) :
    (∀ p vpn e q w e', s.pageEntry p vpn = some e → s.pageEntry q w = some e' →
      0 ≤ e.swapPageIndex → e.swapPageIndex = e'.swapPageIndex → p = q ∧ vpn = w) ∧
    (∀ p vpn e, s.pageEntry p vpn = some e → e.location = .inSwapFile →
      s.swapFile.IsValidIndex e.swapPageIndex) ∧
    RoundTrip history := by
  have hs := swapped_of_run h
  refine ⟨hs.distinct, ?_, hs.roundTrip⟩
  intro p vpn e he hloc
  exact hs.valid p vpn e he (hs.slot p vpn e he hloc)

/-- A process stores to its stack, another one takes the frame, and the first one comes back. -/
def storeAndReturn : List PagingLabel :=
  [.startProcess oneInstruction, .exec oneInstruction, .access 128 (.load .word) 0,
    .access 128 (.store .word 7) 0, .switch (some 1), .access 0 (.load .word) 0, .switch (some 0),
    .access 128 (.load .word) 0]

/-- The page of a load, where it comes from, and a byte of it. -/
def PagingEvent.loadedByte (k : Fin PageSize) : PagingEvent → Option (ℕ × ℤ × Location × UInt8)
  | .loaded p vpn _ location _ new => some (p, vpn, location, new k)
  | _ => none

theorem swap_round_trip_store :
    ∃ s history, exec (historyStep oneFrame) (new oneFrame, []) storeAndReturn = .ok (s, history) ∧
      history.getLast?.bind (PagingEvent.loadedByte 0) = some (0, 1, .inSwapFile, 7) ∧
      RoundTrip history := by
  have hrun : Ends (historyStep oneFrame) (new oneFrame, []) storeAndReturn fun x =>
      x.2.getLast?.bind (PagingEvent.loadedByte 0) = some (0, 1, .inSwapFile, 7) := by
    decide +kernel
  obtain ⟨⟨s, history⟩, h, hlast⟩ := hrun
  exact ⟨s, history, h, hlast, (swap_round_trip oneFrame h).2.2⟩

end Nachos.Userprog
