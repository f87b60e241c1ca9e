import Mathlib

/-!
# Agendas

Events that are to happen at certain times are kept in a list, sorted by time; an event that is
added goes behind those of the same time. The event in front may be taken out and put back.

* `Agenda.InOrder`: every event that has been scheduled is pending or has happened, once; events
  happen in the order of their times, and not before them.
* `InOrder.schedule`, `InOrder.fire`, `InOrder.putBack`, `InOrder.wait`: what keeps that.
-/

namespace Nachos.Lib

variable {α τ : Type} [LinearOrder τ]

/-- Insert `x` behind all elements that are not later. -/
def insertByTime (time : α → τ) (x : α) : List α → List α
  | [] => [x]
  | y :: l => if time x < time y then x :: y :: l else y :: insertByTime time x l

theorem perm_insertByTime (time : α → τ) (x : α) (l : List α) :
    (insertByTime time x l).Perm (x :: l) := by
  induction l with
  | nil => exact .refl _
  | cons y l ih =>
    unfold insertByTime
    split_ifs
    · exact .refl _
    · exact (ih.cons y).trans (.swap ..)

theorem pairwise_insertByTime {time : α → τ} {l : List α}
    (h : l.Pairwise fun x y => time x ≤ time y) (x : α) :
    (insertByTime time x l).Pairwise fun x y => time x ≤ time y := by
  induction l with
  | nil => exact List.pairwise_singleton ..
  | cons y l ih =>
    obtain ⟨hy, hl⟩ := List.pairwise_cons.mp h
    unfold insertByTime
    split_ifs with hlt
    · refine List.pairwise_cons.mpr ⟨?_, h⟩
      intro z hz
      obtain rfl | hz := List.mem_cons.mp hz
      · exact hlt.le
      · exact hlt.le.trans (hy z hz)
    · refine List.pairwise_cons.mpr ⟨?_, ih hl⟩
      intro z hz
      obtain rfl | hz := List.mem_cons.mp ((perm_insertByTime time x l).mem_iff.mp hz)
      · exact not_lt.mp hlt
      · exact hy z hz

/-- In a sorted list `x` goes behind all elements of its time. -/
theorem insertByTime_eq_append {time : α → τ} {l : List α}
    (h : l.Pairwise fun x y => time x ≤ time y) (x : α) :
    ∃ l₁ l₂, l = l₁ ++ l₂ ∧ insertByTime time x l = l₁ ++ x :: l₂ ∧
      (∀ y ∈ l₁, time y ≤ time x) ∧ ∀ y ∈ l₂, time x < time y := by
  induction l with
  | nil => exact ⟨[], [], rfl, rfl, nofun, nofun⟩
  | cons y l ih =>
    obtain ⟨hy, hl⟩ := List.pairwise_cons.mp h
    unfold insertByTime
    split_ifs with hlt
    · refine ⟨[], y :: l, rfl, rfl, nofun, ?_⟩
      intro z hz
      obtain rfl | hz := List.mem_cons.mp hz
      · exact hlt
      · exact hlt.trans_le (hy z hz)
    · obtain ⟨l₁, l₂, rfl, heq, hbefore, hbehind⟩ := ih hl
      refine ⟨y :: l₁, l₂, rfl, by rw [heq, List.cons_append], ?_, hbehind⟩
      intro z hz
      obtain rfl | hz := List.mem_cons.mp hz
      · exact not_lt.mp hlt
      · exact hbefore z hz

theorem map_insertByTime {β : Type} (f : β → α) (time : α → τ) (x : β) (l : List β) :
    (insertByTime (fun y => time (f y)) x l).map f = insertByTime time (f x) (l.map f) := by
  induction l with
  | nil => rfl
  | cons y l ih =>
    simp only [insertByTime, List.map_cons]
    split_ifs
    · rfl
    · rw [List.map_cons, ih]

/-- A list of events with the clock, and what has been scheduled and has happened so far. -/
structure Agenda (α τ : Type) where
  now : τ
  pending : List α
  /-- The events that have happened, with the time when they did. -/
  fired : List (α × τ)
  scheduled : List α

namespace Agenda

/-- The events happen in order. -/
structure InOrder (time : α → τ) (a : Agenda α τ) : Prop where
  sorted : a.pending.Pairwise fun x y => time x ≤ time y
  inTurn : a.fired.Pairwise fun x y => time x.1 ≤ time y.1
  before : ∀ x ∈ a.fired, ∀ y ∈ a.pending, time x.1 ≤ time y
  due : ∀ x ∈ a.fired, time x.1 ≤ x.2 ∧ x.2 ≤ a.now
  once : (a.fired.map Prod.fst ++ a.pending).Perm a.scheduled

variable {time : α → τ} {a : Agenda α τ} {x : α} {l : List α}

namespace InOrder

/-- A new event lies in the future. -/
theorem schedule (h : a.InOrder time) (hx : a.now < time x) :
    InOrder time { a with
      pending := insertByTime time x a.pending
      scheduled := a.scheduled ++ [x] } where
  sorted := pairwise_insertByTime h.sorted x
  inTurn := h.inTurn
  before := by
    intro y hy z hz
    obtain rfl | hz := List.mem_cons.mp ((perm_insertByTime time x a.pending).mem_iff.mp hz)
    · exact ((h.due y hy).1.trans (h.due y hy).2).trans hx.le
    · exact h.before y hy z hz
  due := h.due
  once := by
    apply ((perm_insertByTime time x a.pending).append_left _).trans
    apply List.perm_middle.trans
    exact (h.once.cons x).trans (List.perm_append_singleton ..).symm

/-- The first event happens, when it is due. -/
theorem fire (h : a.InOrder time) (hpending : a.pending = x :: l) (hx : time x ≤ a.now) :
    InOrder time { a with pending := l, fired := a.fired ++ [(x, a.now)] } where
  sorted := by
    have := h.sorted
    rw [hpending] at this
    exact this.of_cons
  inTurn := by
    refine List.pairwise_append.mpr ⟨h.inTurn, List.pairwise_singleton .., ?_⟩
    intro y hy z hz
    rw [List.mem_singleton.mp hz]
    exact h.before y hy x (by simp [hpending])
  before := by
    intro y hy z hz
    obtain hy | hy := List.mem_append.mp hy
    · exact h.before y hy z (by simp [hpending, show z ∈ l from hz])
    · have := h.sorted
      rw [hpending] at this
      rw [List.mem_singleton.mp hy]
      exact List.rel_of_pairwise_cons this hz
  due := by
    intro y hy
    obtain hy | hy := List.mem_append.mp hy
    · exact h.due y hy
    · rw [List.mem_singleton.mp hy]
      exact ⟨hx, le_rfl⟩
  once := by
    rw [List.map_append, List.append_assoc]
    show (a.fired.map Prod.fst ++ x :: l).Perm a.scheduled
    rw [← hpending]
    exact h.once

/-- The first event is taken out and put back. -/
theorem putBack (h : a.InOrder time) (hpending : a.pending = x :: l) :
    InOrder time { a with pending := insertByTime time x l } := by
  have hperm : (insertByTime time x l).Perm a.pending := by
    rw [hpending]
    exact perm_insertByTime time x l
  refine ⟨?_, h.inTurn, ?_, h.due, (hperm.append_left _).trans h.once⟩
  · have := h.sorted
    rw [hpending] at this
    exact pairwise_insertByTime this.of_cons x
  · intro y hy z hz
    exact h.before y hy z (hperm.mem_iff.mp hz)

/-- Time passes. -/
theorem wait (h : a.InOrder time) {t : τ} (ht : a.now ≤ t) : InOrder time { a with now := t } where
  sorted := h.sorted
  inTurn := h.inTurn
  before := h.before
  due x hx := ⟨(h.due x hx).1, (h.due x hx).2.trans ht⟩
  once := h.once

end InOrder

end Agenda

end Nachos.Lib
