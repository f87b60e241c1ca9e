import Nachos.Threads.Synch

/-!
# The threads at a lock

Some threads have called `Acquire` and not gone on yet, and some are between it and `Release`. Of
the first the owner can go on, and the others are in the queue of the lock.

* `LockQueue.acquire`, `LockQueue.enter`, `LockQueue.release`: what the calls keep.
* `LockQueue.unique`: two threads are not inside.
-/

namespace Nachos.Threads

variable {τ : Type} [DecidableEq τ]

/-- The threads `calling` and `inside` are those of the lock. -/
structure LockQueue (l : Lock τ) (calling inside : Set τ) : Prop where
  freeIff : l.FreeIff
  idle : l.owner = none → l.waitingThreads = []
  nodup : l.waitingThreads.Nodup
  waiting : ∀ t ∈ l.waitingThreads, t ∈ calling ∧ l.owner ≠ some t
  owner : ∀ t, l.owner = some t → t ∈ calling ∨ t ∈ inside
  called : ∀ t ∈ calling, l.owner = some t ∨ t ∈ l.waitingThreads
  owns : ∀ t ∈ inside, l.owner = some t
  disjoint : ∀ t ∈ calling, t ∉ inside

namespace LockQueue

variable {l : Lock τ} {calling inside : Set τ} {t u : τ}

omit [DecidableEq τ] in
theorem new : LockQueue (.new : Lock τ) ∅ ∅ where
  freeIff := Lock.freeIff_new
  idle _ := rfl
  nodup := List.nodup_nil
  waiting _ h := absurd h List.not_mem_nil
  owner _ h := by cases h
  called _ h := h.elim
  owns _ h := h.elim
  disjoint _ h := h.elim

omit [DecidableEq τ] in
/-- Two threads are not inside. -/
theorem unique (h : LockQueue l calling inside) (ht : t ∈ inside) (hu : u ∈ inside) : t = u :=
  Option.some_injective _ ((h.owns t ht).symm.trans (h.owns u hu))

omit [DecidableEq τ] in
/-- Nobody is inside when the owner has not gone on. -/
theorem empty_of_calling (h : LockQueue l calling inside) (ht : t ∈ calling)
    (howner : l.owner = some t) : inside = ∅ := by
  ext u
  simp only [Set.mem_empty_iff_false, iff_false]
  intro hu
  have heq : t = u := Option.some_injective _ (howner.symm.trans (h.owns u hu))
  exact h.disjoint t ht (heq ▸ hu)

/-- `Acquire`, up to its `Sleep`. -/
theorem acquire (h : LockQueue l calling inside) (ht : t ∉ calling) (ht' : t ∉ inside) :
    LockQueue (l.acquire t) (insert t calling) inside := by
  have hnotOwner : ¬ l.HeldBy t := fun howner => (h.owner t howner).elim ht ht'
  have hnotWaiting : t ∉ l.waitingThreads := fun hmem => ht (h.waiting t hmem).1
  have hdisjoint : ∀ u ∈ insert t calling, u ∉ inside := by
    rintro u (rfl | hu)
    · exact ht'
    · exact h.disjoint u hu
  by_cases hfree : l.owner = none
  · have hlock : l.acquire t = { l with state := .busy, owner := some t } := by
      rw [Lock.acquire, if_neg hnotOwner, if_pos (h.freeIff.mpr hfree)]
    have hempty : l.waitingThreads = [] := h.idle hfree
    rw [hlock]
    refine ⟨by simp [Lock.FreeIff], by simp, h.nodup, ?_, ?_, ?_, ?_, hdisjoint⟩
    · simp [hempty]
    · intro u hu
      exact Or.inl (Or.inl (Option.some_injective _ hu).symm)
    · rintro u (rfl | hu)
      · exact Or.inl rfl
      · have := h.called u hu
        simp [hfree, hempty] at this
    · intro u hu
      have := h.owns u hu
      simp [hfree] at this
  · have hlock : l.acquire t = { l with waitingThreads := l.waitingThreads ++ [t] } := by
      rw [Lock.acquire, if_neg hnotOwner, if_neg (mt h.freeIff.mp hfree)]
    rw [hlock]
    refine ⟨h.freeIff, fun hnone => absurd hnone hfree, ?_, ?_, ?_, ?_, h.owns, hdisjoint⟩
    · exact h.nodup.append (List.nodup_singleton t) (by simpa using hnotWaiting)
    · intro u hu
      rcases List.mem_append.mp hu with hu | hu
      · exact ⟨Or.inr (h.waiting u hu).1, (h.waiting u hu).2⟩
      · obtain rfl := List.mem_singleton.mp hu
        exact ⟨Or.inl rfl, hnotOwner⟩
    · intro u hu
      exact (h.owner u hu).imp_left Or.inr
    · rintro u (rfl | hu)
      · exact Or.inr (List.mem_append_right _ (List.mem_singleton.mpr rfl))
      · exact (h.called u hu).imp_right (List.mem_append_left _)

omit [DecidableEq τ] in
/-- The owner goes on. -/
theorem enter (h : LockQueue l calling inside) (ht : t ∈ calling) (howner : l.owner = some t) :
    LockQueue l (calling \ {t}) {t} := by
  have hother : ∀ u ∈ l.waitingThreads, u ≠ t := by
    rintro u hu rfl
    exact (h.waiting u hu).2 howner
  refine ⟨h.freeIff, h.idle, h.nodup, ?_, ?_, ?_, ?_, fun u hu => hu.2⟩
  · intro u hu
    exact ⟨⟨(h.waiting u hu).1, hother u hu⟩, (h.waiting u hu).2⟩
  · intro u hu
    exact Or.inr (Option.some_injective _ (hu.symm.trans howner))
  · intro u hu
    exact h.called u hu.1
  · rintro u rfl
    exact howner

/-- `Release`. -/
theorem release (h : LockQueue l calling inside) (ht : t ∈ inside) :
    LockQueue (l.release t) calling ∅ := by
  have howner : l.HeldBy t := h.owns t ht
  have hinside : ∀ u, l.owner = some u → u = t := fun u hu =>
    Option.some_injective _ (hu.symm.trans howner)
  have hcalling : ∀ u ∈ calling, u ∈ l.waitingThreads := by
    intro u hu
    refine (h.called u hu).resolve_left fun hut => ?_
    exact h.disjoint u hu (hinside u hut ▸ ht)
  cases hwaiting : l.waitingThreads with
  | nil =>
    have hlock : l.release t = { l with state := .free, owner := none } := by
      rw [Lock.release, if_pos howner, hwaiting]
    rw [hlock]
    have hempty : ∀ u, u ∉ calling := fun u hu => by simpa [hwaiting] using hcalling u hu
    refine ⟨by simp [Lock.FreeIff], fun _ => hwaiting, h.nodup, ?_, by simp, ?_, by simp, by simp⟩
    · simp [hwaiting]
    · intro u hu
      exact absurd hu (hempty u)
  | cons v rest =>
    have hlock : l.release t = { l with owner := some v, waitingThreads := rest } := by
      rw [Lock.release, if_pos howner, hwaiting]
    have hnodup := h.nodup
    rw [hwaiting, List.nodup_cons] at hnodup
    have hmem : ∀ u ∈ v :: rest, u ∈ calling := fun u hu => (h.waiting u (hwaiting ▸ hu)).1
    rw [hlock]
    refine ⟨?_, by simp, hnodup.2, ?_, ?_, ?_, by simp, by simp⟩
    · have hbusy : l.state ≠ .free := fun hfree => by
        rw [Lock.HeldBy, h.freeIff.mp hfree] at howner
        cases howner
      simp [Lock.FreeIff, hbusy]
    · intro u hu
      refine ⟨hmem u (List.mem_cons_of_mem _ hu), fun heq => ?_⟩
      exact hnodup.1 (Option.some_injective _ heq ▸ hu)
    · intro u hu
      rw [← Option.some_injective _ hu]
      exact Or.inl (hmem v List.mem_cons_self)
    · intro u hu
      have hu' := hcalling u hu
      rw [hwaiting] at hu'
      rcases List.mem_cons.mp hu' with rfl | hu'
      · exact Or.inl rfl
      · exact Or.inr hu'

/-! What the thread inside has, and a value for nobody. -/

section

variable {α : Type} {f : τ → α} {z : α}

omit [DecidableEq τ] in
theorem value_of_inside (h : LockQueue l calling inside) (ht : t ∈ inside) :
    (l.owner.map f).getD z = f t := by
  simp [h.owns t ht]

omit [DecidableEq τ] in
theorem value_of_empty (h : LockQueue l calling ∅) (hz : ∀ t ∈ calling, f t = z) :
    (l.owner.map f).getD z = z := by
  cases howner : l.owner with
  | none => rfl
  | some t => exact hz t ((h.owner t howner).resolve_right id)

omit [DecidableEq τ] in
/-- It does not change when the same threads are inside. -/
theorem value_congr {l' : Lock τ} {calling' : Set τ} {f' : τ → α} (h : LockQueue l calling inside)
    (h' : LockQueue l' calling' inside) (hf : ∀ t ∈ inside, f' t = f t) (hz : ∀ t ∈ calling, f t = z)
    (hz' : ∀ t ∈ calling', f' t = z) : (l'.owner.map f').getD z = (l.owner.map f).getD z := by
  rcases inside.eq_empty_or_nonempty with hempty | ⟨t, ht⟩
  · subst hempty
    rw [h.value_of_empty hz, h'.value_of_empty hz']
  · rw [h.value_of_inside ht, h'.value_of_inside ht, hf t ht]

end

end LockQueue

/-! A thread moves to another point. -/

section

variable {π : Type} {point : τ → π} {t : τ}

theorem setOf_update_of_pos (P : π → Prop) (q : π) (hq : P q) :
    {u | P (Function.update point t q u)} = insert t {u | P (point u)} := by
  ext u
  by_cases hu : u = t
  · subst hu
    simp [hq]
  · simp [hu]

theorem setOf_update_of_neg (P : π → Prop) (q : π) (hq : ¬ P q) :
    {u | P (Function.update point t q u)} = {u | P (point u)} \ {t} := by
  ext u
  by_cases hu : u = t
  · subst hu
    simp [hq]
  · simp [hu]

theorem setOf_update_of_iff (P : π → Prop) (q : π) (hq : P q ↔ P (point t)) :
    {u | P (Function.update point t q u)} = {u | P (point u)} := by
  ext u
  by_cases hu : u = t
  · subst hu
    simpa using hq
  · simp [hu]

end

end Nachos.Threads
