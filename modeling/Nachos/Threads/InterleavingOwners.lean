import Nachos.Threads.InterleavingLocks

/-!
# Who owns a lock after a call

* `Machine.owner_perform`: the owner is who it was, or acquires the lock, or has waited for it
  while the last owner released it.
-/

namespace Nachos.Threads

open Nachos.Lib

variable {ℓ κ π σ : Type}

namespace Machine

section

variable [DecidableEq ℓ] {m : Machine ℓ κ π σ} {t u : ℕ} {k l : ℓ}

theorem owner_acquire (h : ((m.acquire t k).locks l).owner = some u) :
    (m.locks l).owner = some u ∨ k = l ∧ u = t := by
  change (Function.update m.locks k ((m.locks k).acquire t) l).owner = some u at h
  by_cases hl : l = k
  · subst hl
    rw [Function.update_self, Lock.acquire] at h
    split_ifs at h
    · exact Or.inl h
    · exact Or.inr ⟨rfl, (Option.some_injective _ h).symm⟩
    · exact Or.inl h
  · rw [Function.update_of_ne hl] at h
    exact Or.inl h

/-- `Release` takes the lock from the thread, and gives it to one that waits. -/
theorem owner_release (hok : m.Ok) (h : ((m.release t k).locks l).owner = some u) :
    (m.locks l).owner = some u ∧ (k = l → u ≠ t) ∨ k = l ∧ m.status u = .acquiring l := by
  rw [locks_release] at h
  by_cases hl : l = k
  · subst hl
    rw [Function.update_self, Lock.release] at h
    split_ifs at h with hheld
    · cases hqueue : (m.locks l).waitingThreads with
      | nil => simp [hqueue] at h
      | cons v rest =>
        simp only [hqueue, Option.some.injEq] at h
        subst h
        refine Or.inr ⟨rfl, (hok.acquiring l v).mp ?_⟩
        rw [hqueue]
        exact List.mem_cons_self ..
    · refine Or.inl ⟨h, ?_⟩
      rintro - rfl
      exact hheld h
  · rw [Function.update_of_ne hl] at h
    exact Or.inl ⟨h, fun hk => absurd hk.symm hl⟩

/-- The call releases the lock. -/
def Releases : Op ℓ κ π → ℓ → Prop
  | .release k, l | .wait _ k, l => k = l
  | .acquire _, _ | .signal _ _, _ | .broadcast _ _, _ | .fork _, _ | .yield, _ | .finish, _ => False

variable [DecidableEq κ]

theorem locks_broadcast (m : Machine ℓ κ π σ) (t : ℕ) (c : κ) (l : ℓ) :
    (m.broadcast t c l).locks = m.locks := by
  unfold Machine.broadcast
  split_ifs
  · rfl
  · exact locks_signal m c l

/-- **Who owns a lock** after a call. -/
theorem owner_perform (hok : m.Ok) {op : Op ℓ κ π}
    (h : ((m.perform t op).locks l).owner = some u) :
    (m.locks l).owner = some u ∧ (op = .release l → u ≠ t) ∨ op = .acquire l ∧ u = t ∨
      Releases op l ∧ m.status u = .acquiring l := by
  cases op with
  | acquire k =>
    rcases owner_acquire h with hold | ⟨rfl, hu⟩
    · exact Or.inl ⟨hold, nofun⟩
    · exact Or.inr (Or.inl ⟨rfl, hu⟩)
  | release k =>
    rcases owner_release hok h with ⟨hold, hne⟩ | hnew
    · refine Or.inl ⟨hold, ?_⟩
      intro hop
      cases hop
      exact hne rfl
    · exact Or.inr (Or.inr hnew)
  | wait c k =>
    change ((m.wait t c k).locks l).owner = some u at h
    unfold Machine.wait at h
    simp only at h
    split_ifs at h
    · exact Or.inl ⟨h, nofun⟩
    · have hlocks (conditions : κ → WaitQueue ℓ) :
          ({ m with conditions := conditions }.release t k).locks = (m.release t k).locks := by
        rw [locks_release, locks_release]
      change ((Machine.release _ t k).locks l).owner = some u at h
      rw [hlocks] at h
      exact (owner_release hok h).imp (fun hold => ⟨hold.1, nofun⟩) fun hnew => Or.inr hnew
  | signal c k =>
    change ((m.signal c k).locks l).owner = some u at h
    rw [locks_signal] at h
    exact Or.inl ⟨h, nofun⟩
  | broadcast c k =>
    change ((m.broadcast t c k).locks l).owner = some u at h
    rw [locks_broadcast] at h
    exact Or.inl ⟨h, nofun⟩
  | fork q => exact Or.inl ⟨h, nofun⟩
  | yield => exact Or.inl ⟨h, nofun⟩
  | finish => exact Or.inl ⟨h, nofun⟩

end

end Machine

end Nachos.Threads
