import Mathlib

/-!
# Queues that share their members

A placement gives the members of each place in order. The members are moved by hand
from the head of one queue to the end of another.

* `Exact.move`: a member that is moved is lost nowhere, and is nowhere twice.
-/

namespace Nachos.Lib

variable {π τ : Type}

/-- The members of each place. -/
abbrev Placement (π τ : Type) := π → List τ

/-- **Each member is in exactly one place**, and once there; what is no member is in none. -/
structure Exact (f : Placement π τ) (members : τ → Prop) : Prop where
  mem : ∀ t, members t ↔ ∃ p, t ∈ f p
  nodup : ∀ p, (f p).Nodup
  unique : ∀ {p q t}, t ∈ f p → t ∈ f q → p = q

/-- A member's place. -/
theorem Exact.exists_place {f : Placement π τ} {members : τ → Prop} (h : Exact f members) {t : τ} (ht : members t)
    [DecidableEq τ] : ∃ p, (f p).count t = 1 ∧ ∀ q, q ≠ p → t ∉ f q := by
  obtain ⟨p, hp⟩ := (h.mem t).mp ht
  exact ⟨p, List.count_eq_one_of_mem (h.nodup p) hp, fun q hq hmem => hq (h.unique hmem hp)⟩

variable [DecidableEq π]

/-- The member at the head of one place goes to the end of another. -/
def move (p q : π) (f : Placement π τ) : Placement π τ :=
  match f p with
  | [] => f
  | t :: rest => Function.update (Function.update f p rest) q (Function.update f p rest q ++ [t])

section

variable {f : Placement π τ} {members : τ → Prop} {p q : π}

theorem move_nil (h : f p = []) : move p q f = f := by
  simp only [move, h]

theorem move_cons {t : τ} {rest : List τ} (h : f p = t :: rest) :
    move p q f =
      Function.update (Function.update f p rest) q (Function.update f p rest q ++ [t]) := by
  simp only [move, h]

/-- The head of a place is taken away. -/
theorem Exact.remove (h : Exact f members) {t : τ} {rest : List τ} (hp : f p = t :: rest) :
    Exact (Function.update f p rest) fun u => members u ∧ u ≠ t := by
  have hnodup := h.nodup p
  rw [hp, List.nodup_cons] at hnodup
  have hmem : t ∈ f p := by simp [hp]
  have hof : ∀ {p' u}, u ∈ Function.update f p rest p' → u ∈ f p' ∧ u ≠ t := by
    intro p' u hu
    by_cases hp' : p' = p
    · subst hp'
      rw [Function.update_self] at hu
      exact ⟨by rw [hp]; exact List.mem_cons_of_mem _ hu, fun heq => hnodup.1 (heq ▸ hu)⟩
    · rw [Function.update_of_ne hp'] at hu
      exact ⟨hu, fun heq => hp' (h.unique hu (heq ▸ hmem))⟩
  refine ⟨fun u => ⟨?_, ?_⟩, fun p' => ?_, fun hu hu' => h.unique (hof hu).1 (hof hu').1⟩
  · rintro ⟨hu, hne⟩
    obtain ⟨p', hp'⟩ := (h.mem u).mp hu
    refine ⟨p', ?_⟩
    by_cases heq : p' = p
    · subst heq
      rw [hp, List.mem_cons] at hp'
      rw [Function.update_self]
      exact hp'.resolve_left hne
    · rwa [Function.update_of_ne heq]
  · rintro ⟨p', hu⟩
    exact ⟨(h.mem u).mpr ⟨p', (hof hu).1⟩, (hof hu).2⟩
  · by_cases heq : p' = p
    · subst heq
      rw [Function.update_self]
      exact hnodup.2
    · rw [Function.update_of_ne heq]
      exact h.nodup p'

/-- A new member comes to the end of a place. -/
theorem Exact.add (h : Exact f members) {t : τ} (ht : ¬ members t) (q : π) :
    Exact (Function.update f q (f q ++ [t])) fun u => members u ∨ u = t := by
  have hnone : ∀ p', t ∉ f p' := fun p' hp' => ht ((h.mem t).mpr ⟨p', hp'⟩)
  have hof : ∀ {p' u}, u ∈ Function.update f q (f q ++ [t]) p' → u ∈ f p' ∨ u = t ∧ p' = q := by
    intro p' u hu
    by_cases hq : p' = q
    · subst hq
      rw [Function.update_self, List.mem_append, List.mem_singleton] at hu
      exact hu.imp_right fun heq => ⟨heq, rfl⟩
    · rw [Function.update_of_ne hq] at hu
      exact Or.inl hu
  refine ⟨fun u => ⟨?_, ?_⟩, fun p' => ?_, fun hu hu' => ?_⟩
  · rintro (hu | rfl)
    · obtain ⟨p', hp'⟩ := (h.mem u).mp hu
      refine ⟨p', ?_⟩
      by_cases hq : p' = q
      · subst hq
        rw [Function.update_self]
        exact List.mem_append_left _ hp'
      · rwa [Function.update_of_ne hq]
    · exact ⟨q, by rw [Function.update_self]; simp⟩
  · rintro ⟨p', hu⟩
    exact (hof hu).imp (fun hu => (h.mem u).mpr ⟨p', hu⟩) fun hu => hu.1
  · by_cases hq : p' = q
    · subst hq
      rw [Function.update_self]
      exact (h.nodup p').append (List.nodup_singleton t)
        (List.disjoint_singleton.mpr (hnone p'))
    · rw [Function.update_of_ne hq]
      exact h.nodup p'
  · rcases hof hu with hu | ⟨rfl, hp⟩ <;> rcases hof hu' with hu' | ⟨heq, hq⟩
    · exact h.unique hu hu'
    · exact absurd (heq ▸ hu) (hnone _)
    · exact absurd hu' (hnone _)
    · rw [hp, hq]

/-- **A member that is moved** is in exactly one place again. -/
theorem Exact.move (h : Exact f members) (p q : π) : Exact (move p q f) members := by
  cases hp : f p with
  | nil => rwa [move_nil hp]
  | cons t rest =>
    rw [move_cons hp]
    have ht : members t := (h.mem t).mpr ⟨p, by simp [hp]⟩
    have hadd := (h.remove hp).add (t := t) (fun ht => ht.2 rfl) q
    refine ⟨fun u => ?_, hadd.nodup, hadd.unique⟩
    rw [← hadd.mem u]
    by_cases hu : u = t
    · simp [hu, ht]
    · simp [hu]

end

end Nachos.Lib
