import Mathlib

/-!
# A store behind handles

A memory `m : K → V` is kept in a store `s : A → V`, the variable `k` at its handle `f k`.

* `Relocated.update`: a write through the handle is a write to the variable.
* `Relocated.update_iff`: which other writes look like it.
-/

namespace Nachos.Lib

variable {K A V : Type} [DecidableEq K] [DecidableEq A]

/-- The store has each variable at its handle. -/
def Relocated (f : K → A) (s : A → V) (m : K → V) : Prop := ∀ k, s (f k) = m k

namespace Relocated

variable {f : K → A} {s s' : A → V} {m m' : K → V}

/-- **A write** through the handle. -/
theorem update (h : Relocated f s m) (hf : Function.Injective f) (k : K) (v : V) :
    Relocated f (Function.update s (f k) v) (Function.update m k v) := by
  intro k'
  by_cases hk : k' = k
  · subst hk
    rw [Function.update_self, Function.update_self]
  · rw [Function.update_of_ne (hf.ne hk), Function.update_of_ne hk]
    exact h k'

omit [DecidableEq A] in
/-- A write to the variable alone is seen, unless it has the value. -/
theorem update_right_iff (h : Relocated f s m) {k : K} {v : V} :
    Relocated f s (Function.update m k v) ↔ m k = v := by
  constructor
  · intro h'
    have hk := h' k
    rw [Function.update_self] at hk
    rw [← h k, hk]
  · rintro rfl
    rwa [Function.update_eq_self]

/-- The same write to a variable that both have tells them apart as little as before. -/
theorem update_both_iff (hf : Function.Injective f) {k : K} (v : V) (hk : s (f k) = m k) :
    Relocated f (Function.update s (f k) v) (Function.update m k v) ↔ Relocated f s m := by
  refine ⟨fun h k' => ?_, fun h => h.update hf k v⟩
  by_cases hkk : k' = k
  · subst hkk
    exact hk
  · have hat := h k'
    rwa [Function.update_of_ne (hf.ne hkk), Function.update_of_ne hkk] at hat

/-- **A write through another handle** looks like it only if both variables have the value. -/
theorem update_iff (h : Relocated f s m) (hf : Function.Injective f) {k k' : K} {v : V} :
    Relocated f (Function.update s (f k) v) (Function.update m k' v) ↔
      k = k' ∨ m k = v ∧ m k' = v := by
  by_cases hk : k = k'
  · subst hk
    exact iff_of_true (h.update hf k v) (Or.inl rfl)
  · constructor
    · intro h'
      refine Or.inr ⟨?_, ?_⟩
      · have hat := h' k
        rw [Function.update_self, Function.update_of_ne hk] at hat
        exact hat.symm
      · have hat := h' k'
        rw [Function.update_self, Function.update_of_ne (hf.ne (Ne.symm hk)), h k'] at hat
        exact hat
    · rintro (heq | ⟨hv, hv'⟩)
      · exact absurd heq hk
      · have hstore : s (f k) = v := (h k).trans hv
        rw [← hstore, Function.update_eq_self, hstore, ← hv', Function.update_eq_self]
        exact h

end Relocated

end Nachos.Lib
