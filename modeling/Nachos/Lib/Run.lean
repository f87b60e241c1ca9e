import Mathlib

/-!
# Runs of a partial step function

A system is a step function `σ → ι → Except ε σ`: a label `i` (which carries
every choice of the environment) takes a state to the next one or stops with a
fault. A run executes a list of labels.

* `exec_inv`: an invariant that every admissible step preserves holds in every
  state a guarded run reaches.
* `throughout_iff_guarded`: if admissible steps keep an invariant and all others break a
  property it implies, the runs with that property are exactly the guarded ones.
* `throughout_iff_guarded_of_exec`: the same where admissible steps may fault.
-/

namespace Nachos.Lib

variable {σ ι ε : Type}

/-! ## Sequencing -/

section

variable {α β : Type}

@[simp] theorem ok_bind (a : α) (f : α → Except ε β) : (Except.ok a >>= f) = f a := rfl

@[simp] theorem error_bind (e : ε) (f : α → Except ε β) :
    ((Except.error e : Except ε α) >>= f) = .error e := rfl

@[simp] theorem pure_eq_ok (a : α) : (pure a : Except ε α) = .ok a := rfl

/-- A sequence that succeeds is two successes. -/
theorem bind_eq_ok {x : Except ε α} {f : α → Except ε β} {b : β} :
    x >>= f = .ok b ↔ ∃ a, x = .ok a ∧ f a = .ok b := by
  cases x with
  | error e => simp
  | ok a => simp

theorem mem_toOption {x : Except ε α} {a : α} : a ∈ x.toOption ↔ x = .ok a := by
  cases x with
  | error e => simp [Except.toOption]
  | ok b => simp [Except.toOption, eq_comm]

end

/-- The computation succeeds, with `P` of its result. -/
def Gives {α : Type} (x : Except ε α) (P : α → Prop) : Prop := ∃ a, x = .ok a ∧ P a

instance Gives.decidable {α : Type} (x : Except ε α) (P : α → Prop) [DecidablePred P] :
    Decidable (Gives x P) :=
  match h : x with
  | .ok a => decidable_of_iff (P a) ⟨fun hP => ⟨a, rfl, hP⟩, fun ⟨_, ha, hP⟩ => by cases ha; exact hP⟩
  | .error _ => .isFalse fun ⟨_, ha, _⟩ => nomatch ha

/-! ## Runs -/

/-- Execute the labels in order; a fault stops the run. -/
def exec (step : σ → ι → Except ε σ) : σ → List ι → Except ε σ
  | s, [] => .ok s
  | s, i :: l =>
    match step s i with
    | .ok s' => exec step s' l
    | .error e => .error e

/-- Every label of the run is admissible in the state that executes it. -/
def Guarded (step : σ → ι → Except ε σ) (ok : σ → ι → Prop) : σ → List ι → Prop
  | _, [] => True
  | s, i :: l => ok s i ∧ ∀ s', step s i = .ok s' → Guarded step ok s' l

section

variable {step : σ → ι → Except ε σ} {ok : σ → ι → Prop} {Inv : σ → Prop}

@[simp] theorem exec_nil (s : σ) : exec step s [] = .ok s := rfl

theorem exec_cons_ok {s s' : σ} {i : ι} {l : List ι} (h : step s i = .ok s') :
    exec step s (i :: l) = exec step s' l := by
  simp only [exec, h]

theorem exec_cons_eq_ok {s t : σ} {i : ι} {l : List ι} (h : exec step s (i :: l) = .ok t) :
    ∃ s', step s i = .ok s' ∧ exec step s' l = .ok t := by
  cases hs : step s i with
  | error e => simp only [exec, hs] at h; cases h
  | ok s' => exact ⟨s', rfl, by simpa only [exec, hs] using h⟩

theorem exec_append {s t : σ} {l l' : List ι} (h : exec step s l = .ok t) :
    exec step s (l ++ l') = exec step t l' := by
  induction l generalizing s with
  | nil => cases h; rfl
  | cons i l ih =>
    obtain ⟨s', hs, hl⟩ := exec_cons_eq_ok h
    rw [List.cons_append, exec_cons_ok hs, ih hl]

theorem exec_concat {s t : σ} {l : List ι} (i : ι) (h : exec step s l = .ok t) :
    exec step s (l ++ [i]) = step t i := by
  rw [exec_append h, exec]
  cases step t i <;> rfl

/-- **Run lemma.** What every admissible step preserves holds at the end of
    every guarded run. -/
theorem exec_inv (hstep : ∀ s i s', Inv s → ok s i → step s i = .ok s' → Inv s') {s t : σ}
    {l : List ι} (hs : Inv s) (hg : Guarded step ok s l) (h : exec step s l = .ok t) : Inv t := by
  induction l generalizing s with
  | nil => cases h; exact hs
  | cons i l ih =>
    obtain ⟨s', hs', hl⟩ := exec_cons_eq_ok h
    exact ih (hstep s i s' hs hg.1 hs') (hg.2 s' hs') hl

/-- **Run lemma** without a condition on the steps. The invariant may be a pair, of which the second
    part needs the first. -/
theorem exec_preserves (hstep : ∀ s i s', Inv s → step s i = .ok s' → Inv s') {s t : σ}
    {l : List ι} (hs : Inv s) (h : exec step s l = .ok t) : Inv t := by
  induction l generalizing s with
  | nil => cases h; exact hs
  | cons i l ih =>
    obtain ⟨s', hs', hl⟩ := exec_cons_eq_ok h
    exact ih (hstep s i s' hs hs') hl

theorem Guarded.of_forall (h : ∀ s i, ok s i) (s : σ) (l : List ι) : Guarded step ok s l := by
  induction l generalizing s with
  | nil => trivial
  | cons i l ih => exact ⟨h s i, fun s' _ => ih s'⟩

/-- Where the condition does not depend on the state. -/
theorem Guarded.of_mem {l : List ι} (h : ∀ i ∈ l, ∀ s, ok s i) (s : σ) : Guarded step ok s l := by
  induction l generalizing s with
  | nil => trivial
  | cons i l ih =>
    exact ⟨h i List.mem_cons_self s, fun s' _ => ih (fun j hj => h j (List.mem_cons_of_mem _ hj)) s'⟩

theorem Guarded.mono {ok' : σ → ι → Prop} (himp : ∀ s i, ok s i → ok' s i) {s : σ} {l : List ι}
    (h : Guarded step ok s l) : Guarded step ok' s l := by
  induction l generalizing s with
  | nil => trivial
  | cons i l ih => exact ⟨himp s i h.1, fun s' hs' => ih (h.2 s' hs')⟩

end

/-- Whether a run is guarded is decided by executing it. -/
instance Guarded.decidable (step : σ → ι → Except ε σ) (ok : σ → ι → Prop)
    [∀ s i, Decidable (ok s i)] : ∀ s l, Decidable (Guarded step ok s l)
  | _, [] => .isTrue trivial
  | s, i :: l =>
    match h : step s i with
    | .ok s' =>
      have := Guarded.decidable step ok s' l
      decidable_of_iff (ok s i ∧ Guarded step ok s' l)
        (and_congr_right fun _ => ⟨fun hl t ht => by cases h.symm.trans ht; exact hl, fun hl => hl s' h⟩)
    | .error _ =>
      decidable_of_iff (ok s i)
        ⟨fun hok => ⟨hok, fun s' hs' => absurd (h.symm.trans hs') nofun⟩, fun hok => hok.1⟩

/-- The run reaches its end, in a state with `P`. -/
def Ends (step : σ → ι → Except ε σ) (s : σ) (l : List ι) (P : σ → Prop) : Prop :=
  ∃ t, exec step s l = .ok t ∧ P t

instance Ends.decidable (step : σ → ι → Except ε σ) (s : σ) (l : List ι) (P : σ → Prop)
    [DecidablePred P] : Decidable (Ends step s l P) :=
  match h : exec step s l with
  | .ok t => decidable_of_iff (P t)
      ⟨fun hP => ⟨t, h, hP⟩, fun ⟨_, ht', hP⟩ => by cases h.symm.trans ht'; exact hP⟩
  | .error _ => .isFalse fun ⟨_, ht, _⟩ => nomatch h.symm.trans ht

/-- `P` holds in every state of the run, which does not fault. -/
def Throughout (step : σ → ι → Except ε σ) (P : σ → Prop) : σ → List ι → Prop
  | s, [] => P s
  | s, i :: l => P s ∧ ∃ s', step s i = .ok s' ∧ Throughout step P s' l

section

variable {step : σ → ι → Except ε σ} {ok : σ → ι → Prop} {Inv : σ → Prop}

theorem Throughout.of_exec {P : σ → Prop} {s t : σ} {l : List ι} (h : Throughout step P s l)
    (ht : exec step s l = .ok t) : P t := by
  induction l generalizing s with
  | nil => cases ht; exact h
  | cons i l ih =>
    obtain ⟨-, s', hs', hl⟩ := h
    rw [exec_cons_ok hs'] at ht
    exact ih hl ht

/-- **Exact run lemma.** If an invariant implies `P`, an admissible step keeps the
    invariant, and any other step that does not fault leads to a state without `P`,
    then the runs with `P` in every state are exactly the guarded ones. -/
theorem throughout_iff_guarded {P : σ → Prop} (hP : ∀ s, Inv s → P s)
    (hok : ∀ s i, Inv s → ok s i → ∃ s', step s i = .ok s' ∧ Inv s')
    (hbad : ∀ s i s', Inv s → ¬ ok s i → step s i = .ok s' → ¬ P s') {s : σ} (l : List ι)
    (hs : Inv s) : Throughout step P s l ↔ Guarded step ok s l := by
  induction l generalizing s with
  | nil => exact ⟨fun _ => trivial, fun _ => hP s hs⟩
  | cons i l ih =>
    constructor
    · rintro ⟨-, s', hs', hk⟩
      have hi : ok s i := by
        by_contra hi
        exact hbad s i s' hs hi hs' (by cases l <;> first | exact hk | exact hk.1)
      obtain ⟨t, ht, hinv⟩ := hok s i hs hi
      cases hs'.symm.trans ht
      exact ⟨hi, fun u hu => by cases hs'.symm.trans hu; exact (ih hinv).mp hk⟩
    · rintro ⟨hi, hg⟩
      obtain ⟨s', hs', hinv⟩ := hok s i hs hi
      exact ⟨hP s hs, s', hs', (ih hinv).mpr (hg s' hs')⟩

/-- The same of a run that is known to reach its end, where an admissible step may fault elsewhere. -/
theorem throughout_iff_guarded_of_exec {P : σ → Prop} (hP : ∀ s, Inv s → P s)
    (hok : ∀ s i s', Inv s → ok s i → step s i = .ok s' → Inv s')
    (hbad : ∀ s i s', Inv s → ¬ ok s i → step s i = .ok s' → ¬ P s') {s t : σ} {l : List ι}
    (hs : Inv s) (h : exec step s l = .ok t) : Throughout step P s l ↔ Guarded step ok s l := by
  induction l generalizing s with
  | nil => exact ⟨fun _ => trivial, fun _ => hP s hs⟩
  | cons i l ih =>
    obtain ⟨s', hs', hl⟩ := exec_cons_eq_ok h
    have hnext (u : σ) (hu : step s i = .ok u) : u = s' := Except.ok.inj (hu.symm.trans hs')
    constructor
    · rintro ⟨-, u, hu, hk⟩
      rw [hnext u hu] at hk
      have hi : ok s i := by
        by_contra hi
        refine hbad s i s' hs hi hs' ?_
        cases l with
        | nil => exact hk
        | cons => exact hk.1
      refine ⟨hi, ?_⟩
      intro v hv
      rw [hnext v hv]
      exact (ih (hok s i s' hs hi hs') hl).mp hk
    · rintro ⟨hi, hg⟩
      exact ⟨hP s hs, s', hs', (ih (hok s i s' hs hi hs') hl).mpr (hg s' hs')⟩

end

end Nachos.Lib
