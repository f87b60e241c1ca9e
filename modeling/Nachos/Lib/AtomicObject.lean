import Nachos.Lib.Run

/-!
# Atomic objects

An operation on an atomic object changes its state and gives an answer at one point between its
call and its return. A history of calls and returns is linearizable if such points can be put
into it. Only the calls and returns are seen: of two operations that overlap either may come first.

* `follows_seen`: a system whose steps an atomic object can follow shows linearizable histories only.
* `Follows.order`: the operations in the order of their points.
-/

namespace Nachos.Lib

/-- What is seen of the threads of a system. -/
inductive Visible (τ ρ α : Type)
  | call (thread : τ) (operation : ρ)
  | ret (thread : τ) (answer : α)

/-- Where the operation of a thread is. -/
inductive CallPhase (ρ α : Type)
  | idle
  | called (operation : ρ)
  | applied (answer : α)

/-- The operation that a thread has called and that is not applied. -/
def CallPhase.pending {ρ α : Type} : CallPhase ρ α → List ρ
  | called operation => [operation]
  | idle | applied _ => []

/-- An object and the threads that use it. -/
@[ext]
structure AtomicObject (σ τ ρ α : Type) where
  object : σ
  phase : τ → CallPhase ρ α

variable {σ τ ρ α : Type} [DecidableEq τ]

/-- The operations of one thread. -/
def operationsOf (t : τ) (order : List (τ × ρ)) : List ρ :=
  (order.filter (·.1 = t)).map Prod.snd

/-- The operations that a thread has called. -/
def callsOf (t : τ) (h : List (Visible τ ρ α)) : List ρ :=
  h.filterMap fun
    | .call u operation => if u = t then some operation else none
    | .ret _ _ => none

namespace AtomicObject

/-- A thread calls an operation. -/
def call (s : AtomicObject σ τ ρ α) (t : τ) (operation : ρ) : AtomicObject σ τ ρ α :=
  { s with phase := Function.update s.phase t (.called operation) }

/-- The operation of a thread is applied. -/
def apply (f : σ → ρ → σ × α) (s : AtomicObject σ τ ρ α) (t : τ) (operation : ρ) :
    AtomicObject σ τ ρ α :=
  ⟨(f s.object operation).1, Function.update s.phase t (.applied (f s.object operation).2)⟩

/-- The operation of a thread returns. -/
def ret (s : AtomicObject σ τ ρ α) (t : τ) : AtomicObject σ τ ρ α :=
  { s with phase := Function.update s.phase t .idle }

/-- The steps of the object, with what is seen of them. -/
inductive Follows (f : σ → ρ → σ × α) :
    AtomicObject σ τ ρ α → List (Visible τ ρ α) → AtomicObject σ τ ρ α → Prop
  | nil (s : AtomicObject σ τ ρ α) : Follows f s [] s
  | call {s s' : AtomicObject σ τ ρ α} {h : List (Visible τ ρ α)} (t : τ) (operation : ρ) :
      s.phase t = .idle → Follows f (s.call t operation) h s' →
      Follows f s (.call t operation :: h) s'
  | apply {s s' : AtomicObject σ τ ρ α} {h : List (Visible τ ρ α)} (t : τ) (operation : ρ) :
      s.phase t = .called operation → Follows f (s.apply f t operation) h s' → Follows f s h s'
  | ret {s s' : AtomicObject σ τ ρ α} {h : List (Visible τ ρ α)} (t : τ) (answer : α) :
      s.phase t = .applied answer → Follows f (s.ret t) h s' → Follows f s (.ret t answer :: h) s'

theorem Follows.trans {f : σ → ρ → σ × α} {s s' s'' : AtomicObject σ τ ρ α}
    {h h' : List (Visible τ ρ α)} (hs : Follows f s h s') (hs' : Follows f s' h' s'') :
    Follows f s (h ++ h') s'' := by
  induction hs with
  | nil s => exact hs'
  | call t operation hphase _ ih => exact .call t operation hphase (ih hs')
  | apply t operation hphase _ ih => exact .apply t operation hphase (ih hs')
  | ret t answer hphase _ ih => exact .ret t answer hphase (ih hs')

/-- One call, application or return, in the form in which a system is compared with it. -/
theorem Follows.of_call {f : σ → ρ → σ × α} {s s' : AtomicObject σ τ ρ α} {t : τ} {operation : ρ}
    (hphase : s.phase t = .idle) (heq : s' = s.call t operation) :
    Follows f s [.call t operation] s' :=
  .call t operation hphase (heq ▸ .nil s')

theorem Follows.of_apply {f : σ → ρ → σ × α} {s s' : AtomicObject σ τ ρ α} {t : τ} {operation : ρ}
    (hphase : s.phase t = .called operation) (heq : s' = s.apply f t operation) :
    Follows f s [] s' :=
  .apply t operation hphase (heq ▸ .nil s')

theorem Follows.of_ret {f : σ → ρ → σ × α} {s s' : AtomicObject σ τ ρ α} {t : τ} {answer : α}
    (hphase : s.phase t = .applied answer) (heq : s' = s.ret t) :
    Follows f s [.ret t answer] s' :=
  .ret t answer hphase (heq ▸ .nil s')

theorem Follows.of_eq {f : σ → ρ → σ × α} {s s' : AtomicObject σ τ ρ α} (heq : s' = s) :
    Follows f s [] s' :=
  heq ▸ .nil s'

/-- **The order of the points**: each operation is applied once, and those of a thread in the order
    of its calls. -/
theorem Follows.order {f : σ → ρ → σ × α} {s s' : AtomicObject σ τ ρ α} {h : List (Visible τ ρ α)}
    (hs : Follows f s h s') :
    ∃ order : List (τ × ρ), s'.object = order.foldl (fun object p => (f object p.2).1) s.object ∧
      ∀ t, operationsOf t order ++ (s'.phase t).pending = (s.phase t).pending ++ callsOf t h := by
  induction hs with
  | nil s => exact ⟨[], rfl, fun t => by simp [operationsOf, callsOf]⟩
  | @call s s' h t operation hphase _ ih =>
    obtain ⟨order, hobject, hcalls⟩ := ih
    refine ⟨order, hobject, fun u => ?_⟩
    rw [hcalls u]
    by_cases hu : u = t
    · subst hu
      simp [AtomicObject.call, hphase, callsOf, CallPhase.pending]
    · simp [AtomicObject.call, callsOf, Function.update_of_ne hu, Ne.symm hu]
  | @apply s s' h t operation hphase _ ih =>
    obtain ⟨order, hobject, hcalls⟩ := ih
    refine ⟨(t, operation) :: order, hobject, fun u => ?_⟩
    have hu := hcalls u
    by_cases hut : u = t
    · subst hut
      simp only [AtomicObject.apply, Function.update_self, CallPhase.pending, List.nil_append] at hu
      simp [operationsOf, hphase, CallPhase.pending, ← hu]
    · simp only [AtomicObject.apply, Function.update_of_ne hut] at hu
      simp [operationsOf, Ne.symm hut, ← hu]
  | @ret s s' h t answer hphase _ ih =>
    obtain ⟨order, hobject, hcalls⟩ := ih
    refine ⟨order, hobject, fun u => ?_⟩
    rw [hcalls u]
    by_cases hu : u = t
    · subst hu
      simp [AtomicObject.ret, hphase, callsOf, CallPhase.pending]
    · simp [AtomicObject.ret, callsOf, Function.update_of_ne hu]

end AtomicObject

/-- **Linearizable**: an atomic object, nobody using it at first, can show the history. -/
def Linearizable (f : σ → ρ → σ × α) (init : σ) (h : List (Visible τ ρ α)) : Prop :=
  ∃ s, AtomicObject.Follows f ⟨init, fun _ => .idle⟩ h s

section

variable {κ ι ε : Type} {step : κ → ι → Except ε κ} {see : κ → ι → List (Visible τ ρ α)}

/-- What is seen of a run. -/
def seen (step : κ → ι → Except ε κ) (see : κ → ι → List (Visible τ ρ α)) :
    κ → List ι → List (Visible τ ρ α)
  | _, [] => []
  | s, i :: l =>
    match step s i with
    | .ok s' => see s i ++ seen step see s' l
    | .error _ => []

omit [DecidableEq τ] in
theorem seen_cons_ok {s s' : κ} {i : ι} {l : List ι} (h : step s i = .ok s') :
    seen step see s (i :: l) = see s i ++ seen step see s' l := by
  simp only [seen, h]

/-- **Simulation.** -/
theorem follows_seen {f : σ → ρ → σ × α} {Inv : κ → Prop} {ok : κ → ι → Prop}
    (abs : κ → AtomicObject σ τ ρ α)
    (hinv : ∀ s i s', Inv s → ok s i → step s i = .ok s' → Inv s')
    (hstep : ∀ s i s', Inv s → ok s i → step s i = .ok s' →
      AtomicObject.Follows f (abs s) (see s i) (abs s'))
    {s s' : κ} {l : List ι} (hs : Inv s) (hg : Guarded step ok s l) (h : exec step s l = .ok s') :
    AtomicObject.Follows f (abs s) (seen step see s l) (abs s') := by
  induction l generalizing s with
  | nil => cases h; exact .nil _
  | cons i l ih =>
    obtain ⟨s₁, hs₁, hl⟩ := exec_cons_eq_ok h
    rw [seen_cons_ok hs₁]
    exact (hstep s i s₁ hs hg.1 hs₁).trans (ih (hinv s i s₁ hs hg.1 hs₁) (hg.2 s₁ hs₁) hl)

end

end Nachos.Lib
