import Mathlib

/-!
# Chains of cells

Cells in a memory, each of which has an item and a pointer to the next one. `none` is the null
pointer; a cell that is not allocated has no content.

* `Chain.eq_of_same_start`: a pointer is the start of one chain at most.
* `Chain.nodup`: no cell is in a chain twice.
* `Chain.insert`: a new cell behind one of the chain.
-/

namespace Nachos.Lib

variable {ω κ α : Type} {next : κ → Option ω} {item : κ → α}

/-- The cells from pointer `p` on, with their items, up to a null pointer. -/
def Chain (next : κ → Option ω) (item : κ → α) (memory : ω → Option κ) :
    Option ω → List (ω × α) → Prop
  | p, [] => p = none
  | p, (a, x) :: l =>
    p = some a ∧ ∃ c, memory a = some c ∧ item c = x ∧ Chain next item memory (next c) l

namespace Chain

variable {memory memory' : ω → Option κ} {p : Option ω} {a b : ω} {c c' d : κ} {x : α}
  {l l₁ l₂ : List (ω × α)}

/-- The null pointer is the start of the empty chain only. -/
theorem eq_nil_iff (h : Chain next item memory p l) : l = [] ↔ p = none := by
  cases l with
  | nil => exact iff_of_true rfl h
  | cons y l => simp [h.1]

/-- A new cell in front. -/
theorem cons (h : Chain next item memory p l) (ha : memory a = some c) (hc : next c = p) :
    Chain next item memory (some a) ((a, item c) :: l) := by
  subst hc
  exact ⟨rfl, c, ha, rfl, h⟩

/-- A chain only depends on its cells. -/
theorem congr (h : Chain next item memory p l) (hmem : ∀ y ∈ l, memory' y.1 = memory y.1) :
    Chain next item memory' p l := by
  induction l generalizing p with
  | nil => exact h
  | cons y l ih =>
    obtain ⟨hp, c, hc, hitem, hrest⟩ := h
    refine ⟨hp, c, ?_, hitem, ih hrest fun z hz => hmem z (by simp [hz])⟩
    rw [hmem y (by simp), hc]

/-- A cell of the chain, and what is behind it. -/
theorem cell (h : Chain next item memory p (l₁ ++ (a, x) :: l₂)) :
    ∃ c, memory a = some c ∧ item c = x ∧ Chain next item memory (next c) l₂ := by
  induction l₁ generalizing p with
  | nil =>
    obtain ⟨-, hcell⟩ := h
    exact hcell
  | cons y l₁ ih =>
    obtain ⟨-, c, -, -, hrest⟩ := h
    exact ih hrest

/-- The cells of a chain are allocated. -/
theorem ne_of_not_allocated (h : Chain next item memory p l) (hb : memory b = none) :
    ∀ y ∈ l, y.1 ≠ b := by
  rintro y hy rfl
  obtain ⟨l₁, l₂, rfl⟩ := List.append_of_mem hy
  obtain ⟨c, hc, -⟩ := h.cell
  rw [hb] at hc
  cases hc

/-- **A pointer is the start of one chain at most.** -/
theorem eq_of_same_start (h₁ : Chain next item memory p l₁) (h₂ : Chain next item memory p l₂) :
    l₁ = l₂ := by
  induction l₁ generalizing p l₂ with
  | nil => exact (h₂.eq_nil_iff.mpr h₁).symm
  | cons y l₁ ih =>
    cases l₂ with
    | nil => exact h₁.eq_nil_iff.mpr h₂
    | cons z l₂ =>
      obtain ⟨hp₁, c₁, hc₁, hitem₁, hrest₁⟩ := h₁
      obtain ⟨hp₂, c₂, hc₂, hitem₂, hrest₂⟩ := h₂
      have ha : y.1 = z.1 := Option.some.inj (hp₁.symm.trans hp₂)
      have hc : c₁ = c₂ := by
        rw [ha, hc₂] at hc₁
        exact (Option.some.inj hc₁).symm
      subst hc
      rw [ih hrest₁ hrest₂, Prod.ext ha (hitem₁.symm.trans hitem₂)]

/-- **No cell is in a chain twice**, since both chains from it on would be the same. -/
theorem nodup (h : Chain next item memory p l) : (l.map Prod.fst).Nodup := by
  induction l generalizing p with
  | nil => exact .nil
  | cons y l ih =>
    have hrest := h
    obtain ⟨hp, c, -, -, htail⟩ := hrest
    refine List.nodup_cons.mpr ⟨?_, ih htail⟩
    intro hmem
    obtain ⟨⟨b, z⟩, hz, hzy⟩ := List.mem_map.mp hmem
    obtain ⟨l₁, l₂, rfl⟩ := List.append_of_mem hz
    obtain ⟨d, hd, hitem, hbehind⟩ := htail.cell
    have hstart : p = some b := by rw [hp, ← hzy]
    have heq := eq_of_same_start h (hstart ▸ hitem ▸ hbehind.cons hd rfl)
    have := congrArg List.length heq
    simp at this
    omega

theorem ne_of_mem (h : Chain next item memory p (l₁ ++ (a, x) :: l₂)) :
    ∀ y ∈ l₁ ++ l₂, y.1 ≠ a := by
  rintro y hy rfl
  have hnodup := h.nodup
  rw [List.map_append, List.map_cons] at hnodup
  have hnot := (List.nodup_cons.mp (List.nodup_middle.mp hnodup)).1
  rw [← List.map_append] at hnot
  exact hnot (List.mem_map.mpr ⟨y, hy, rfl⟩)

/-- **A new cell** behind one of the chain, which is made to point to it. -/
theorem insert (h : Chain next item memory p (l₁ ++ (a, x) :: l₂)) (ha : memory a = some c)
    (ha' : memory' a = some c') (hitem : item c' = item c) (hc' : next c' = some b)
    (hb' : memory' b = some d) (hd : next d = next c)
    (hmem : ∀ y ∈ l₁ ++ l₂, memory' y.1 = memory y.1) :
    Chain next item memory' p (l₁ ++ (a, x) :: (b, item d) :: l₂) := by
  induction l₁ generalizing p with
  | nil =>
    obtain ⟨hp, c₀, hc₀, hx, hrest⟩ := h
    have hc : c₀ = c := Option.some.inj (hc₀.symm.trans ha)
    subst hc
    refine ⟨hp, c', ha', hitem.trans hx, ?_⟩
    rw [hc']
    exact (hrest.congr hmem).cons hb' hd
  | cons y l₁ ih =>
    obtain ⟨hp, c₀, hc₀, hy, hrest⟩ := h
    refine ⟨hp, c₀, ?_, hy, ih hrest fun z hz => hmem z (List.mem_cons_of_mem y hz)⟩
    rw [hmem y (by simp), hc₀]

end Chain

end Nachos.Lib
