import Nachos.Threads.InterleavingLocks

/-!
# Locks in order

If the locks have ranks, and a thread asks for a lock only while the locks that it may have are
lower, then no threads wait for each other in a circle.

* `Machine.Ordered.step`: who asks for a lock owns only lower ones.
* `Machine.Ordered.acyclic`: the wait for the owner of a lock has no cycle.
-/

namespace Nachos.Threads

open Nachos.Lib

variable {ℓ κ π σ ι α : Type}

/-- Where a thread blocks on a lock it does not go on. -/
theorem Status.Blocks.not_ready {st : Status ℓ κ} {l : ℓ} (h : st.Blocks l) : st ≠ .ready := by
  rintro rfl
  exact h

namespace Machine

/-- The thread `t` waits, in `Acquire` or on return from `Wait`, for a lock that the thread `u`
    holds. -/
def WaitsFor [DecidableEq ℓ] (m : Machine ℓ κ π σ) (t u : ℕ) : Prop :=
  ∃ l, (m.status t = .acquiring l ∨ m.status t = .woken l) ∧ (m.locks l).HeldBy u

/-- Who owns a lock or asks for it may have it, and who asks for a lock owns only lower ones. -/
structure Ordered [Preorder α] (rank : ℓ → α) (m : Machine ℓ κ π σ) (may : ℕ → ℓ → Prop) :
    Prop where
  owner : ∀ u l, (m.locks l).owner = some u → may u l
  blocks : ∀ u l, (m.status u).Blocks l → may u l
  below : ∀ u l k, (m.status u).Blocks l → (m.locks k).owner = some u → rank k < rank l

namespace Ordered

variable [Preorder α] {rank : ℓ → α} {m m' : Machine ℓ κ π σ} {may may' : ℕ → ℓ → Prop} {t : ℕ}

/-! ## No cycle -/

variable [DecidableEq ℓ]

/-- Along a chain of threads that wait the ranks of the locks go up. -/
theorem rank_le (h : m.Ordered rank may) {u : ℕ} (hchain : Relation.TransGen m.WaitsFor t u) :
    ∃ l k, (m.status t).Blocks l ∧ (m.locks k).owner = some u ∧ rank l ≤ rank k := by
  have hblocks {v : ℕ} {l : ℓ} (hv : m.status v = .acquiring l ∨ m.status v = .woken l) :
      (m.status v).Blocks l := by
    rcases hv with hv | hv <;> (rw [hv]; rfl)
  induction hchain with
  | single hwait =>
    obtain ⟨l, ht, howner⟩ := hwait
    exact ⟨l, l, hblocks ht, howner, le_refl _⟩
  | tail _ hwait ih =>
    obtain ⟨l, k, ht, howner, hle⟩ := ih
    obtain ⟨k', hu, howner'⟩ := hwait
    exact ⟨l, k', ht, howner', hle.trans (h.below _ k' k (hblocks hu) howner).le⟩

/-- **No deadlock**: no thread waits for itself, not through others either. -/
theorem acyclic (h : m.Ordered rank may) (t : ℕ) : ¬ Relation.TransGen m.WaitsFor t t := by
  intro hcycle
  obtain ⟨l, k, ht, howner, hle⟩ := h.rank_le hcycle
  exact absurd (h.below t l k ht howner) (not_lt_of_ge hle)

/-! ## Calls -/

omit [DecidableEq ℓ] in
theorem mono (h : m.Ordered rank may) (hmay : ∀ u l, may u l → may' u l) :
    m.Ordered rank may' :=
  ⟨fun u l hu => hmay u l (h.owner u l hu), fun u l hu => hmay u l (h.blocks u l hu), h.below⟩

omit [DecidableEq ℓ] in
/-- A thread goes on in a way that asks for no lock. -/
theorem setStatus (h : m.Ordered rank may) {st : Status ℓ κ} (hst : ∀ l, ¬ st.Blocks l) :
    (m.setStatus t st).Ordered rank may := by
  have hblocks {u : ℕ} {l : ℓ} (hu : ((m.setStatus t st).status u).Blocks l) :
      (m.status u).Blocks l := by
    by_cases hut : u = t
    · subst hut
      rw [show (m.setStatus u st).status u = st from Function.update_self ..] at hu
      exact absurd hu (hst l)
    · rwa [show (m.setStatus t st).status u = m.status u from Function.update_of_ne hut _ _] at hu
  exact ⟨h.owner, fun u l hu => h.blocks u l (hblocks hu), fun u l k hu => h.below u l k (hblocks hu)⟩

/-- `Acquire`: all locks that the thread owns are lower. -/
theorem acquire (h : m.Ordered rank may) {l : ℓ} (ht : ∀ k, (m.status t).Blocks k → k = l)
    (hmay : may t l) (hbelow : ∀ k, k ≠ l → (m.locks k).owner = some t → rank k < rank l) :
    (m.acquire t l).Ordered rank may := by
  have hself : (m.acquire t l).status t =
      if ((m.locks l).acquire t).HeldBy t then .ready else .acquiring l := Function.update_self ..
  have hother {u : ℕ} (hu : u ≠ t) : (m.acquire t l).status u = m.status u :=
    status_acquire_of_ne hu l
  have hlocks {k : ℓ} (hk : k ≠ l) : (m.acquire t l).locks k = m.locks k :=
    Function.update_of_ne hk _ _
  have howner {u : ℕ} {k : ℓ} (hu : ((m.acquire t l).locks k).owner = some u) :
      (m.locks k).owner = some u ∨ u = t ∧ k = l := by
    by_cases hk : k = l
    · subst hk
      rw [show (m.acquire t k).locks k = (m.locks k).acquire t from Function.update_self ..] at hu
      unfold Lock.acquire at hu
      split_ifs at hu
      · exact Or.inl hu
      · exact Or.inr ⟨(Option.some_injective _ hu).symm, rfl⟩
      · exact Or.inl hu
    · rw [hlocks hk] at hu
      exact Or.inl hu
  refine ⟨?_, ?_, ?_⟩
  · intro u k hu
    rcases howner hu with hold | ⟨rfl, rfl⟩
    · exact h.owner u k hold
    · exact hmay
  · intro u k hu
    by_cases hut : u = t
    · subst hut
      rw [hself] at hu
      split_ifs at hu
      · exact hu.elim
      · cases hu
        exact hmay
    · rw [hother hut] at hu
      exact h.blocks u k hu
  · intro u k k' hu hk'
    by_cases hut : u = t
    · subst hut
      rw [hself] at hu
      split_ifs at hu with hheld
      · exact hu.elim
      · cases hu
        have hne : k' ≠ l := by
          rintro rfl
          rw [show (m.acquire u k').locks k' = _ from Function.update_self ..] at hk'
          exact hheld hk'
        rw [hlocks hne] at hk'
        exact hbelow k' hne hk'
    · rw [hother hut] at hu
      have hold := (howner hk').resolve_right fun hnew => hut hnew.1
      exact h.below u k k' hu hold

/-- Who owns a lock after `Release`: who did, but for the thread itself, or who has waited
    for it. -/
theorem owner_release (hok : m.Ok) {l k : ℓ} {u : ℕ}
    (hu : ((m.release t l).locks k).owner = some u) :
    (m.locks k).owner = some u ∧ (u = t → k ≠ l) ∨
      m.status u = .acquiring k ∧ (m.release t l).status u = .ready := by
  rw [locks_release] at hu
  by_cases hk : k = l
  · subst hk
    rw [Function.update_self] at hu
    unfold Lock.release at hu
    split_ifs at hu with hheld
    · split at hu
      next v rest hqueue =>
        right
        cases hu
        constructor
        · exact (hok.acquiring k u).mp (by rw [hqueue]; exact List.mem_cons_self ..)
        · unfold Machine.release
          simp only [Lock.next, hqueue, if_pos hheld]
          exact Function.update_self ..
      next => cases hu
    · left
      refine ⟨hu, ?_⟩
      rintro rfl
      exact absurd hu hheld
  · rw [Function.update_of_ne hk] at hu
    exact Or.inl ⟨hu, fun _ => hk⟩

/-- `Release`: the thread has one lock less. -/
theorem release (h : m.Ordered rank may) (hok : m.Ok) (ht : m.status t = .ready) {l : ℓ}
    (hmay : ∀ u k, (u = t → k ≠ l) → may u k → may' u k) : (m.release t l).Ordered rank may' := by
  have hblocks {u : ℕ} {k : ℓ} (hu : ((m.release t l).status u).Blocks k) :
      u ≠ t ∧ (m.status u).Blocks k := by
    rcases status_release hok t l u with hsame | ⟨-, hready, -⟩
    · rw [hsame] at hu
      refine ⟨?_, hu⟩
      rintro rfl
      exact hu.not_ready ht
    · exact absurd hready hu.not_ready
  refine ⟨?_, ?_, ?_⟩
  · intro u k hu
    rcases owner_release hok hu with ⟨hold, hk⟩ | ⟨hacquiring, -⟩
    · exact hmay u k hk (h.owner u k hold)
    · apply hmay u k
      · rintro rfl
        cases ht.symm.trans hacquiring
      · apply h.blocks u k
        rw [hacquiring]
        rfl
  · intro u k hu
    obtain ⟨hut, hold⟩ := hblocks hu
    exact hmay u k (fun heq => absurd heq hut) (h.blocks u k hold)
  · intro u k k' hu hk'
    rcases owner_release hok hk' with ⟨hold, -⟩ | ⟨-, hready⟩
    · exact h.below u k k' (hblocks hu).2 hold
    · exact absurd hready hu.not_ready

variable [DecidableEq κ]

theorem signal (h : m.Ordered rank may) (hok : m.Ok) (c : κ) (l : ℓ) :
    (m.signal c l).Ordered rank may := by
  have hblocks {u : ℕ} {k : ℓ} (hu : ((m.signal c l).status u).Blocks k) :
      (m.status u).Blocks k := by
    rcases status_signal hok c l u with hsame | ⟨hwaiting, hwoken⟩
    · rwa [hsame] at hu
    · rw [hwoken] at hu
      rwa [hwaiting]
  refine ⟨?_, fun u k hu => h.blocks u k (hblocks hu), ?_⟩
  · rw [locks_signal]
    exact h.owner
  · rw [locks_signal]
    exact fun u k k' hu => h.below u k k' (hblocks hu)

theorem broadcast (h : m.Ordered rank may) (hok : m.Ok) (c : κ) (l : ℓ) :
    (m.broadcast t c l).Ordered rank may := by
  unfold Machine.broadcast
  split_ifs
  · exact h.setStatus fun _ => id
  · exact (h.signal hok c l).setStatus fun _ => id

/-- `Wait`: all other locks that the thread owns are lower. -/
theorem wait (h : m.Ordered rank may) (hok : m.Ok) (ht : m.status t = .ready) {l : ℓ}
    (hmay : may t l) (hbelow : ∀ k, k ≠ l → (m.locks k).owner = some t → rank k < rank l) (c : κ) :
    (m.wait t c l).Ordered rank may := by
  unfold Machine.wait
  simp only
  split_ifs with hlock
  · exact h
  · have heq (conditions : κ → WaitQueue ℓ) :
        { m with conditions := conditions }.release t l =
          { m.release t l with conditions := conditions } := by
      unfold Machine.release
      simp only
      split <;> rfl
    rw [heq]
    have hrelease : (m.release t l).Ordered rank may := h.release hok ht fun _ _ _ hu => hu
    have hother {u : ℕ} (hu : u ≠ t) :
        Function.update (m.release t l).status t (.waiting c l) u = (m.release t l).status u :=
      Function.update_of_ne hu _ _
    refine ⟨hrelease.owner, ?_, ?_⟩
    · intro u k hu
      change (Function.update (m.release t l).status t _ u).Blocks k at hu
      by_cases hut : u = t
      · subst hut
        rw [Function.update_self] at hu
        cases hu
        exact hmay
      · rw [hother hut] at hu
        exact hrelease.blocks u k hu
    · intro u k k' hu hk'
      change (Function.update (m.release t l).status t _ u).Blocks k at hu
      change ((m.release t l).locks k').owner = some u at hk'
      by_cases hut : u = t
      · subst hut
        rw [Function.update_self] at hu
        cases hu
        rcases owner_release hok hk' with ⟨hold, hne⟩ | ⟨hacquiring, -⟩
        · exact hbelow k' (hne rfl) hold
        · cases ht.symm.trans hacquiring
      · rw [hother hut] at hu
        exact hrelease.below u k k' hu hk'

end Ordered

/-! ## Programs that keep to the order -/

section

variable [Preorder α] [DecidableEq ℓ] [DecidableEq κ] {rank : ℓ → α}
  {program : π → ι → σ → Action ℓ κ π σ} {m m' : Machine ℓ κ π σ} {t : ℕ} {x : ι}
  {may : σ → π → ℓ → Prop}

/-- In a call the thread asks for a lock above those that it has. After it the thread has one lock
    more, or one less, and a new thread has none. -/
def Climbs (rank : ℓ → α) (has : σ → π → ℓ → Prop) (s : σ) (p : π) (a : Action ℓ κ π σ) : Prop :=
  match a.op with
  | .acquire l =>
    (∀ k, has s p k → rank k < rank l) ∧ ∀ k, has a.shared a.pc k ↔ k = l ∨ has s p k
  | .release l => ∀ k, has a.shared a.pc k ↔ k ≠ l ∧ has s p k
  | .wait _ l =>
    (∀ k, k ≠ l → has s p k → rank k < rank l) ∧ has s p l ∧
      ∀ k, has a.shared a.pc k ↔ has s p k
  | .fork q => (∀ k, ¬ has a.shared q k) ∧ ∀ k, has a.shared a.pc k ↔ has s p k
  | _ => ∀ k, has a.shared a.pc k ↔ has s p k

omit [DecidableEq ℓ] [DecidableEq κ] in
theorem Climbs.keeps {s : σ} {p : π} {a : Action ℓ κ π σ} (h : Climbs rank may s p a) :
    Keeps may s p a := by
  obtain ⟨shared, op, pc⟩ := a
  cases op with
  | acquire l => exact ⟨fun k => (h.2 k).mp, nofun⟩
  | release l => exact ⟨fun k => (h k).mp, nofun⟩
  | wait c l => exact ⟨fun k => (h.2.2 k).mp, nofun⟩
  | fork q =>
    refine ⟨fun k => (h.2 k).mp, ?_⟩
    intro q' k hq
    cases hq
    exact h.1 k
  | _ => exact ⟨fun k => (h k).mp, nofun⟩

omit [DecidableEq ℓ] [DecidableEq κ] in
/-- A routine that another one calls keeps to the order in it. -/
theorem Climbs.map {π' : Type} {may' : σ → π' → ℓ → Prop} {s : σ} {p : π'} {a : Action ℓ κ π' σ}
    (h : Climbs rank may' s p a) {f : π' → π} {q : π} (hp : ∀ k, may s q k ↔ may' s p k)
    (hf : ∀ r k, may a.shared (f r) k ↔ may' a.shared r k) : Climbs rank may s q (a.map f) := by
  obtain ⟨shared, op, pc⟩ := a
  cases op with
  | acquire l =>
    refine ⟨fun k hk => h.1 k ((hp k).mp hk), ?_⟩
    intro k
    rw [hp]
    exact (hf pc k).trans (h.2 k)
  | release l =>
    intro k
    rw [hp]
    exact (hf pc k).trans (h k)
  | wait c l =>
    refine ⟨fun k hkl hk => h.1 k hkl ((hp k).mp hk), (hp l).mpr h.2.1, ?_⟩
    intro k
    rw [hp]
    exact (hf pc k).trans (h.2.2 k)
  | fork r =>
    refine ⟨fun k hk => h.1 k ((hf r k).mp hk), ?_⟩
    intro k
    rw [hp]
    exact (hf pc k).trans (h.2 k)
  | _ =>
    intro k
    rw [hp]
    exact (hf pc k).trans (h k)

/-- **One step**: the locks stay in order. -/
theorem Ordered.step (h : m.Ordered rank (m.Has may)) (hok : m.Ok)
    (hs : Machine.step program m (t, x) = .ok m')
    (hclimbs : ∀ p, m.pc t = some p → m.status t = .ready →
      Climbs rank may m.shared p (program p x m.shared))
    (hother : ∀ p u q l, m.pc t = some p → m.status t = .ready → u ≠ t → m.pc u = some q →
      may m.shared q l → may (program p x m.shared).shared q l) :
    m'.Ordered rank (m'.Has may) := by
  rcases step_cases hs with ⟨p, hp, ht, rfl⟩ | ⟨p, l, hp, ht, rfl⟩ | ⟨p, c, l, hp, ht, rfl⟩
  · specialize hclimbs p hp ht
    specialize hother p
    generalize program p x m.shared = a at hclimbs hother ⊢
    have hpc : m.pc t ≠ none := by simp [hp]
    have hok' : (m.compute t a.shared a.pc).Ok := hok.compute hpc _ _
    have hcomputed : (m.compute t a.shared a.pc).Ordered rank (m.Has may) :=
      ⟨h.owner, h.blocks, h.below⟩
    -- what the threads may have after the step
    have hself (k : ℓ) (hk : may a.shared a.pc k) :
        ((m.compute t a.shared a.pc).perform t a.op).Has may t k :=
      ⟨a.pc, pc_computed_self hok hpc a, by rwa [shared_perform]⟩
    have hhas (u : ℕ) (k : ℓ) (hu : m.Has may u k)
        (hk : u = t → may m.shared p k → may a.shared a.pc k) :
        ((m.compute t a.shared a.pc).perform t a.op).Has may u k := by
      obtain ⟨q, hq, hmay⟩ := hu
      by_cases hut : u = t
      · subst hut
        cases hp.symm.trans hq
        exact hself k (hk rfl hmay)
      · refine ⟨q, pc_computed_of_ne hok hut hq a, ?_⟩
        rw [shared_perform]
        exact hother u q k hp ht hut hq hmay
    -- a call that gives no lock away
    have hmono (hkeeps : ∀ k, may m.shared p k → may a.shared a.pc k) :
        (m.compute t a.shared a.pc).Ordered rank
          (((m.compute t a.shared a.pc).perform t a.op).Has may) :=
      hcomputed.mono fun u k hu => hhas u k hu fun _ => hkeeps k
    have hmay {k : ℓ} (hk : (m.locks k).owner = some t) : may m.shared p k := by
      obtain ⟨q, hq, hmay⟩ := h.owner t k hk
      cases hp.symm.trans hq
      exact hmay
    unfold Climbs at hclimbs
    cases hop : a.op <;> rw [hop] at hclimbs hself hhas hmono
    case acquire l =>
      obtain ⟨hbelow, hkeeps⟩ := hclimbs
      refine (hmono fun k hk => (hkeeps k).mpr (Or.inr hk)).acquire ?_
        (hself l ((hkeeps l).mpr (Or.inl rfl))) fun k _ hk => hbelow k (hmay hk)
      intro k hk
      exact absurd ht hk.not_ready
    case release l =>
      apply hcomputed.release hok' ht
      intro u k hk hu
      exact hhas u k hu fun hut hold => (hclimbs k).mpr ⟨hk hut, hold⟩
    case wait c l =>
      obtain ⟨hbelow, hl, hkeeps⟩ := hclimbs
      exact (hmono fun k => (hkeeps k).mpr).wait hok' ht (hself l ((hkeeps l).mpr hl))
        (fun k hkl hk => hbelow k hkl (hmay hk)) c
    case signal c l => exact (hmono fun k => (hclimbs k).mpr).signal hok' c l
    case broadcast c l => exact (hmono fun k => (hclimbs k).mpr).broadcast hok' c l
    case fork q =>
      have hordered := hmono fun k => (hclimbs.2 k).mpr
      exact ⟨hordered.owner, hordered.blocks, hordered.below⟩
    case yield => exact hmono fun k => (hclimbs k).mpr
    case finish => exact (hmono fun k => (hclimbs k).mpr).setStatus fun _ => id
  · have hblocks : (m.status t).Blocks l := by
      rw [ht]
      rfl
    refine h.acquire ?_ (h.blocks t l hblocks) fun k _ hk => h.below t l k hblocks hk
    intro k hk
    rw [ht] at hk
    exact hk.symm
  · have hhas : (m.broadcast t c l).Has may = m.Has may := by
      funext u k
      simp only [Has, pc_broadcast, shared_broadcast]
    rw [hhas]
    exact h.broadcast hok c l

end

/-- Who asks for a lock after a call: who did, or the thread that called for it. -/
theorem blocks_perform {m : Machine ℓ κ π σ} {t u : ℕ} [DecidableEq ℓ] [DecidableEq κ] (hok : m.Ok)
    (ht : m.status t = .ready) {op : Op ℓ κ π} {l : ℓ} (h : ((m.perform t op).status u).Blocks l) :
    (m.status u).Blocks l ∨ u = t ∧ (op = .acquire l ∨ ∃ c, op = .wait c l) := by
  by_cases hut : u = t
  · subst hut
    have hself := status_perform_self hok ht op
    generalize (m.perform u op).status u = st at h hself
    right
    refine ⟨rfl, ?_⟩
    cases op with
    | acquire k =>
      rcases hself with rfl | rfl
      · exact h.elim
      · cases h
        exact Or.inl rfl
    | wait c k =>
      rcases hself with rfl | rfl
      · exact h.elim
      · cases h
        exact Or.inr ⟨c, rfl⟩
    | broadcast c k => rcases hself with rfl | rfl <;> exact h.elim
    | _ =>
      subst hself
      exact h.elim
  · left
    rcases status_perform_of_ne hok hut op with hsame | ⟨k, -, -, hready⟩ |
      ⟨c, k, -, hwaiting, hwoken⟩
    · rwa [hsame] at h
    · exact absurd hready h.not_ready
    · rw [hwoken] at h
      rwa [hwaiting]

/-- A thread that has to acquire a lock again asks for no other one. -/
theorem blocks_acquire {m : Machine ℓ κ π σ} {t u : ℕ} [DecidableEq ℓ] {l k : ℓ}
    (ht : m.status t = .woken l) (h : ((m.acquire t l).status u).Blocks k) :
    (m.status u).Blocks k := by
  by_cases hut : u = t
  · subst hut
    rw [show (m.acquire u l).status u = _ from Function.update_self ..] at h
    rw [ht]
    split_ifs at h
    · exact h.elim
    · exact h
  · rwa [status_acquire_of_ne hut] at h

theorem blocks_broadcast {m : Machine ℓ κ π σ} {t u : ℕ} [DecidableEq ℓ] [DecidableEq κ]
    (hok : m.Ok) {c : κ} {l k : ℓ} (h : ((m.broadcast t c l).status u).Blocks k) :
    (m.status u).Blocks k := by
  by_cases hut : u = t
  · subst hut
    unfold Machine.broadcast at h
    split_ifs at h
    · rw [show (m.setStatus u _).status u = _ from Function.update_self ..] at h
      exact h.elim
    · rw [show (setStatus _ u _).status u = _ from Function.update_self ..] at h
      exact h.elim
  · rcases status_perform_of_ne hok hut (.broadcast c l) with hsame | ⟨k, hop, -⟩ |
      ⟨c', k', -, hwaiting, hwoken⟩
    · rwa [show (m.broadcast t c l).status u = _ from hsame] at h
    · rcases hop with hop | ⟨_, hop⟩ <;> cases hop
    · rw [show (m.broadcast t c l).status u = _ from hwoken] at h
      rwa [hwaiting]

/-- At the start no thread has a lock or asks for one. -/
theorem Ordered.init [Preorder α] (rank : ℓ → α) (may : ℕ → ℓ → Prop) (main : π) (shared : σ) :
    (Machine.init main shared : Machine ℓ κ π σ).Ordered rank may :=
  ⟨nofun, nofun, nofun⟩

end Machine

end Nachos.Threads
