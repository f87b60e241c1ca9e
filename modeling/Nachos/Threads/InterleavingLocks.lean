import Nachos.Threads.InterleavingSteps

/-!
# Who is inside a lock

A program says which locks a thread has at each point. While it is not about to acquire one of
them, again, it owns it, so that two threads are never inside the same lock.

* `Machine.Owns.step`: who is inside a lock owns it.
-/

namespace Nachos.Threads

open Nachos.Lib

variable {ℓ κ π σ ι : Type}

namespace Machine

/-- Who has a lock owns it, unless it has to acquire it. -/
def Owns (m : Machine ℓ κ π σ) (has : ℕ → ℓ → Prop) : Prop :=
  ∀ u l, has u l → ¬ (m.status u).Blocks l → (m.locks l).owner = some u

/-- The locks that the threads have at their points of the program. -/
def Has (m : Machine ℓ κ π σ) (holds : σ → π → ℓ → Prop) (u : ℕ) (l : ℓ) : Prop :=
  ∃ p, m.pc u = some p ∧ holds m.shared p l

namespace Owns

variable {m m' : Machine ℓ κ π σ} {has has' : ℕ → ℓ → Prop} {t : ℕ}

/-- Two threads are not inside the same lock. -/
theorem unique (h : m.Owns has) {t u : ℕ} {l : ℓ} (ht : has t l) (hu : has u l)
    (htb : ¬ (m.status t).Blocks l) (hub : ¬ (m.status u).Blocks l) : t = u :=
  Option.some_injective _ ((h t l ht htb).symm.trans (h u l hu hub))

theorem mono (h : m.Owns has) (hhas : ∀ u l, has' u l → has u l) : m.Owns has' :=
  fun u l hu hb => h u l (hhas u l hu) hb

/-- A thread that waits for nothing goes on in another way. -/
theorem setStatus (h : m.Owns has) (ht : ∀ l, ¬ (m.status t).Blocks l) (st : Status ℓ κ) :
    (m.setStatus t st).Owns has := by
  intro u l hu hb
  by_cases hut : u = t
  · subst hut
    exact h u l hu (ht l)
  · apply h u l hu
    have hstatus : (m.setStatus t st).status u = m.status u := Function.update_of_ne hut _ _
    rwa [hstatus] at hb

variable [DecidableEq ℓ]

/-- `Acquire`: the thread has one more lock. -/
theorem acquire (h : m.Owns has) (hok : m.Ok) {l : ℓ} (ht : ∀ k, k ≠ l → ¬ (m.status t).Blocks k)
    (hhas : ∀ k, has' t k → k = l ∨ has t k) (hother : ∀ u k, u ≠ t → has' u k → has u k) :
    (m.acquire t l).Owns has' := by
  intro u k hu hb
  show (Function.update m.locks l ((m.locks l).acquire t) k).owner = some u
  by_cases hut : u = t
  · subst hut
    have hstatus : (m.acquire u l).status u =
        if ((m.locks l).acquire u).HeldBy u then .ready else .acquiring l :=
      Function.update_self ..
    rw [hstatus] at hb
    by_cases hk : k = l
    · subst hk
      rw [Function.update_self]
      by_contra hheld
      change ¬ ((m.locks k).acquire u).HeldBy u at hheld
      rw [if_neg hheld] at hb
      exact hb rfl
    · rw [Function.update_of_ne hk]
      exact h u k ((hhas k hu).resolve_left hk) (ht k hk)
  · rw [status_acquire_of_ne hut] at hb
    have howner := h u k (hother u k hut hu) hb
    by_cases hk : k = l
    · subst hk
      rw [Function.update_self]
      exact (hok.lock k).owner_acquire howner
    · rwa [Function.update_of_ne hk]

/-- `Release`: the thread has one lock less. -/
theorem release (h : m.Owns has) (hok : m.Ok) {l : ℓ} (ht : ∀ k, ¬ (m.status t).Blocks k)
    (hhas : ∀ k, has' t k → k ≠ l ∧ has t k) (hother : ∀ u k, u ≠ t → has' u k → has u k) :
    (m.release t l).Owns has' := by
  intro u k hu hb
  by_cases hut : u = t
  · subst hut
    obtain ⟨hk, hu⟩ := hhas k hu
    rw [locks_release, Function.update_of_ne hk]
    exact h u k hu (ht k)
  · have hkeep (hb : ¬ (m.status u).Blocks k) : ((m.release t l).locks k).owner = some u := by
      have howner := h u k (hother u k hut hu) hb
      rw [locks_release]
      by_cases hk : k = l
      · subst hk
        rw [Function.update_self]
        exact Lock.owner_release_of_ne howner (Ne.symm hut)
      · rwa [Function.update_of_ne hk]
    rcases status_release hok t l u with hstatus | ⟨hacquiring, hready, howner⟩
    · rw [hstatus] at hb
      exact hkeep hb
    · by_cases hk : k = l
      · subst hk
        exact howner
      · apply hkeep
        rw [hacquiring]
        exact Ne.symm hk

variable [DecidableEq κ]

theorem signal (h : m.Owns has) (hok : m.Ok) (c : κ) (l : ℓ) : (m.signal c l).Owns has := by
  intro u k hu hb
  rw [locks_signal]
  apply h u k hu
  rcases status_signal hok c l u with hstatus | ⟨hwaiting, hwoken⟩
  · rwa [hstatus] at hb
  · rw [hwoken] at hb
    rwa [hwaiting]

theorem broadcast (h : m.Owns has) (hok : m.Ok) (ht : (m.status t).Awake)
    (htb : ∀ l, ¬ (m.status t).Blocks l) (c : κ) (l : ℓ) : (m.broadcast t c l).Owns has := by
  unfold Machine.broadcast
  split_ifs
  · exact h.setStatus htb _
  · refine (h.signal hok c l).setStatus ?_ _
    rwa [hok.status_signal_of_awake ht]

/-- `Wait`: the thread has the lock again afterwards. -/
theorem wait (h : m.Owns has) (hok : m.Ok) (ht : m.status t = .ready) (c : κ) (l : ℓ) :
    (m.wait t c l).Owns has := by
  unfold Machine.wait
  simp only
  split_ifs with hlock
  · exact h
  · intro u k hu hb
    have heq (conditions : κ → WaitQueue ℓ) :
        { m with conditions := conditions }.release t l =
          { m.release t l with conditions := conditions } := by
      unfold Machine.release
      simp only
      split <;> rfl
    rw [heq] at hb ⊢
    show ((m.release t l).locks k).owner = some u
    by_cases hut : u = t
    · subst hut
      change ¬ (Function.update (m.release u l).status u _ u).Blocks k at hb
      rw [Function.update_self] at hb
      have hk : k ≠ l := fun hk => hb hk.symm
      rw [locks_release, Function.update_of_ne hk]
      exact h u k hu (by rw [ht]; exact id)
    · change ¬ (Function.update (m.release t l).status t _ u).Blocks k at hb
      rw [Function.update_of_ne hut] at hb
      -- what another thread keeps in `Release`
      have hrelease : (m.release t l).Owns fun v k => v ≠ t ∧ has v k := by
        apply h.release hok
        · intro k
          rw [ht]
          exact id
        · intro k hv
          exact absurd rfl hv.1
        · intro v k _ hv
          exact hv.2
      exact hrelease u k ⟨hut, hu⟩ hb

end Owns

/-! ## Programs that keep to their locks -/

section

variable [DecidableEq ℓ] [DecidableEq κ] {program : π → ι → σ → Action ℓ κ π σ}
  {m m' : Machine ℓ κ π σ} {t : ℕ} {x : ι} {holds : σ → π → ℓ → Prop}

/-- After a call the thread has the locks that it had before, without the one that it releases,
    and with the one that it acquires; a new thread has none. -/
def Keeps (holds : σ → π → ℓ → Prop) (s : σ) (p : π) (a : Action ℓ κ π σ) : Prop :=
  (∀ l, holds a.shared a.pc l →
    match a.op with
    | .acquire k => l = k ∨ holds s p l
    | .release k => l ≠ k ∧ holds s p l
    | _ => holds s p l) ∧
  ∀ q l, a.op = .fork q → ¬ holds a.shared q l

/-- **One step**: who is inside a lock owns it. -/
theorem Owns.step (h : m.Owns (m.Has holds)) (hok : m.Ok)
    (hs : Machine.step program m (t, x) = .ok m')
    (hkeeps : ∀ p, m.pc t = some p → m.status t = .ready →
      Keeps holds m.shared p (program p x m.shared))
    (hother : ∀ p u q l, m.pc t = some p → m.status t = .ready → u ≠ t → m.pc u = some q →
      holds (program p x m.shared).shared q l → holds m.shared q l) :
    m'.Owns (m'.Has holds) := by
  rcases step_cases hs with ⟨p, hp, ht, rfl⟩ | ⟨p, l, hp, ht, rfl⟩ | ⟨p, c, l, hp, ht, rfl⟩
  · specialize hkeeps p hp ht
    specialize hother p
    generalize program p x m.shared = a at hkeeps hother ⊢
    have hpc : m.pc t ≠ none := by simp [hp]
    have hok' : (m.compute t a.shared a.pc).Ok := hok.compute hpc _ _
    have hb : ∀ l, ¬ (m.status t).Blocks l := by
      intro l
      rw [ht]
      exact id
    have hawake : ((m.compute t a.shared a.pc).status t).Awake := by
      show (m.status t).Awake
      rw [ht]
      trivial
    -- the locks of the threads after the step
    have hself : ∀ l, (m.compute t a.shared a.pc).Has holds t l → holds a.shared a.pc l := by
      rintro l ⟨q, hq, hl⟩
      change Function.update m.pc t (some a.pc) t = some q at hq
      rw [Function.update_self] at hq
      cases hq
      exact hl
    have hothers : ∀ u l, u ≠ t → (m.compute t a.shared a.pc).Has holds u l → m.Has holds u l := by
      rintro u l hu ⟨q, hq, hl⟩
      change Function.update m.pc t (some a.pc) u = some q at hq
      rw [Function.update_of_ne hu] at hq
      exact ⟨q, hq, hother u q l hp ht hu hq hl⟩
    have howns : (m.compute t a.shared a.pc).Owns (m.Has holds) := h
    -- a call that neither acquires nor releases
    have hmono (hop : ∀ l, holds a.shared a.pc l → holds m.shared p l) :
        (m.compute t a.shared a.pc).Owns ((m.compute t a.shared a.pc).Has holds) := by
      apply howns.mono
      intro u l hu
      by_cases hut : u = t
      · subst hut
        exact ⟨p, hp, hop l (hself l hu)⟩
      · exact hothers u l hut hu
    -- no call but `Fork` changes the points of the program
    have hhas (op : Op ℓ κ π)
        (hop : ((m.compute t a.shared a.pc).perform t op).pc = (m.compute t a.shared a.pc).pc) :
        ((m.compute t a.shared a.pc).perform t op).Has holds =
          (m.compute t a.shared a.pc).Has holds := by
      funext u l
      simp only [Has, hop, shared_perform]
    obtain ⟨hlocks, hfork⟩ := hkeeps
    cases hop : a.op with
    | acquire l =>
      rw [hop] at hlocks
      rw [hhas (.acquire l) (pc_acquire _ t l)]
      refine howns.acquire hok' (fun k _ => hb k) ?_ fun u k hu => hothers u k hu
      intro k hk
      exact (hlocks k (hself k hk)).imp_right fun hk => ⟨p, hp, hk⟩
    | release l =>
      rw [hop] at hlocks
      rw [hhas (.release l) (pc_release _ t l)]
      refine howns.release hok' hb ?_ fun u k hu => hothers u k hu
      intro k hk
      exact (hlocks k (hself k hk)).imp_right fun hk => ⟨p, hp, hk⟩
    | wait c l =>
      rw [hop] at hlocks
      rw [hhas (.wait c l) (pc_wait _ t c l)]
      exact (hmono hlocks).wait hok' ht c l
    | signal c l =>
      rw [hop] at hlocks
      rw [hhas (.signal c l) (pc_signal _ c l)]
      exact (hmono hlocks).signal hok' c l
    | broadcast c l =>
      rw [hop] at hlocks
      rw [hhas (.broadcast c l) (pc_broadcast _ t c l)]
      exact (hmono hlocks).broadcast hok' hawake hb c l
    | fork q =>
      rw [hop] at hlocks
      intro u l hu hub
      obtain ⟨r, hr, hl⟩ := hu
      change Function.update (m.compute t a.shared a.pc).pc (m.numThreads + 1) (some q) u =
        some r at hr
      by_cases hun : u = m.numThreads + 1
      · subst hun
        rw [Function.update_self] at hr
        cases hr
        exact absurd hl (hfork q l hop)
      · rw [Function.update_of_ne hun] at hr
        exact hmono hlocks u l ⟨r, hr, hl⟩ hub
    | yield =>
      rw [hop] at hlocks
      exact hmono hlocks
    | finish =>
      rw [hop] at hlocks
      rw [hhas .finish rfl]
      exact (hmono hlocks).setStatus hb _
  · refine h.acquire hok ?_ (fun k hk => Or.inr hk) fun u k _ hk => hk
    intro k hk
    rw [ht]
    exact Ne.symm hk
  · have hhas : (m.broadcast t c l).Has holds = m.Has holds := by
      funext u k
      simp only [Has, pc_broadcast, shared_broadcast]
    rw [hhas]
    apply h.broadcast hok
    · rw [ht]
      trivial
    · intro k
      rw [ht]
      exact id

end

end Machine

end Nachos.Threads
