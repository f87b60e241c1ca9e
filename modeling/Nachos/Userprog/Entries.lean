import Nachos.Userprog.SynchManager

/-!
# The entries that a call uses

A call of `SynchManager` checks its indices while it has the locks of the tables, and then goes on
to use the entries without them. Nothing but the flags of an entry keeps `DestroyLock` from deleting
it in between.

* `code_spec`: what a thread does to the tables up to its next kernel call.
* `UsedInv.step`: as long as no step deletes an entry that another call uses, the entries that the
  calls use are live.
-/

namespace Nachos.Userprog

open Nachos.Lib Nachos.Threads

/-! ## What a call uses -/

/-- The index of the lock entry that a call uses, which it has checked. -/
def Point.lockIndex : Point → Option ℤ
  | .acquiring i | .acquired i | .released i => some i
  | .waitLeave _ i | .waiting _ i | .waited _ i | .signalled _ i => some i
  | _ => none

/-- The index of the condition's entry. -/
def Point.cvIndex : Point → Option ℤ
  | .waitLeave c _ | .waiting c _ | .waited c _ | .signalled c _ => some c
  | _ => none

/-- The entries that a call uses are live. -/
structure Used (s : Manager) (q : Point) : Prop where
  lock : ∀ i, q.lockIndex = some i → s.lockTable.Live i
  cv : ∀ c, q.cvIndex = some c → s.cvTable.Live c

/-- The lock is the one of the entry that the call uses. -/
def LockBacked (s : Manager) (q : Point) : LockName → Prop
  | .user n => ∃ i, q.lockIndex = some i ∧ s.lockTable.entries i.toNat = some n
  | .forLockTable | .forCVTable => True

/-- It is not a lock of the tables. -/
def UserBacked (s : Manager) (q : Point) : LockName → Prop
  | .user n => LockBacked s q (.user n)
  | .forLockTable | .forCVTable => False

/-- The condition is the one of the entry that the call uses. -/
def CVBacked (s : Manager) (q : Point) (c : ℕ) : Prop :=
  ∃ i, q.cvIndex = some i ∧ s.cvTable.entries i.toNat = some c

/-- What the thread sleeps in is what its call uses. -/
def Backed (s : Manager) (q : Point) : Status LockName ℕ → Prop
  | .acquiring l => LockBacked s q l
  | .woken l => UserBacked s q l
  | .waiting c l | .broadcasting c l => UserBacked s q l ∧ CVBacked s q c
  | .ready | .finished => True

/-- The same of a kernel call. -/
def OpBacked (s : Manager) (q : Point) : Op LockName ℕ Pc → Prop
  | .acquire l => LockBacked s q l
  | .wait c l | .broadcast c l => UserBacked s q l ∧ CVBacked s q c
  | .fork child => child.point = .user none
  | .release _ | .signal _ _ | .yield | .finish => True

namespace Table

/-- `ownerProcess == NULL && toBeUsed == false`. -/
def Unused (T : Table) (index : ℤ) : Prop :=
  ∃ n e, T.entry index = .ok (n, e) ∧ e.ownerProcess = none ∧ e.toBeUsed = false

/-- `toBeDeleted`. -/
def Doomed (T : Table) (index : ℤ) : Prop :=
  ∃ n e, T.entry index = .ok (n, e) ∧ e.toBeDeleted = true

end Table

/-- The lock entry that the step deletes. -/
def DeletesLock (s : Manager) : Point → ℤ → Prop
  | .destroyLock j, i => i = j ∧ s.lockTable.Unused j
  | .released j, i => i = j ∧ s.lockTable.Doomed j
  | _, _ => False

/-- The condition's entry that the step deletes. -/
def DeletesCV (s : Manager) : Point → ℤ → Prop
  | .destroyCondition d, c => c = d ∧ s.cvTable.Unused d
  | _, _ => False

/-! ## What a thread does to the tables -/

/-- **What a thread does** up to its next kernel call. -/
structure CodeSpec (s : Manager) (q : Point) (a : Code) : Prop where
  lockTable : Table.Keeps (DeletesLock s q) s.lockTable a.shared.lockTable
  cvTable : Table.Keeps (DeletesCV s q) s.cvTable a.shared.cvTable
  used : Used s q → Used a.shared a.pc.point
  backed : OpBacked a.shared a.pc.point a.op

/-- Both tables keep what their bits say. -/
structure Manager.Ok (s : Manager) : Prop where
  lockTable : s.lockTable.Ok
  cvTable : s.cvTable.Ok

theorem Used.of_none {s : Manager} {q : Point} (hlock : q.lockIndex = none)
    (hcv : q.cvIndex = none) : Used s q := by
  constructor
  · intro i hi
    rw [hlock] at hi
    cases hi
  · intro c hc
    rw [hcv] at hc
    cases hc

section

variable {s : Manager} {space : ℕ} {a : Code} {i c : ℤ} {q : Point}

theorem CodeSpec.of_same (h : s.Ok) (hshared : a.shared = s) (hused : Used s q → Used s a.pc.point)
    (hbacked : OpBacked s a.pc.point a.op) : CodeSpec s q a := by
  rw [← hshared] at hused hbacked
  constructor
  · rw [hshared]
    exact .refl h.lockTable
  · rw [hshared]
    exact .refl h.cvTable
  · rwa [← hshared]
  · exact hbacked

/-- The index that has been checked. -/
theorem valid_eq_true {T : Table} {limit index : ℤ} (h : T.Ok)
    (hlimit : (MaxNumLocks : ℤ) ≤ limit) (hv : T.valid limit index = .ok true) : T.Live index := by
  rw [T.valid_eq h hlimit] at hv
  split_ifs at hv
  exact of_decide_eq_true (Except.ok.inj hv)

theorem Table.destroy_keeps {T T' : Table} {limit index : ℤ} {deletes : ℤ → Prop} (h : T.Ok)
    (hdeletes : T.Unused index → deletes index) (hd : T.destroy limit index = .ok T') :
    Table.Keeps deletes T T' := by
  unfold Table.destroy at hd
  obtain ⟨b, -, hd⟩ := bind_eq_ok.mp hd
  split_ifs at hd
  · obtain ⟨⟨n, e⟩, he, hd⟩ := bind_eq_ok.mp hd
    obtain ⟨hlive, hn, hheap⟩ := (Table.entry_eq_ok h).mp he
    simp only at hd
    split_ifs at hd with hunused
    · cases hd
      refine .delete h hn ?_
      intro j hj heq
      have hji : j = index := by
        have h0 := hj.1
        have h0' := hlive.1
        omega
      rw [hji]
      exact hdeletes ⟨n, e, he, hunused⟩
    · cases hd
      exact .set h (by simp [hheap]) _
  · cases hd
    exact .refl h

theorem destroyLock_spec (h : s.Ok) (ha : destroyLock s space i = .ok a) :
    CodeSpec s (.destroyLock i) a := by
  unfold destroyLock at ha
  obtain ⟨T, hT, ha⟩ := bind_eq_ok.mp ha
  cases ha
  exact ⟨Table.destroy_keeps h.lockTable (fun hunused => ⟨rfl, hunused⟩) hT, .refl h.cvTable,
    fun _ => .of_none rfl rfl, trivial⟩

theorem destroyCondition_spec (h : s.Ok) (ha : destroyCondition s space c = .ok a) :
    CodeSpec s (.destroyCondition c) a := by
  unfold destroyCondition at ha
  obtain ⟨T, hT, ha⟩ := bind_eq_ok.mp ha
  cases ha
  exact ⟨.refl h.lockTable, Table.destroy_keeps h.cvTable (fun hunused => ⟨rfl, hunused⟩) hT,
    fun _ => .of_none rfl rfl, trivial⟩

theorem acquire_spec (h : s.Ok) (ha : acquire s space i = .ok a) : CodeSpec s (.acquire i) a := by
  unfold acquire at ha
  obtain ⟨b, -, ha⟩ := bind_eq_ok.mp ha
  split_ifs at ha
  · obtain ⟨⟨n, T⟩, hT, ha⟩ := bind_eq_ok.mp ha
    cases ha
    obtain ⟨hkeeps, hlive, -⟩ := Table.Keeps.modify h.lockTable hT
    refine ⟨hkeeps, .refl h.cvTable, fun _ => ⟨?_, nofun⟩, trivial⟩
    intro j hj
    cases hj
    exact hlive
  · cases ha
    exact .of_same h rfl (fun _ => .of_none rfl rfl) trivial

theorem acquiring_spec (h : s.Ok) (ha : acquiring s space i = .ok a) :
    CodeSpec s (.acquiring i) a := by
  unfold acquiring at ha
  obtain ⟨⟨n, e⟩, he, ha⟩ := bind_eq_ok.mp ha
  obtain ⟨-, hn, -⟩ := (Table.entry_eq_ok h.lockTable).mp he
  cases ha
  exact .of_same h rfl (fun hused => ⟨hused.lock, nofun⟩) ⟨i, rfl, hn⟩

theorem acquired_spec (h : s.Ok) (ha : acquired s space i = .ok a) :
    CodeSpec s (.acquired i) a := by
  unfold acquired at ha
  obtain ⟨⟨n, T⟩, hT, ha⟩ := bind_eq_ok.mp ha
  cases ha
  exact ⟨(Table.Keeps.modify h.lockTable hT).1, .refl h.cvTable, fun _ => .of_none rfl rfl,
    trivial⟩

theorem release_spec (h : s.Ok) (ha : release s space i = .ok a) : CodeSpec s (.release i) a := by
  unfold release at ha
  obtain ⟨b, -, ha⟩ := bind_eq_ok.mp ha
  split_ifs at ha
  · obtain ⟨⟨n, e⟩, he, ha⟩ := bind_eq_ok.mp ha
    obtain ⟨hlive, -, -⟩ := (Table.entry_eq_ok h.lockTable).mp he
    cases ha
    refine .of_same h rfl (fun _ => ⟨?_, nofun⟩) trivial
    intro j hj
    cases hj
    exact hlive
  · cases ha
    exact .of_same h rfl (fun _ => .of_none rfl rfl) trivial

theorem released_spec (h : s.Ok) (ha : released s space i = .ok a) :
    CodeSpec s (.released i) a := by
  unfold released at ha
  obtain ⟨⟨n, e⟩, he, ha⟩ := bind_eq_ok.mp ha
  obtain ⟨hlive, hn, hheap⟩ := (Table.entry_eq_ok h.lockTable).mp he
  cases ha
  refine ⟨?_, .refl h.cvTable, fun _ => .of_none rfl rfl, trivial⟩
  have hset (deletes : ℤ → Prop) : Table.Keeps deletes s.lockTable
      (s.lockTable.set n { e with ownerProcess := none }) := .set h.lockTable (by simp [hheap]) _
  show Table.Keeps _ s.lockTable (if e.toBeDeleted then _ else _)
  split_ifs with hdoomed
  · have hdelete : Table.Keeps (fun j => j = i)
        (s.lockTable.set n { e with ownerProcess := none })
        ((s.lockTable.set n { e with ownerProcess := none }).delete i.toNat n) := by
      refine .delete (hset fun _ => False).ok hn ?_
      intro j hj heq
      have h0 := hj.1
      have h0' := hlive.1
      omega
    refine ⟨hdelete.ok, ?_⟩
    intro j hj hnot
    exact hdelete.live j ((hset fun _ => False).live j hj id).1
      fun hji => hnot ⟨hji, n, e, he, hdoomed⟩
  · exact hset _

theorem onCondition_spec {f : CVCall} (h : s.Ok) (hlock : s.lockTable.Live i)
    (ha : onCondition s space c i f = .ok a) : CodeSpec s (.validate f c i) a := by
  cases f with
  | wait =>
    unfold onCondition at ha
    obtain ⟨⟨n, T⟩, hT, ha⟩ := bind_eq_ok.mp ha
    cases ha
    obtain ⟨hkeeps, hlive, -⟩ := Table.Keeps.modify h.cvTable hT
    refine ⟨.refl h.lockTable, hkeeps, fun _ => ⟨?_, ?_⟩, trivial⟩
    · intro j hj
      cases hj
      exact hlock
    · intro d hd
      cases hd
      exact hlive
  | signal =>
    unfold onCondition at ha
    obtain ⟨⟨d, e⟩, hd, ha⟩ := bind_eq_ok.mp ha
    obtain ⟨⟨n, e'⟩, hn, ha⟩ := bind_eq_ok.mp ha
    obtain ⟨hlive, -, -⟩ := (Table.entry_eq_ok h.cvTable).mp hd
    cases ha
    refine .of_same h rfl (fun _ => ⟨?_, ?_⟩) trivial
    · intro j hj
      cases hj
      exact hlock
    · intro d hd
      cases hd
      exact hlive
  | broadcast =>
    unfold onCondition at ha
    obtain ⟨⟨d, e⟩, hd, ha⟩ := bind_eq_ok.mp ha
    obtain ⟨⟨n, e'⟩, hn, ha⟩ := bind_eq_ok.mp ha
    obtain ⟨hlive, hcv, -⟩ := (Table.entry_eq_ok h.cvTable).mp hd
    obtain ⟨-, hentry, -⟩ := (Table.entry_eq_ok h.lockTable).mp hn
    cases ha
    refine .of_same h rfl (fun _ => ⟨?_, ?_⟩) ⟨⟨i, rfl, hentry⟩, c, rfl, hcv⟩
    · intro j hj
      cases hj
      exact hlock
    · intro d hd
      cases hd
      exact hlive

theorem validate_spec {f : CVCall} (h : s.Ok) (ha : validate s space f c i = .ok a) :
    CodeSpec s (.validate f c i) a := by
  unfold validate at ha
  obtain ⟨b, -, ha⟩ := bind_eq_ok.mp ha
  split_ifs at ha
  · obtain ⟨b', hb', ha⟩ := bind_eq_ok.mp ha
    split_ifs at ha with htrue
    · rw [htrue] at hb'
      exact onCondition_spec h (valid_eq_true h.lockTable (by simp) hb') ha
    · cases ha
      exact .of_same h rfl (fun _ => .of_none rfl rfl) trivial
  · cases ha
    exact .of_same h rfl (fun _ => .of_none rfl rfl) trivial

theorem waiting_spec (h : s.Ok) (ha : waiting s space c i = .ok a) :
    CodeSpec s (.waiting c i) a := by
  unfold waiting at ha
  obtain ⟨⟨d, T⟩, hT, ha⟩ := bind_eq_ok.mp ha
  obtain ⟨⟨n, e⟩, he, ha⟩ := bind_eq_ok.mp ha
  obtain ⟨-, hn, -⟩ := (Table.entry_eq_ok h.lockTable).mp he
  cases ha
  obtain ⟨hkeeps, hlive, hd⟩ := Table.Keeps.modify h.cvTable hT
  refine ⟨.refl h.lockTable, hkeeps, fun hused => ⟨hused.lock, ?_⟩, ⟨i, rfl, hn⟩, c, rfl, hd⟩
  intro j hj
  cases hj
  exact hlive

theorem waited_spec (h : s.Ok) (ha : waited s space c = .ok a) : CodeSpec s (.waited c i) a := by
  unfold waited at ha
  obtain ⟨⟨d, T⟩, hT, ha⟩ := bind_eq_ok.mp ha
  cases ha
  exact ⟨.refl h.lockTable, (Table.Keeps.modify h.cvTable hT).1, fun _ => .of_none rfl rfl,
    trivial⟩

theorem call_spec {r : Option ℤ} (h : s.Ok) (x : Request) :
    CodeSpec s (.user r) (call s space x) := by
  cases x with
  | fork child => exact .of_same h rfl (fun _ => .of_none rfl rfl) rfl
  | _ => exact .of_same h rfl (fun _ => .of_none rfl rfl) trivial

/-- **Every point of the program.** -/
theorem code_spec {pc : Pc} {x : Request} (h : s.Ok) (ha : code pc x s = .ok a) :
    CodeSpec s pc.point a := by
  obtain ⟨space, q⟩ := pc
  unfold code at ha
  cases q with
  | user r =>
    cases ha
    exact call_spec h x
  | createLock =>
    cases ha
    exact ⟨.create h.lockTable, .refl h.cvTable, fun _ => .of_none rfl rfl, trivial⟩
  | createCondition =>
    cases ha
    exact ⟨.refl h.lockTable, .create h.cvTable, fun _ => .of_none rfl rfl, trivial⟩
  | destroyLock i => exact destroyLock_spec h ha
  | destroyCondition c => exact destroyCondition_spec h ha
  | acquire i => exact acquire_spec h ha
  | acquiring i => exact acquiring_spec h ha
  | acquired i => exact acquired_spec h ha
  | release i => exact release_spec h ha
  | released i => exact released_spec h ha
  | onCondition f c i =>
    cases ha
    exact .of_same h rfl (fun _ => .of_none rfl rfl) trivial
  | validate f c i => exact validate_spec h ha
  | waitLeave c i =>
    cases ha
    exact .of_same h rfl (fun hused => ⟨hused.lock, hused.cv⟩) trivial
  | waiting c i => exact waiting_spec h ha
  | waited c i => exact waited_spec h ha
  | signalled c i =>
    cases ha
    exact .of_same h rfl (fun _ => .of_none rfl rfl) trivial
  | leave =>
    cases ha
    exact .of_same h rfl (fun _ => .of_none rfl rfl) trivial

end

/-! ## Runs -/

/-- No step deletes an entry that the call of another thread uses. -/
def KeepsUsed (m : System) (tx : ℕ × Request) : Prop :=
  ∀ pc u q, m.pc tx.1 = some pc → m.status tx.1 = .ready → u ≠ tx.1 → m.pc u = some q →
    (∀ i, DeletesLock m.shared pc.point i → q.point.lockIndex ≠ some i) ∧
      ∀ c, DeletesCV m.shared pc.point c → q.point.cvIndex ≠ some c

/-- **The invariant**: what the calls use is live. -/
def UsedInv (m : System) : Prop :=
  ∀ u q, m.pc u = some q → Used m.shared q.point ∧ Backed m.shared q.point (m.status u)

section

variable {m m' : System} {t : ℕ} {x : Request}

theorem Manager.Ok.new : Manager.new.Ok := ⟨.new, .new⟩

/-- **The tables** in every run. -/
theorem ok_step (h : m.Ok ∧ m.shared.Ok) (hs : managerStep m (t, x) = .ok m') :
    m'.Ok ∧ m'.shared.Ok := by
  refine ⟨h.1.step (step_of_managerStep hs), ?_⟩
  rcases managerStep_cases hs with ⟨pc, a, -, -, ha, rfl⟩ | ⟨pc, l, -, -, -, rfl⟩ |
    ⟨pc, c, l, -, -, -, -, rfl⟩
  · have hspec := code_spec h.2 ha
    rw [Machine.shared_perform]
    exact ⟨hspec.lockTable.ok, hspec.cvTable.ok⟩
  · exact h.2
  · rw [Machine.shared_broadcast]
    exact h.2

theorem ok_of_exec {events : List (ℕ × Request)} (h : exec managerStep start events = .ok m) :
    m.Ok ∧ m.shared.Ok :=
  exec_preserves (fun _ _ _ h hs => ok_step h hs) ⟨.init _ _, .new⟩ h

/-- What another thread uses stays where it is. -/
theorem keeps_used {s s' : Manager} {p q : Point}
    (hlock : Table.Keeps (DeletesLock s p) s.lockTable s'.lockTable)
    (hcv : Table.Keeps (DeletesCV s p) s.cvTable s'.cvTable)
    (hkeeps : (∀ i, DeletesLock s p i → q.lockIndex ≠ some i) ∧
      ∀ c, DeletesCV s p c → q.cvIndex ≠ some c) (hused : Used s q) :
    Used s' q ∧ ∀ st, Backed s q st → Backed s' q st := by
  have hlockLive (i : ℤ) (hi : q.lockIndex = some i) := hlock.live i (hused.lock i hi)
    fun hdeletes => hkeeps.1 i hdeletes hi
  have hcvLive (c : ℤ) (hc : q.cvIndex = some c) := hcv.live c (hused.cv c hc)
    fun hdeletes => hkeeps.2 c hdeletes hc
  have hentry {l : LockName} (hl : LockBacked s q l) : LockBacked s' q l := by
    cases l with
    | user n =>
      obtain ⟨i, hi, hn⟩ := hl
      exact ⟨i, hi, (hlockLive i hi).2.trans hn⟩
    | forLockTable => trivial
    | forCVTable => trivial
  have huser {l : LockName} (hl : UserBacked s q l) : UserBacked s' q l := by
    cases l with
    | user n => exact hentry (l := .user n) hl
    | forLockTable => exact hl
    | forCVTable => exact hl
  have hcond {c : ℕ} (hc : CVBacked s q c) : CVBacked s' q c := by
    obtain ⟨i, hi, hc⟩ := hc
    exact ⟨i, hi, (hcvLive i hi).2.trans hc⟩
  refine ⟨⟨fun i hi => (hlockLive i hi).1, fun c hc => (hcvLive c hc).1⟩, ?_⟩
  intro st hst
  cases st with
  | acquiring l => exact hentry hst
  | woken l => exact huser hst
  | waiting c l => exact ⟨huser hst.1, hcond hst.2⟩
  | broadcasting c l => exact ⟨huser hst.1, hcond hst.2⟩
  | ready => trivial
  | finished => trivial

/-- A lock of the users. -/
theorem LockBacked.of_user {s : Manager} {q : Point} {l : LockName} (h : UserBacked s q l) :
    LockBacked s q l := by
  cases l with
  | user n => exact h
  | forLockTable => trivial
  | forCVTable => trivial

/-- What the thread itself sleeps in afterwards. -/
theorem backed_self {s : Manager} {q : Point} (h : m.Ok) (ht : m.status t = .ready)
    {op : Op LockName ℕ Pc} (hop : OpBacked s q op) : Backed s q ((m.perform t op).status t) := by
  have hself := Machine.status_perform_self h ht op
  have hcases {st : Status LockName ℕ} (hst : Backed s q st)
      (h : (m.perform t op).status t = .ready ∨ (m.perform t op).status t = st) :
      Backed s q ((m.perform t op).status t) := by
    rcases h with hready | hsleeps
    · rw [hready]
      trivial
    · rwa [hsleeps]
  cases op with
  | acquire l => exact hcases (show Backed s q (.acquiring l) from hop) hself
  | wait c l => exact hcases (show Backed s q (.waiting c l) from hop) hself
  | broadcast c l => exact hcases (show Backed s q (.broadcasting c l) from hop) hself
  | _ =>
    rw [hself]
    trivial

/-- **One step.** -/
theorem UsedInv.step (h : UsedInv m) (hok : m.Ok ∧ m.shared.Ok) (hkeeps : KeepsUsed m (t, x))
    (hs : managerStep m (t, x) = .ok m') : UsedInv m' := by
  rcases managerStep_cases hs with ⟨pc, a, hp, ht, ha, rfl⟩ | ⟨pc, l, hp, ht, -, rfl⟩ |
    ⟨pc, c, l, hp, ht, -, -, rfl⟩
  · have hspec := code_spec hok.2 ha
    have hpc : m.pc t ≠ none := by simp [hp]
    have hok' : (m.compute t a.shared a.pc).Ok := hok.1.compute hpc _ _
    have hready : (m.compute t a.shared a.pc).status t = .ready := ht
    intro u q hq
    rw [Machine.shared_perform]
    show Used a.shared q.point ∧ Backed a.shared q.point _
    rcases Machine.pc_computed hok.1 hq with ⟨rfl, rfl⟩ | ⟨hu, hold⟩ | ⟨hnew, hfork⟩
    · exact ⟨hspec.used (h u pc hp).1, backed_self hok' hready hspec.backed⟩
    · obtain ⟨hused, hbacked⟩ := h u q hold
      obtain ⟨hused', hkept⟩ :=
        keeps_used hspec.lockTable hspec.cvTable (hkeeps pc u q hp ht hu hold) hused
      refine ⟨hused', ?_⟩
      have hbacked' : Backed a.shared q.point (m.status u) := hkept _ hbacked
      rcases Machine.status_perform_of_ne hok' hu a.op with
        hsame | ⟨l, -, -, hreleased⟩ | ⟨c, l, -, hwaiting, hwoken⟩
      · rw [hsame]
        exact hbacked'
      · rw [hreleased]
        trivial
      · rw [hwoken]
        rw [show m.status u = _ from hwaiting] at hbacked'
        exact hbacked'.1
    · have huser : q.point = .user none := by
        have hbacked := hspec.backed
        rw [hfork] at hbacked
        exact hbacked
      rw [huser]
      refine ⟨.of_none rfl rfl, ?_⟩
      have hu : u ≠ t := by
        rintro rfl
        exact hpc hnew
      rcases Machine.status_perform_of_ne hok' hu a.op with
        hsame | ⟨l, -, -, hreleased⟩ | ⟨c, l, -, hwaiting, -⟩
      · rw [hsame, show (m.compute t a.shared a.pc).status u = m.status u from rfl,
          hok.1.idle u hnew]
        trivial
      · rw [hreleased]
        trivial
      · have hidle := (hok.1.idle u hnew).symm.trans hwaiting
        cases hidle
  · intro u q hq
    obtain ⟨hused, hbacked⟩ := h u q hq
    refine ⟨hused, ?_⟩
    by_cases hu : u = t
    · subst hu
      rw [ht] at hbacked
      have hstatus : (m.acquire u l).status u =
          if ((m.locks l).acquire u).HeldBy u then .ready else .acquiring l :=
        Function.update_self ..
      rw [hstatus]
      split_ifs
      · trivial
      · exact LockBacked.of_user hbacked
    · rw [Machine.status_acquire_of_ne hu]
      exact hbacked
  · intro u q hq
    rw [Machine.pc_broadcast] at hq
    obtain ⟨hused, hbacked⟩ := h u q hq
    rw [Machine.shared_broadcast]
    refine ⟨hused, ?_⟩
    by_cases hu : u = t
    · subst hu
      rw [ht] at hbacked
      unfold Machine.broadcast
      split_ifs
      · rw [show (m.setStatus u .ready).status u = .ready from Function.update_self ..]
        trivial
      · rw [show ((m.signal c l).setStatus u (.broadcasting c l)).status u = .broadcasting c l from
          Function.update_self ..]
        exact hbacked
    · rcases Machine.status_perform_of_ne hok.1 hu (.broadcast c l) with
        hsame | ⟨l', -, -, hreleased⟩ | ⟨c', l', -, hwaiting, hwoken⟩
      · rw [show (m.broadcast t c l).status u = m.status u from hsame]
        exact hbacked
      · rw [show (m.broadcast t c l).status u = _ from hreleased]
        trivial
      · rw [show (m.broadcast t c l).status u = _ from hwoken]
        rw [hwaiting] at hbacked
        exact hbacked.1

end

end Nachos.Userprog
