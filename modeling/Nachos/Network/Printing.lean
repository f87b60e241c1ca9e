import Nachos.Lib.Run
import Nachos.Network.Process

/-!
# The numbers in replies

Which numbers `processMessage` prints with `itoa`, and into how many bytes. `sendError`, which would
print `-6`, is never called.

* `exact_iff`: a number is printed exactly and in bounds when it is not negative and has fewer digits
  than the buffer has bytes.
* `processMessage_tail`: what `processMessage` does then does not depend on the memory behind the
  buffers.
* `prints_exactly_iff`: the runs in which every number is printed so.
-/

namespace Nachos.Network

open Nachos.Lib

/-! ## One call of `itoa` -/

/-- A call `itoa(arr, size, val)`. -/
structure ItoaCall where
  size : ℕ
  val : ℤ
  deriving DecidableEq

namespace ItoaCall

/-- All writes stay inside `arr`, the text ends inside it whatever lies behind, and `atoi` reads the
    value back. -/
def Exact (c : ItoaCall) : Prop :=
  ∃ s, (∀ tail, itoa c.size c.val tail = .ok s) ∧ s.length < c.size ∧ atoi s = c.val

/-- The value is not negative and has fewer digits than the buffer has bytes. -/
def Fits (c : ItoaCall) : Prop := 0 ≤ c.val ∧ c.val < 10 ^ (c.size - 1)

instance (c : ItoaCall) : Decidable c.Fits := by
  unfold Fits
  infer_instance

end ItoaCall

/-- Without a NUL the text goes on behind the buffer. -/
theorem not_exact_of_full {c : ItoaCall} {max : ℕ} (hmax : itoaMax c.val = some max)
    (hsize : c.size ≤ max + 1) : ¬c.Exact := by
  rintro ⟨s, hs, -⟩
  have hnil := hs []
  have hdigit := hs ['0']
  unfold itoa at hnil hdigit
  rw [hmax] at hnil hdigit
  simp only [if_neg (show ¬max + 1 < c.size by omega)] at hnil hdigit
  split_ifs at hnil hdigit with heq
  have hlength := congrArg List.length (Except.ok.inj (hnil.trans hdigit.symm))
  simp at hlength

/-- A number that is too long does not leave room for the NUL. -/
theorem not_exact_of_ge {c : ItoaCall} (hsize : c.size ≤ 9) (h : 10 ^ (c.size - 1) ≤ c.val) :
    ¬c.Exact := by
  obtain ⟨n, hn⟩ := Int.eq_ofNat_of_zero_le ((by positivity : (0 : ℤ) ≤ 10 ^ (c.size - 1)).trans h)
  cases hmax : itoaMax c.val with
  | none =>
    rintro ⟨s, hs, -⟩
    have := hs []
    unfold itoa at this
    rw [hmax] at this
    cases this
  | some max =>
    apply not_exact_of_full hmax
    unfold itoaMax at hmax
    obtain ⟨i, hfind, rfl⟩ := Option.map_eq_some_iff.mp hmax
    have hi := List.mem_of_find?_eq_some hfind
    have hzero := List.find?_some hfind
    simp only [List.mem_range', decide_eq_true_eq] at hi hzero
    obtain ⟨k, hk, rfl⟩ := hi
    by_contra hlt
    rw [hn, tdiv_myexp_eq_zero (by omega)] at hzero
    have hpow : 10 ^ (1 + 1 * k) ≤ 10 ^ (c.size - 1) :=
      Nat.pow_le_pow_right (by norm_num) (by omega)
    have : 10 ^ (c.size - 1) ≤ n := by
      rw [hn] at h
      exact_mod_cast h
    omega

/-! ## Negative numbers -/

/-- The characters of a negative number are not above `'0'`. -/
theorem itoaDigits_neg {val subval : ℤ} {i n : ℕ} (hi : i ≤ 9) (hn : val - subval = -n)
    (hlt : n < 10 ^ (i + 1)) : ∀ dig ∈ itoaDigits val i subval, 39 ≤ dig ∧ dig ≤ 48 := by
  induction i generalizing subval n with
  | zero =>
    have h10 : n < 10 := by simpa using hlt
    simp only [itoaDigits, hn, myexp_eq (Nat.zero_le 9), pow_zero, Int.tdiv_one, List.mem_singleton,
      forall_eq]
    omega
  | succ i ih =>
    have hq : n / 10 ^ (i + 1) < 10 := by
      rw [Nat.div_lt_iff_lt_mul (by positivity), ← pow_succ']
      exact hlt
    have hdiv : (val - subval).tdiv (myexp (i + 1)) = -((n / 10 ^ (i + 1) : ℕ) : ℤ) := by
      rw [hn, myexp_eq hi, Int.neg_tdiv, Int.tdiv_eq_ediv_of_nonneg (by positivity)]
      push_cast
      rfl
    intro dig hdig
    simp only [itoaDigits, List.mem_cons] at hdig
    obtain hdig | hdig := hdig
    · rw [hdig, hdiv]
      generalize n / 10 ^ (i + 1) = d at hq
      omega
    · refine ih (n := n % 10 ^ (i + 1)) (by omega) ?_ (Nat.mod_lt _ (by positivity)) dig hdig
      have hmod := Nat.div_add_mod n (10 ^ (i + 1))
      have : ((10 ^ (i + 1) : ℕ) : ℤ) * ((n / 10 ^ (i + 1) : ℕ) : ℤ) +
          ((n % 10 ^ (i + 1) : ℕ) : ℤ) = (n : ℤ) := by exact_mod_cast hmod
      rw [hdiv, myexp_eq hi]
      push_cast at this ⊢
      linarith

/-- A text of such characters has no digit but `'0'`. -/
theorem leadingNat_of_le {s : List Char} (h : ∀ c ∈ s, c.toNat ≤ 48) : leadingNat s = 0 := by
  have hzero : ∀ t : List Char, (∀ c ∈ t, c = '0') → Nat.ofDigitChars 10 t 0 = 0 := by
    intro t ht
    induction t with
    | nil => rfl
    | cons c t ih =>
      rw [ht c (by simp), Nat.ofDigitChars_cons]
      exact ih fun c hc => ht c (List.mem_cons_of_mem _ hc)
  apply hzero
  intro c hc
  have hdigit := List.mem_takeWhile_imp hc
  have hle := h c ((List.takeWhile_sublist _).subset hc)
  have hge : 48 ≤ c.toNat := by
    simp only [Char.isDigit, Bool.and_eq_true, decide_eq_true_eq] at hdigit
    exact UInt32.le_iff_toNat_le.mp hdigit.1
  exact Char.toNat_inj.mp (le_antisymm hle hge)

theorem atoi_of_le {s : List Char} (h : ∀ c ∈ s, c.toNat ≤ 48) : atoi s = 0 := by
  have hdrop : ∀ c ∈ s.dropWhile isSpace, c.toNat ≤ 48 :=
    fun c hc => h c ((List.dropWhile_sublist _).subset hc)
  unfold atoi
  split
  · next t heq =>
    rw [leadingNat_of_le fun c hc => hdrop c (heq ▸ List.mem_cons_of_mem _ hc)]
    rfl
  · next t heq =>
    rw [leadingNat_of_le fun c hc => hdrop c (heq ▸ List.mem_cons_of_mem _ hc)]
    rfl
  · rw [leadingNat_of_le hdrop]
    rfl

/-- A negative number is not read back. -/
theorem not_exact_of_neg {c : ItoaCall} (hsize : c.size ≤ 9) (h : c.val < 0) : ¬c.Exact := by
  rintro ⟨s, hs, hlen, hatoi⟩
  obtain ⟨n, hn⟩ : ∃ n : ℕ, c.val = -n := ⟨c.val.natAbs, by omega⟩
  have hnil := hs []
  unfold itoa at hnil
  cases hmax : itoaMax c.val with
  | none =>
    rw [hmax] at hnil
    cases hnil
  | some max =>
    by_cases hfull : c.size ≤ max + 1
    · exact not_exact_of_full hmax hfull ⟨s, hs, hlen, hatoi⟩
    · have hlt : n < 10 ^ (max + 1) := by
        unfold itoaMax at hmax
        obtain ⟨i, hfind, rfl⟩ := Option.map_eq_some_iff.mp hmax
        have hi := List.mem_of_find?_eq_some hfind
        have hzero := List.find?_some hfind
        simp only [List.mem_range', decide_eq_true_eq] at hi hzero
        obtain ⟨k, hk, rfl⟩ := hi
        rw [hn, Int.neg_tdiv, neg_eq_zero, tdiv_myexp_eq_zero (by omega)] at hzero
        rwa [show 1 + 1 * k - 1 + 1 = 1 + 1 * k by omega]
      simp only [hmax, if_pos (show max + 1 < c.size by omega), Except.ok.injEq] at hnil
      have hdigits := itoaDigits_neg (by omega) (show c.val - 0 = -_ by omega) hlt
      have hzero : atoi s = 0 := by
        apply atoi_of_le
        rw [← hnil]
        intro ch hch
        obtain ⟨dig, hdig, rfl⟩ := List.mem_map.mp hch
        obtain ⟨hlow, hhigh⟩ := hdigits dig hdig
        obtain ⟨d, rfl⟩ := Int.eq_ofNat_of_zero_le ((by norm_num : (0 : ℤ) ≤ 39).trans hlow)
        have hd : d < 128 := by omega
        rw [Int.toNat_natCast, Char.toNat_ofNat, if_pos (by simp [Nat.isValidChar]; omega)]
        omega
      omega

/-- **A number is printed exactly if and only if** it is not negative and has fewer digits than the
    buffer has bytes. -/
theorem exact_iff {c : ItoaCall} (hone : 1 < c.size) (hsize : c.size ≤ 9) : c.Exact ↔ c.Fits := by
  constructor
  · intro h
    constructor
    · by_contra hneg
      exact not_exact_of_neg hsize (by omega) h
    · by_contra hge
      exact not_exact_of_ge hsize (by omega) h
  · rintro ⟨hpos, hlt⟩
    refine ⟨fmtInt c.val, itoa_fits hone hsize hpos hlt, ?_, atoi_fmtInt _⟩
    have := length_fmtInt_le_of_nonneg (k := c.size - 1) (by omega) hpos hlt
    omega

/-! ## The calls of `processMessage` -/

section

variable (t : NetThread) (g : Globals)

/-- `Acquire`, `Release` and `DestroyLock` print the id of a lock that is here. -/
def lockCalls (lockIndex : ℤ) : List ItoaCall :=
  if lockIndex < 0 ∨ lockIndex > MAX_NUM_GLOBAL_IDS * MAX_DLOCK - 1 then []
  else if lockIndex.tdiv MAX_DLOCK = t.uniqueGlobalID then
    match g.dlocks (lockIndex.tmod MAX_DLOCK).toNat with
    | none => []
    | some lock => [⟨5, lock.globalId⟩]
  else []

/-- `GetMV` (netcall.cc:2520, 2529 and 2542). -/
def getMvCalls (mvIndex : ℤ) : List ItoaCall :=
  if mvIndex < 0 ∨ mvIndex > MAX_NUM_GLOBAL_IDS * MAX_DMV - 1 then [⟨4, 999⟩]
  else if mvIndex.tdiv MAX_DMV = t.uniqueGlobalID then
    match g.mvs (mvIndex.tmod MAX_DMV).toNat with
    | none => [⟨4, 999⟩]
    | some mv => [⟨4, mv.value⟩]
  else []

/-- `DestroyMV` (netcall.cc:2583). -/
def destroyMvCalls (mvIndex : ℤ) : List ItoaCall :=
  if mvIndex < 0 ∨ mvIndex > MAX_NUM_GLOBAL_IDS * MAX_DMV - 1 then []
  else if mvIndex.tdiv MAX_DMV = t.uniqueGlobalID then
    match g.mvs (mvIndex.tmod MAX_DMV).toNat with
    | none => []
    | some mv => [⟨5, mv.globalId⟩]
  else []

/-- The branch of `Wait`, `Signal` and `Broadcast` with both objects here. -/
def bothCalls (cvIndex lockIndex : ℤ) (calls : ℕ → ℕ → DistributedCV → List ItoaCall) :
    List ItoaCall :=
  if lockIndex.tdiv MAX_DLOCK = t.uniqueGlobalID ∧ cvIndex.tdiv MAX_DCV = t.uniqueGlobalID then
    match g.dlocks (lockIndex.tmod MAX_DLOCK).toNat with
    | none => []
    | some lock =>
      if lock.ownerMailID = -1 then []
      else
        match g.cvs (cvIndex.tmod MAX_DCV).toNat with
        | none => []
        | some cv => calls (lockIndex.tmod MAX_DLOCK).toNat (cvIndex.tmod MAX_DCV).toNat cv
  else []

/-- `Wait` (netcall.cc:2697). -/
def waitCalls (cvIndex lockIndex : ℤ) : List ItoaCall :=
  if lockIndex < 0 ∨ lockIndex > MAX_NUM_GLOBAL_IDS * (MAX_DLOCK - 1) then []
  else if cvIndex < 0 ∨ cvIndex > MAX_NUM_GLOBAL_IDS * (MAX_DCV - 1) then []
  else bothCalls t g cvIndex lockIndex fun _ cvSlot _ => [⟨5, t.globalId MAX_DCV cvSlot⟩]

/-- `Signal` (netcall.cc:2805), and `Acquire` for the client that it wakes. -/
def signalCalls (cvIndex lockIndex : ℤ) : List ItoaCall :=
  if lockIndex < 0 ∨ lockIndex > MAX_NUM_GLOBAL_IDS * MAX_DLOCK - 1 then []
  else if cvIndex < 0 ∨ cvIndex > MAX_NUM_GLOBAL_IDS * MAX_DCV - 1 then []
  else bothCalls t g cvIndex lockIndex fun lockSlot cvSlot cv =>
    ⟨5, cvSlot⟩ ::
      if cv.waitQueue = [] ∨ cv.firstLock ≠ t.globalId MAX_DLOCK lockSlot then []
      else lockCalls t g (t.globalId MAX_DLOCK lockSlot)

/-- `Broadcast` (netcall.cc:2924), and `Acquire` for each client. -/
def broadcastCalls (cvIndex lockIndex : ℤ) : List ItoaCall :=
  if lockIndex < 0 ∨ lockIndex > MAX_DLOCK - 1 then []
  else if cvIndex < 0 ∨ cvIndex > MAX_DCV - 1 then []
  else bothCalls t g cvIndex lockIndex fun lockSlot cvSlot cv =>
    ⟨5, cvSlot⟩ ::
      if cv.waitQueue ≠ [] ∧ cv.firstLock ≠ t.globalId MAX_DLOCK lockSlot then []
      else cv.waitQueue.flatMap fun _ => lockCalls t g (t.globalId MAX_DLOCK lockSlot)

end

namespace Call

/-- A request with one argument. -/
def oneCalls (c : Call) (max : ℕ) (calls : ℤ → List ItoaCall) (s : Text) : List ItoaCall :=
  match readOne c.client s with
  | .error _ => []
  | .ok (_, buf) => if (atoi buf).tdiv max ≠ c.t.uniqueGlobalID then [] else calls (atoi buf)

/-- A request with two arguments. -/
def twoCalls (c : Call) (machine : ℤ → ℤ → ℤ) (calls : ℤ → ℤ → List ItoaCall)
    (args : Except Fault (ℤ × Text × Text)) : List ItoaCall :=
  match args with
  | .error _ => []
  | .ok (_, buf, buf') =>
    if machine (atoi buf) (atoi buf') ≠ c.t.uniqueGlobalID then []
    else calls (atoi buf) (atoi buf')

/-- `DESTROYCV` (netcall.cc:2132). -/
def deleteCvCalls (g : Globals) (cvIndex : ℤ) : List ItoaCall :=
  if cvIndex < 0 ∨ cvIndex > MAX_NUM_GLOBAL_IDS * MAX_DCV - 1 then []
  else
    match g.cvs (cvIndex.tmod MAX_DCV).toNat with
    | none => []
    | some _ => [⟨4, ((cvIndex.tmod MAX_DCV).toNat : ℕ)⟩]

/-- `WAITCV` (netcall.cc:1611). -/
def waitCvCalls (c : Call) (s : Text) (g : Globals) : List ItoaCall :=
  match readTwo 5 [] c.client s with
  | .error _ => []
  | .ok (_, cvNum, _) =>
    match index MAX_DCV ((atoi cvNum).tmod MAX_DCV) with
    | .error _ => []
    | .ok slot =>
      match g.cvs slot with
      | none => []
      | some _ => [⟨5, atoi cvNum⟩]

/-- `SIGNALRESPONSE` (netcall.cc:1828), and `Acquire` for the client that is woken. -/
def signalResponseCalls (c : Call) (s : Text) (g : Globals) : List ItoaCall :=
  match readOne c.client s with
  | .error _ => []
  | .ok (clientNum, lockIndexBuf) =>
    if atoi lockIndexBuf = -1 then []
    else
      match index MAX_CLIENTS clientNum with
      | .error _ => []
      | .ok i =>
        ⟨5, g.waitingForSignalCvs i⟩ ::
          match index MAX_DCV (g.waitingForSignalCvs i) with
          | .error _ => []
          | .ok slot =>
            match g.cvs slot with
            | none => []
            | some cv =>
              if cv.waitQueue = [] ∨ cv.firstLock ≠ atoi lockIndexBuf then []
              else lockCalls c.t g (atoi lockIndexBuf)

/-- `BROADCASTRESPONSE` (netcall.cc:2020), and `Acquire` for each client. -/
def broadcastResponseCalls (c : Call) (s : Text) (g : Globals) : List ItoaCall :=
  match readOne c.client s with
  | .error _ => []
  | .ok (clientNum, lockIndexBuf) =>
    if atoi lockIndexBuf = -1 then []
    else
      match index MAX_CLIENTS clientNum with
      | .error _ => []
      | .ok i =>
        ⟨5, g.waitingForBroadcastCvs i⟩ ::
          match index MAX_DCV (g.waitingForBroadcastCvs i) with
          | .error _ => []
          | .ok slot =>
            match g.cvs slot with
            | none => []
            | some cv =>
              if cv.waitQueue ≠ [] ∧ cv.firstLock ≠ (atoi lockIndexBuf).tmod MAX_DLOCK then []
              else cv.waitQueue.flatMap fun _ =>
                lockCalls c.t g ((atoi lockIndexBuf).tmod MAX_DLOCK)

end Call

/-- The calls of a case of the switch. -/
def dispatchCalls (c : Call) (r : RequestType) (s : Text) (g : Globals) : List ItoaCall :=
  match r with
  | .acquire | .release | .destroyLock => c.oneCalls MAX_DLOCK (lockCalls c.t g) s
  | .getMv => c.oneCalls MAX_DMV (getMvCalls c.t g) s
  | .destroyMv => c.oneCalls MAX_DMV (destroyMvCalls c.t g) s
  | .wait => c.twoCalls (fun _ lock => lock.tdiv MAX_DLOCK) (waitCalls c.t g)
      (readTwo 5 [] c.client s)
  | .signal =>
    if s.head? ≠ some '_' then []
    else c.twoCalls (fun cv _ => cv.tdiv MAX_DCV) (signalCalls c.t g) (readTwo 5 [] (-1) s)
  | .broadcast => c.twoCalls (fun cv _ => cv.tdiv MAX_DCV) (broadcastCalls c.t g)
      (readTwo 5 [] c.client s)
  | .destroyCv => c.oneCalls MAX_DCV (Call.deleteCvCalls g) s
  | .waitCv => c.waitCvCalls s g
  | .signalResponse => c.signalResponseCalls s g
  | .broadcastResponse => c.broadcastResponseCalls s g
  | _ => []

/-- The calls of `itoa` while a message is processed. -/
def processCalls (c : Call) (msgData : Text) (localNetThreadInfo : List NetThread) (g : Globals) :
    List ItoaCall :=
  if g.serverCount ≠ localNetThreadInfo.length then []
  else
    match readType msgData with
    | .error _ => []
    | .ok (requestType, rest) =>
      match RequestType.ofCode requestType, rest with
      | some r, some s => dispatchCalls c r s g
      | _, _ => []

/-! ## The memory behind the buffers -/

/-- All calls of a list are exact. -/
abbrev AllExact (calls : List ItoaCall) : Prop := ∀ x ∈ calls, x.Exact

theorem ItoaCall.Exact.eq {size : ℕ} {val : ℤ} (h : ItoaCall.Exact ⟨size, val⟩) (tail tail' : Text) :
    itoa size val tail = itoa size val tail' := by
  obtain ⟨s, hs, -⟩ := h
  rw [hs tail, hs tail']

section

variable {t : NetThread} {g : Globals} {e : Ambient} {index clientNum cvIndex lockIndex : ℤ}
  {outPktHdr inPktHdr : PacketHeader} {inMailHdr : MailHeader} {r : Result}

theorem acquireOwn_tail {slot : ℕ} {lock : DistributedLock}
    (h : ItoaCall.Exact ⟨5, lock.globalId⟩) (tail tail' : Text) :
    acquireOwn t tail outPktHdr clientNum slot lock g =
      acquireOwn t tail' outPktHdr clientNum slot lock g := by
  unfold acquireOwn
  rw [h.eq tail tail']

theorem acquire_tail (h : AllExact (lockCalls t g index)) (tail tail' : Text) :
    acquire t tail index outPktHdr inPktHdr inMailHdr clientNum g =
      acquire t tail' index outPktHdr inPktHdr inMailHdr clientNum g := by
  unfold lockCalls at h
  unfold acquire
  by_cases hrange : index < 0 ∨ index > MAX_NUM_GLOBAL_IDS * MAX_DLOCK - 1
  · simp only [if_pos hrange]
  · by_cases hown : index.tdiv MAX_DLOCK = t.uniqueGlobalID
    · simp only [if_neg hrange, if_pos hown] at h ⊢
      cases hlock : g.dlocks (index.tmod MAX_DLOCK).toNat with
      | none => rfl
      | some lock =>
        simp only [hlock, AllExact, List.mem_singleton, forall_eq] at h
        exact acquireOwn_tail h tail tail'
    · simp only [if_neg hrange, if_neg hown]

theorem release_tail (h : AllExact (lockCalls t g index)) (tail : ℕ → Text) :
    release t { e with heapTail := tail } index outPktHdr clientNum g =
      release t e index outPktHdr clientNum g := by
  unfold lockCalls at h
  unfold release
  split_ifs at h ⊢ with hrange hown
  · rfl
  · cases hlock : g.dlocks (index.tmod MAX_DLOCK).toNat with
    | none => simp only [hlock]
    | some lock =>
      simp only [hlock, AllExact, List.mem_singleton, forall_eq] at h
      simp only [hlock, releaseOwn, h.eq (tail 0) (e.heapTail 0)]
  · rfl

theorem destroyLock_tail (h : AllExact (lockCalls t g index)) (tail : ℕ → Text) :
    destroyLock t { e with heapTail := tail } index outPktHdr clientNum g =
      destroyLock t e index outPktHdr clientNum g := by
  unfold lockCalls at h
  unfold destroyLock
  split_ifs at h ⊢ with hrange hown
  · rfl
  · cases hlock : g.dlocks (index.tmod MAX_DLOCK).toNat with
    | none => simp only [hlock]
    | some lock =>
      simp only [hlock, AllExact, List.mem_singleton, forall_eq] at h
      simp only [hlock, h.eq (tail 0) (e.heapTail 0)]
  · rfl

theorem getMV_tail (h : AllExact (getMvCalls t g index)) (tail : ℕ → Text) :
    getMV t { e with heapTail := tail } index outPktHdr inPktHdr inMailHdr g =
      getMV t e index outPktHdr inPktHdr inMailHdr g := by
  unfold getMvCalls at h
  unfold getMV
  split_ifs at h ⊢ with hrange hown
  · simp only [AllExact, List.mem_singleton, forall_eq] at h
    simp only [h.eq (tail 0) (e.heapTail 0)]
  · cases hmv : g.mvs (index.tmod MAX_DMV).toNat with
    | none =>
      simp only [hmv, AllExact, List.mem_singleton, forall_eq] at h
      simp only [h.eq (tail 0) (e.heapTail 0)]
    | some mv =>
      simp only [hmv, AllExact, List.mem_singleton, forall_eq] at h
      simp only [h.eq (tail 0) (e.heapTail 0)]
  · rfl

theorem destroyMV_tail (h : AllExact (destroyMvCalls t g index)) (tail : ℕ → Text) :
    destroyMV t { e with heapTail := tail } index outPktHdr clientNum g =
      destroyMV t e index outPktHdr clientNum g := by
  unfold destroyMvCalls at h
  unfold destroyMV
  split_ifs at h ⊢ with hrange hown
  · rfl
  · cases hmv : g.mvs (index.tmod MAX_DMV).toNat with
    | none => simp only [hmv]
    | some mv =>
      simp only [hmv, AllExact, List.mem_singleton, forall_eq] at h
      simp only [hmv, h.eq (tail 0) (e.heapTail 0)]
  · rfl

/-- `Acquire` keeps the ids of the locks. -/
theorem acquireOwn_globalId {tail : Text} {slot : ℕ} {lock : DistributedLock}
    (h : acquireOwn t tail outPktHdr clientNum slot lock g = .ok r) :
    ∃ lock', r.state = g.setLock slot (some lock') ∧ lock'.globalId = lock.globalId := by
  unfold acquireOwn at h
  obtain ⟨ack, -, h⟩ := bind_eq_ok.mp h
  by_cases hbusy : lock.lockState = BUSY
  · rw [if_pos hbusy] at h
    cases h
    exact ⟨_, rfl, rfl⟩
  · rw [if_neg hbusy] at h
    cases h
    exact ⟨_, rfl, rfl⟩

theorem lockCalls_acquire {tail : Text}
    (h : acquire t tail index outPktHdr inPktHdr inMailHdr clientNum g = .ok r) :
    lockCalls t r.state lockIndex = lockCalls t g lockIndex := by
  have hids (slot : ℕ) : (r.state.dlocks slot).map DistributedLock.globalId =
      (g.dlocks slot).map DistributedLock.globalId := by
    unfold acquire at h
    by_cases hrange : index < 0 ∨ index > MAX_NUM_GLOBAL_IDS * MAX_DLOCK - 1
    · simp only [if_pos hrange, Except.ok.injEq] at h
      rw [← h]
      rfl
    · by_cases hown : index.tdiv MAX_DLOCK = t.uniqueGlobalID
      · simp only [if_neg hrange, if_pos hown] at h
        cases hlock : g.dlocks (index.tmod MAX_DLOCK).toNat with
        | none =>
          simp only [hlock, Except.ok.injEq] at h
          rw [← h]
          rfl
        | some lock =>
          simp only [hlock] at h
          obtain ⟨lock', hstate, hid⟩ := acquireOwn_globalId h
          rw [hstate, Globals.setLock_dlocks]
          by_cases hslot : slot = (index.tmod MAX_DLOCK).toNat
          · rw [hslot, hlock, Function.update_self, Option.map_some, Option.map_some, hid]
          · rw [Function.update_of_ne hslot]
      · simp only [if_neg hrange, if_neg hown, Except.ok.injEq] at h
        rw [← h]
  have hslot := hids (lockIndex.tmod MAX_DLOCK).toNat
  unfold lockCalls
  cases hr : r.state.dlocks (lockIndex.tmod MAX_DLOCK).toNat with
  | none =>
    rw [hr] at hslot
    rw [Option.map_none, eq_comm, Option.map_eq_none_iff] at hslot
    rw [hslot]
  | some lock =>
    rw [hr] at hslot
    obtain ⟨lock', hlock, hid⟩ := Option.map_eq_some_iff.mp hslot.symm
    rw [hlock]
    simp only [hid]

theorem acquireFor_tail {reply : Message} (h : AllExact (lockCalls t g index)) (tail tail' : Text) :
    acquireFor t tail index outPktHdr reply g = acquireFor t tail' index outPktHdr reply g := by
  unfold acquireFor
  simp only [acquire_tail h tail tail']

theorem allExact_flatMap {queue : List Message} {calls : List ItoaCall}
    (h : AllExact (queue.flatMap fun _ => calls)) (hne : queue ≠ []) : AllExact calls := by
  obtain ⟨reply, hreply⟩ := List.exists_mem_of_ne_nil queue hne
  exact fun x hx => h x (List.mem_flatMap.mpr ⟨reply, hreply, hx⟩)

/-- Each client of the queue is passed to `Acquire` with the same lock. -/
theorem wakeAll_tail (queue : List Message) (k : ℕ) (tail tail' : ℕ → Text)
    (h : queue ≠ [] → AllExact (lockCalls t g index)) :
    wakeAll t tail index outPktHdr queue k g = wakeAll t tail' index outPktHdr queue k g := by
  induction queue generalizing k g with
  | nil => rfl
  | cons reply queue ih =>
    have hlock := h (List.cons_ne_nil _ _)
    unfold wakeAll
    rw [acquireFor_tail hlock (tail k) (tail' k)]
    cases hr : acquireFor t (tail' k) index outPktHdr reply g with
    | error f => rfl
    | ok r =>
      have hcalls : lockCalls t r.state index = lockCalls t g index := by
        unfold acquireFor at hr
        obtain ⟨r', hacquire, hr⟩ := bind_eq_ok.mp hr
        split_ifs at hr
        cases hr
        exact lockCalls_acquire hacquire
      have hnext := ih (g := r.state) (k + 1) fun _ => hcalls ▸ hlock
      simp only [ok_bind, hnext]

theorem acquireFor_setCv_tail {reply : Message} {slot : ℕ} {cv : Option DistributedCV}
    (h : AllExact (lockCalls t g index)) (tail tail' : Text) :
    acquireFor t tail index outPktHdr reply (g.setCv slot cv) =
      acquireFor t tail' index outPktHdr reply (g.setCv slot cv) :=
  acquireFor_tail (g := g.setCv slot cv) h tail tail'

theorem wakeAll_setCv_tail {slot : ℕ} {cv : Option DistributedCV} (queue : List Message) (k : ℕ)
    (tail tail' : ℕ → Text) (h : queue ≠ [] → AllExact (lockCalls t g index)) :
    wakeAll t tail index outPktHdr queue k (g.setCv slot cv) =
      wakeAll t tail' index outPktHdr queue k (g.setCv slot cv) :=
  wakeAll_tail (g := g.setCv slot cv) queue k tail tail' h

theorem wait_tail (h : AllExact (waitCalls t g cvIndex lockIndex)) (tail : ℕ → Text) :
    wait t { e with heapTail := tail } cvIndex lockIndex outPktHdr inMailHdr clientNum g =
      wait t e cvIndex lockIndex outPktHdr inMailHdr clientNum g := by
  unfold waitCalls bothCalls at h
  unfold wait
  split_ifs at h ⊢ with hlock hcv hboth
  · rfl
  · rfl
  · cases hdlock : g.dlocks (lockIndex.tmod MAX_DLOCK).toNat with
    | none => simp only [hdlock]
    | some lock =>
      simp only [hdlock] at h ⊢
      split_ifs at h ⊢ with howner
      · rfl
      · cases hdcv : g.cvs (cvIndex.tmod MAX_DCV).toNat with
        | none => rfl
        | some cv =>
          simp only [hdcv, AllExact, List.mem_singleton, forall_eq] at h
          simp only [waitOwn, h.eq (tail 0) (e.heapTail 0)]
  · rfl
  · rfl

theorem signal_tail (h : AllExact (signalCalls t g cvIndex lockIndex)) (tail : ℕ → Text) :
    signal t { e with heapTail := tail } cvIndex lockIndex outPktHdr inMailHdr clientNum g =
      signal t e cvIndex lockIndex outPktHdr inMailHdr clientNum g := by
  unfold signalCalls bothCalls at h
  unfold signal
  split_ifs at h ⊢ with hlock hcv hboth
  · rfl
  · rfl
  · cases hdlock : g.dlocks (lockIndex.tmod MAX_DLOCK).toNat with
    | none => simp only [hdlock]
    | some lock =>
      simp only [hdlock] at h ⊢
      split_ifs at h ⊢ with howner
      · rfl
      · cases hdcv : g.cvs (cvIndex.tmod MAX_DCV).toNat with
        | none => rfl
        | some cv =>
          simp only [hdcv, AllExact, List.forall_mem_cons] at h
          obtain ⟨hack, hwake⟩ := h
          simp only [signalOwn, hack.eq (tail 0) (e.heapTail 0)]
          cases hqueue : cv.waitQueue with
          | nil => rfl
          | cons reply queue =>
            by_cases hfirst : cv.firstLock ≠ t.globalId MAX_DLOCK (lockIndex.tmod MAX_DLOCK).toNat
            · simp only [if_pos hfirst]
            · have hnot : ¬(cv.waitQueue = [] ∨
                  cv.firstLock ≠ t.globalId MAX_DLOCK (lockIndex.tmod MAX_DLOCK).toNat) := by
                rw [hqueue]
                exact not_or.mpr ⟨List.cons_ne_nil _ _, hfirst⟩
              rw [if_neg hnot] at hwake
              simp only [if_neg hfirst, acquireFor_setCv_tail hwake (tail 1) (e.heapTail 1)]
  · rfl
  · rfl

theorem broadcast_tail (h : AllExact (broadcastCalls t g cvIndex lockIndex)) (tail : ℕ → Text) :
    broadcast t { e with heapTail := tail } cvIndex lockIndex outPktHdr inPktHdr inMailHdr
        clientNum g =
      broadcast t e cvIndex lockIndex outPktHdr inPktHdr inMailHdr clientNum g := by
  unfold broadcastCalls bothCalls at h
  unfold broadcast
  split_ifs at h ⊢ with hlock hcv hboth
  · rfl
  · rfl
  · cases hdlock : g.dlocks (lockIndex.tmod MAX_DLOCK).toNat with
    | none => simp only [hdlock]
    | some lock =>
      simp only [hdlock] at h ⊢
      split_ifs at h ⊢ with howner
      · rfl
      · cases hdcv : g.cvs (cvIndex.tmod MAX_DCV).toNat with
        | none => rfl
        | some cv =>
          simp only [hdcv, AllExact, List.forall_mem_cons] at h
          obtain ⟨hack, hwake⟩ := h
          simp only [broadcastOwn, hack.eq (tail 0) (e.heapTail 0)]
          by_cases hfirst : cv.waitQueue ≠ [] ∧
              cv.firstLock ≠ t.globalId MAX_DLOCK (lockIndex.tmod MAX_DLOCK).toNat
          · simp only [if_pos hfirst]
          · rw [if_neg hfirst] at hwake
            have hlocks := allExact_flatMap hwake
            simp only [if_neg hfirst, wakeAll_setCv_tail cv.waitQueue 1 tail e.heapTail hlocks]
  · rfl

end

namespace Call

section

variable {c : Call} {g : Globals} {s : Text}

/-- The same call with other memory behind the buffers. -/
def withTail (c : Call) (tail : ℕ → Text) : Call := { c with e := { c.e with heapTail := tail } }

@[simp] theorem withTail_t (tail : ℕ → Text) : (c.withTail tail).t = c.t := rfl

@[simp] theorem withTail_client (tail : ℕ → Text) : (c.withTail tail).client = c.client := rfl

theorem oneArgument_tail {type : RequestType} {max : ℕ} {box : ℤ → ℤ} {calls : ℤ → List ItoaCall}
    {handle handle' : ℤ → ℤ → Globals → Except Fault Result} (tail : ℕ → Text)
    (h : AllExact (c.oneCalls max calls s))
    (hhandle : ∀ id clientNum, AllExact (calls id) →
      handle' id clientNum g = handle id clientNum g) :
    (c.withTail tail).oneArgument type max box handle' s g =
      c.oneArgument type max box handle s g := by
  unfold oneCalls at h
  unfold oneArgument
  rw [withTail_client]
  cases hread : readOne c.client s with
  | error f => rfl
  | ok args =>
    obtain ⟨clientNum, buf⟩ := args
    simp only [hread, ok_bind] at h ⊢
    by_cases hother : (atoi buf).tdiv max ≠ c.t.uniqueGlobalID
    · rw [withTail_t, if_pos hother, if_pos hother]
      rfl
    · rw [if_neg hother] at h
      rw [withTail_t, if_neg hother, if_neg hother]
      exact hhandle _ _ h

theorem twoArguments_tail {type : RequestType} {machine : ℤ → ℤ → ℤ} {box : ℤ → ℤ}
    {calls : ℤ → ℤ → List ItoaCall}
    {handle handle' : ℤ → ℤ → ℤ → Globals → Except Fault Result} (tail : ℕ → Text)
    {args : ℤ × Text × Text} (h : AllExact (c.twoCalls machine calls (.ok args)))
    (hhandle : ∀ id id' clientNum, AllExact (calls id id') →
      handle' id id' clientNum g = handle id id' clientNum g) :
    (c.withTail tail).twoArguments type machine box handle' args g =
      c.twoArguments type machine box handle args g := by
  obtain ⟨clientNum, buf, buf'⟩ := args
  unfold twoCalls at h
  unfold twoArguments
  by_cases hother : machine (atoi buf) (atoi buf') ≠ c.t.uniqueGlobalID
  · dsimp only
    rw [withTail_t, if_pos hother, if_pos hother]
    rfl
  · simp only [if_neg hother] at h
    dsimp only
    rw [withTail_t, if_neg hother, if_neg hother]
    exact hhandle _ _ _ h

theorem deleteCV_tail {id clientNum : ℤ} (h : AllExact (deleteCvCalls g id)) (tail : ℕ → Text) :
    (c.withTail tail).deleteCV id clientNum g = c.deleteCV id clientNum g := by
  unfold deleteCvCalls at h
  unfold deleteCV
  split_ifs at h ⊢ with hrange
  · rfl
  · cases hcv : g.cvs (id.tmod MAX_DCV).toNat with
    | none => simp only [hcv]
    | some cv =>
      simp only [hcv, AllExact, List.mem_singleton, forall_eq] at h
      simp only [hcv, withTail, h.eq (tail 0) (c.e.heapTail 0)]

theorem waitCV_tail (h : AllExact (c.waitCvCalls s g)) (tail : ℕ → Text) :
    (c.withTail tail).waitCV s g = c.waitCV s g := by
  unfold waitCvCalls at h
  unfold waitCV
  rw [withTail_client]
  cases hread : readTwo 5 [] c.client s with
  | error f => rfl
  | ok args =>
    obtain ⟨clientNum, cvNum, lockNum⟩ := args
    simp only [hread, ok_bind] at h ⊢
    cases hslot : index MAX_DCV ((atoi cvNum).tmod MAX_DCV) with
    | error f => rfl
    | ok slot =>
      simp only [hslot, ok_bind] at h ⊢
      cases hcv : g.cvs slot with
      | none => rfl
      | some cv =>
        simp only [hcv, AllExact, List.mem_singleton, forall_eq] at h
        simp only [withTail, h.eq (tail 0) (c.e.heapTail 0)]
        rfl

theorem acknowledge_tail {clientNum cvIndex : ℤ} (h : ItoaCall.Exact ⟨5, cvIndex⟩)
    (tail : ℕ → Text) :
    (c.withTail tail).acknowledge clientNum cvIndex = c.acknowledge clientNum cvIndex := by
  unfold acknowledge
  simp only [withTail, h.eq (tail 0) (c.e.heapTail 0)]

theorem signalResponse_tail (h : AllExact (c.signalResponseCalls s g)) (tail : ℕ → Text) :
    (c.withTail tail).signalResponse s g = c.signalResponse s g := by
  unfold signalResponseCalls at h
  unfold signalResponse
  rw [withTail_client]
  cases hread : readOne c.client s with
  | error f => rfl
  | ok args =>
    obtain ⟨clientNum, lockIndexBuf⟩ := args
    simp only [hread, ok_bind] at h ⊢
    split_ifs at h ⊢ with hnone
    · rfl
    · cases hclient : index MAX_CLIENTS clientNum with
      | error f => rfl
      | ok i =>
        simp only [hclient, ok_bind, AllExact, List.forall_mem_cons] at h ⊢
        rw [acknowledge_tail h.1]
        cases hslot : index MAX_DCV (g.waitingForSignalCvs i) with
        | error f => rfl
        | ok slot =>
          cases hcv : g.cvs slot with
          | none => simp only [ok_bind, hcv]
          | some cv =>
            cases hqueue : cv.waitQueue with
            | nil => simp only [ok_bind, hcv, hqueue, withTail]
            | cons reply queue =>
              by_cases hfirst : cv.firstLock ≠ atoi lockIndexBuf
              · simp only [ok_bind, hcv, hqueue, if_pos hfirst]
              · have hwake := h.2
                have hnot : ¬(cv.waitQueue = [] ∨ cv.firstLock ≠ atoi lockIndexBuf) := by
                  rw [hqueue]
                  exact not_or.mpr ⟨List.cons_ne_nil _ _, hfirst⟩
                simp only [hslot, hcv, if_neg hnot] at hwake
                simp only [ok_bind, hcv, hqueue, if_neg hfirst, withTail,
                  acquireFor_setCv_tail hwake (tail 1) (c.e.heapTail 1)]

theorem broadcastResponse_tail (h : AllExact (c.broadcastResponseCalls s g)) (tail : ℕ → Text) :
    (c.withTail tail).broadcastResponse s g = c.broadcastResponse s g := by
  unfold broadcastResponseCalls at h
  unfold broadcastResponse
  rw [withTail_client]
  cases hread : readOne c.client s with
  | error f => rfl
  | ok args =>
    obtain ⟨clientNum, lockIndexBuf⟩ := args
    simp only [hread, ok_bind] at h ⊢
    split_ifs at h ⊢ with hnone
    · rfl
    · cases hclient : index MAX_CLIENTS clientNum with
      | error f => rfl
      | ok i =>
        simp only [hclient, ok_bind, AllExact, List.forall_mem_cons] at h ⊢
        rw [acknowledge_tail h.1]
        cases hslot : index MAX_DCV (g.waitingForBroadcastCvs i) with
        | error f => rfl
        | ok slot =>
          cases hcv : g.cvs slot with
          | none => simp only [ok_bind, hcv]
          | some cv =>
            by_cases hfirst : cv.waitQueue ≠ [] ∧
                cv.firstLock ≠ (atoi lockIndexBuf).tmod MAX_DLOCK
            · simp only [ok_bind, hcv, if_pos hfirst]
            · have hwake := h.2
              simp only [hslot, hcv, if_neg hfirst] at hwake
              have hlocks := allExact_flatMap hwake
              simp only [ok_bind, hcv, if_neg hfirst, withTail,
                wakeAll_setCv_tail cv.waitQueue 1 tail c.e.heapTail hlocks]

theorem dispatch_tail (localNetThreadInfo : List NetThread) (r : RequestType)
    (h : AllExact (dispatchCalls c r s g)) (tail : ℕ → Text) :
    dispatch (c.withTail tail) localNetThreadInfo r s g = dispatch c localNetThreadInfo r s g := by
  cases r with
  | acquire =>
    show (c.withTail tail).acquire s g = c.acquire s g
    unfold Call.acquire
    exact oneArgument_tail tail h fun id clientNum h => acquire_tail h (tail 0) (c.e.heapTail 0)
  | release =>
    show (c.withTail tail).release s g = c.release s g
    unfold Call.release
    exact oneArgument_tail tail h fun id clientNum h => release_tail h tail
  | destroyLock =>
    show (c.withTail tail).destroyLock s g = c.destroyLock s g
    unfold Call.destroyLock
    exact oneArgument_tail tail h fun id clientNum h => destroyLock_tail h tail
  | getMv =>
    show (c.withTail tail).getMV s g = c.getMV s g
    unfold Call.getMV
    exact oneArgument_tail tail h fun id clientNum h => getMV_tail h tail
  | destroyMv =>
    show (c.withTail tail).destroyMV s g = c.destroyMV s g
    unfold Call.destroyMV
    exact oneArgument_tail tail h fun id clientNum h => destroyMV_tail h tail
  | destroyCv =>
    show (c.withTail tail).destroyCV s g = c.destroyCV s g
    unfold Call.destroyCV
    exact oneArgument_tail tail h fun id clientNum h => deleteCV_tail h tail
  | wait =>
    unfold dispatchCalls at h
    unfold dispatch wait
    rw [withTail_client]
    cases hread : readTwo 5 [] c.client s with
    | error f => rfl
    | ok args =>
      rw [hread] at h
      exact twoArguments_tail tail h fun _ _ _ h => wait_tail h tail
  | signal =>
    unfold dispatchCalls at h
    unfold dispatch signal
    split_ifs at h ⊢ with hhead
    · rfl
    · cases hread : readTwo 5 [] (-1) s with
      | error f => rfl
      | ok args =>
        rw [hread] at h
        exact twoArguments_tail tail h fun _ _ _ h => signal_tail h tail
  | broadcast =>
    unfold dispatchCalls at h
    unfold dispatch broadcast
    rw [withTail_client]
    cases hread : readTwo 5 [] c.client s with
    | error f => rfl
    | ok args =>
      rw [hread] at h
      exact twoArguments_tail tail h fun _ _ _ h => broadcast_tail h tail
  | waitCv => exact waitCV_tail (c := c) h tail
  | signalResponse => exact signalResponse_tail h tail
  | broadcastResponse => exact broadcastResponse_tail h tail
  | _ => rfl

/-- **If all numbers are printed exactly**, what `processMessage` does does not depend on the memory
    behind the buffers. -/
theorem processMessage_tail (msgData : Text) (localNetThreadInfo : List NetThread)
    (h : AllExact (processCalls c msgData localNetThreadInfo g)) (tail : ℕ → Text) :
    processMessage (c.withTail tail) msgData localNetThreadInfo g =
      processMessage c msgData localNetThreadInfo g := by
  unfold processCalls at h
  unfold processMessage
  split_ifs at h ⊢ with hcount
  · rfl
  · cases htype : readType msgData with
    | error f => rfl
    | ok x =>
      obtain ⟨requestType, rest⟩ := x
      cases hcode : RequestType.ofCode requestType with
      | none => simp only [ok_bind, hcode]
      | some r =>
        cases rest with
        | none => simp only [ok_bind, hcode]
        | some s =>
          simp only [htype, hcode, ok_bind] at h ⊢
          exact dispatch_tail localNetThreadInfo r h tail

end

end Call

/-! ## Runs -/

/-- A network thread, with the calls of `itoa` so far; after a fault it does nothing any more. -/
structure Printer where
  globals : Option Globals
  calls : List ItoaCall

/-- The next message is processed. -/
def printStep (t : NetThread) (localNetThreadInfo : List NetThread) (s : Printer) (d : Delivery) :
    Except Fault Printer :=
  .ok <| match s.globals with
    | none => s
    | some g =>
      ⟨(deliver t localNetThreadInfo g d).toOption, s.calls ++
        processCalls ⟨t, d.e, d.inPktHdr, d.inMailHdr⟩ d.data localNetThreadInfo g⟩

/-- The values that the message prints fit into their buffers. -/
def ValuesFit (t : NetThread) (localNetThreadInfo : List NetThread) (s : Printer) (d : Delivery) :
    Prop :=
  ∀ g ∈ s.globals,
    ∀ x ∈ processCalls ⟨t, d.e, d.inPktHdr, d.inMailHdr⟩ d.data localNetThreadInfo g, x.Fits

instance (t : NetThread) (localNetThreadInfo : List NetThread) (s : Printer) (d : Delivery) :
    Decidable (ValuesFit t localNetThreadInfo s d) :=
  match h : s.globals with
  | none => .isTrue fun g hg => by
    rw [h] at hg
    cases hg
  | some g =>
    decidable_of_iff (∀ x ∈ processCalls ⟨t, d.e, d.inPktHdr, d.inMailHdr⟩ d.data
        localNetThreadInfo g, x.Fits) <| by
      unfold ValuesFit
      rw [h]
      simp

section

variable {t : NetThread} {c : Call} {g : Globals} {s : Text} {index cvIndex lockIndex : ℤ}
  {x : ItoaCall}

theorem size_of_mem_lockCalls (h : x ∈ lockCalls t g index) : x.size = 5 := by
  unfold lockCalls at h
  grind

theorem size_of_mem_bothCalls {calls : ℕ → ℕ → DistributedCV → List ItoaCall}
    (hcalls : ∀ lockSlot cvSlot cv, x ∈ calls lockSlot cvSlot cv → x.size = 5)
    (h : x ∈ bothCalls t g cvIndex lockIndex calls) : x.size = 5 := by
  unfold bothCalls at h
  grind

theorem size_of_mem_waitCalls (h : x ∈ waitCalls t g cvIndex lockIndex) : x.size = 5 := by
  unfold waitCalls at h
  split_ifs at h
  · cases h
  · cases h
  · apply size_of_mem_bothCalls _ h
    simp +contextual

theorem size_of_mem_signalCalls (h : x ∈ signalCalls t g cvIndex lockIndex) : x.size = 5 := by
  unfold signalCalls at h
  split_ifs at h
  · cases h
  · cases h
  · apply size_of_mem_bothCalls _ h
    intro lockSlot cvSlot cv hx
    have := @size_of_mem_lockCalls t g
    grind

theorem size_of_mem_broadcastCalls (h : x ∈ broadcastCalls t g cvIndex lockIndex) : x.size = 5 := by
  unfold broadcastCalls at h
  split_ifs at h
  · cases h
  · cases h
  · apply size_of_mem_bothCalls _ h
    intro lockSlot cvSlot cv hx
    have := @size_of_mem_lockCalls t g
    grind

theorem of_mem_oneCalls {max : ℕ} {calls : ℤ → List ItoaCall} {P : ItoaCall → Prop}
    (hcalls : ∀ id, ∀ x ∈ calls id, P x) (h : x ∈ c.oneCalls max calls s) : P x := by
  unfold Call.oneCalls at h
  grind

theorem of_mem_twoCalls {machine : ℤ → ℤ → ℤ} {calls : ℤ → ℤ → List ItoaCall}
    {args : Except Fault (ℤ × Text × Text)} {P : ItoaCall → Prop}
    (hcalls : ∀ id id', ∀ x ∈ calls id id', P x) (h : x ∈ c.twoCalls machine calls args) : P x := by
  unfold Call.twoCalls at h
  grind

theorem size_of_mem_signalResponseCalls (h : x ∈ c.signalResponseCalls s g) : x.size = 5 := by
  have := @size_of_mem_lockCalls c.t g
  unfold Call.signalResponseCalls at h
  repeat' split at h
  all_goals grind

theorem size_of_mem_broadcastResponseCalls (h : x ∈ c.broadcastResponseCalls s g) :
    x.size = 5 := by
  have := @size_of_mem_lockCalls c.t g
  unfold Call.broadcastResponseCalls at h
  repeat' split at h
  all_goals grind

theorem size_of_mem_dispatchCalls {r : RequestType} (h : x ∈ dispatchCalls c r s g) :
    x.size = 4 ∨ x.size = 5 := by
  unfold dispatchCalls at h
  split at h
  · exact .inr (of_mem_oneCalls (fun _ _ => size_of_mem_lockCalls) h)
  · exact .inr (of_mem_oneCalls (fun _ _ => size_of_mem_lockCalls) h)
  · exact .inr (of_mem_oneCalls (fun _ _ => size_of_mem_lockCalls) h)
  · apply Or.inl
    apply of_mem_oneCalls (P := fun x => x.size = 4) _ h
    intro id x hx
    unfold getMvCalls at hx
    grind
  · apply Or.inr
    apply of_mem_oneCalls (P := fun x => x.size = 5) _ h
    intro id x hx
    unfold destroyMvCalls at hx
    grind
  · exact .inr (of_mem_twoCalls (fun _ _ _ => size_of_mem_waitCalls) h)
  · split_ifs at h
    · cases h
    · exact .inr (of_mem_twoCalls (fun _ _ _ => size_of_mem_signalCalls) h)
  · exact .inr (of_mem_twoCalls (fun _ _ _ => size_of_mem_broadcastCalls) h)
  · apply Or.inl
    apply of_mem_oneCalls (P := fun x => x.size = 4) _ h
    intro id x hx
    unfold Call.deleteCvCalls at hx
    grind
  · unfold Call.waitCvCalls at h
    grind
  · exact .inr (size_of_mem_signalResponseCalls h)
  · exact .inr (size_of_mem_broadcastResponseCalls h)
  · cases h

/-- All buffers have four or five bytes. -/
theorem size_of_mem_processCalls {msgData : Text} {localNetThreadInfo : List NetThread}
    (h : x ∈ processCalls c msgData localNetThreadInfo g) : x.size = 4 ∨ x.size = 5 := by
  have := @size_of_mem_dispatchCalls c g
  unfold processCalls at h
  grind

end

/-- **All numbers of a run are printed exactly and in bounds if and only if** their values fit. -/
theorem prints_exactly_iff (t : NetThread) (localNetThreadInfo : List NetThread) (g : Globals)
    (l : List Delivery) :
    Throughout (printStep t localNetThreadInfo) (fun s => AllExact s.calls) ⟨some g, []⟩ l ↔
      Guarded (printStep t localNetThreadInfo) (ValuesFit t localNetThreadInfo) ⟨some g, []⟩ l := by
  have hinv : ∀ s : Printer, AllExact s.calls → AllExact s.calls := fun _ hs => hs
  refine throughout_iff_guarded hinv ?_ ?_ l nofun
  · intro s d hs hfit
    refine ⟨_, rfl, ?_⟩
    cases hg : s.globals with
    | none => exact hs
    | some g =>
      intro x hx
      obtain hx | hx := List.mem_append.mp hx
      · exact hs x hx
      · have hsize := size_of_mem_processCalls hx
        exact (exact_iff (by omega) (by omega)).mpr (hfit g hg x hx)
  · intro s d s' hs hfit hstep hexact
    cases hstep
    apply hfit
    intro g hg x hx
    have hsize := size_of_mem_processCalls hx
    apply (exact_iff (by omega) (by omega)).mp
    apply hexact
    rw [show s.globals = some g from hg]
    exact List.mem_append_right _ hx

/-- A monitor variable gets a value with as many digits as the buffer has bytes, and is read. -/
theorem getMV_1000 :
    ∃ s, exec (printStep ⟨0, 0⟩ [⟨0, 0⟩]) ⟨some (.init 1), []⟩
      [⟨.clear ⟨0, 0⟩, ⟨0, 0⟩, ⟨0, 1⟩, requestText .createMv ['a']⟩,
        ⟨.clear ⟨0, 0⟩, ⟨0, 0⟩, ⟨0, 1⟩, requestText .setMv (pairText 0 1000)⟩,
        ⟨.clear ⟨0, 0⟩, ⟨0, 0⟩, ⟨0, 1⟩, requestText .getMv (fmtInt 0)⟩] = .ok s ∧
      ¬AllExact s.calls := by
  have hrun : Ends (printStep ⟨0, 0⟩ [⟨0, 0⟩]) ⟨some (.init 1), []⟩
      [⟨.clear ⟨0, 0⟩, ⟨0, 0⟩, ⟨0, 1⟩, requestText .createMv ['a']⟩,
        ⟨.clear ⟨0, 0⟩, ⟨0, 0⟩, ⟨0, 1⟩, requestText .setMv (pairText 0 1000)⟩,
        ⟨.clear ⟨0, 0⟩, ⟨0, 0⟩, ⟨0, 1⟩, requestText .getMv (fmtInt 0)⟩]
      fun s => s.calls = [⟨4, 1000⟩] := by
    decide +kernel
  obtain ⟨s, hs, hcalls⟩ := hrun
  refine ⟨s, hs, ?_⟩
  rw [hcalls]
  intro hexact
  exact not_exact_of_ge (by norm_num) (by norm_num) (hexact ⟨4, 1000⟩ (by simp))

end Nachos.Network
