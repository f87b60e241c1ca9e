import Nachos.Network.Text

/-!
# The fields of a text

Calls of `parseValue` (`network/netcall.cc`) one after another, each from the index that the one
before it returned, with the bytes they read and write.

* `parseValue_of_parseCall`: without a write past `valueStr` this is `parseValue`.
* `parse_fields`: of a text of numbers with a `_` between any two, the calls return the numbers;
  they read no byte behind the NUL and write none behind `valueStr`.
-/

namespace Nachos.Network

open Nachos.Lib

/-- What the loop of `parseValue` leaves in `valueStr`, the index of the delimiter, and the indices
    at which it reads `buf` and writes `valueStr`. -/
structure Scan where
  valueStr : Text
  delimiter : ℕ
  reads : List ℕ
  writes : List ℕ

/-- The loop from index `i` on, for at most `fuel` tests of its condition, and the NUL that is
    written behind it. -/
def scan (startIndex : ℕ) (buf : ℕ → Char) : ℕ → ℕ → Option Scan
  | 0, _ => none
  | fuel + 1, i =>
    if buf i = '_' ∨ buf i = nul then
      some { valueStr := [], delimiter := i, reads := [i], writes := [i - startIndex] }
    else
      (scan startIndex buf fuel (i + 1)).map fun s =>
        { s with
          valueStr := buf i :: s.valueStr
          reads := i :: s.reads
          writes := (i - startIndex) :: s.writes }

/-- A call of `parseValue` that returns. -/
structure ParseCall where
  value : ℤ
  next : ℕ
  reads : List ℕ
  writes : List ℕ
  deriving DecidableEq

/-- `parseValue` (netcall.cc:231), of which nothing is known when a field is the text of a number
    that is not an `int`. Whether a write is inside `valueStr` is not checked here. -/
def parseCall (fuel startIndex : ℕ) (buf : ℕ → Char) : Option ParseCall :=
  match scan startIndex buf fuel startIndex with
  | none => none
  | some s =>
    if IsInt (atoi s.valueStr) then
      some { value := atoi s.valueStr
             next := s.delimiter + 1
             reads := s.reads
             writes := s.writes }
    else none

/-- `n` calls, the first from index `i` on. -/
def parseCalls (fuel : ℕ) (buf : ℕ → Char) : ℕ → ℕ → Option (List ParseCall)
  | 0, _ => some []
  | n + 1, i => do
    let call ← parseCall fuel i buf
    return call :: (← parseCalls fuel buf n call.next)

variable {buf : ℕ → Char} {fuel startIndex i : ℕ} {s : Text} {n : ℤ} {ns : List ℤ}

/-! ## `parseValue` -/

/-- The loop is the one that checks its writes, as far as those go. -/
theorem scanField_of_scan {r : Scan} {room : ℕ} (h : scan startIndex buf fuel i = some r)
    (hi : startIndex ≤ i) (hroom : ∀ k ∈ r.writes, k < i - startIndex + room) :
    scanField buf room i = some (r.valueStr, r.delimiter) := by
  induction fuel generalizing i r room with
  | zero => simp [scan] at h
  | succ fuel ih =>
    unfold scan at h
    split_ifs at h with hend
    · cases h
      have hpos := hroom (i - startIndex) (by simp)
      obtain ⟨room, rfl⟩ : ∃ m, room = m + 1 := ⟨room - 1, by omega⟩
      simp [scanField, hend]
    · obtain ⟨r', hr', rfl⟩ := Option.map_eq_some_iff.mp h
      have hpos := hroom (i - startIndex) (by simp)
      obtain ⟨room, rfl⟩ : ∃ m, room = m + 1 := ⟨room - 1, by omega⟩
      have hrest : scanField buf room (i + 1) = some (r'.valueStr, r'.delimiter) := by
        apply ih hr' (by omega)
        intro k hk
        have := hroom k (by simp [hk])
        omega
      simp [scanField, hend, hrest]

/-- **Without a write past `valueStr`** a call returns what `parseValue` returns. -/
theorem parseValue_of_parseCall {call : ParseCall} (h : parseCall fuel i buf = some call)
    (hwrites : ∀ k ∈ call.writes, k < MaxMailSize) :
    parseValue i buf = .ok (call.value, call.next) := by
  unfold parseCall at h
  split at h
  · cases h
  · next r hr =>
    split_ifs at h
    cases h
    have hscan : scanField buf MaxMailSize i = some (r.valueStr, r.delimiter) :=
      scanField_of_scan hr le_rfl (by simpa using hwrites)
    simp [parseValue, hscan]

/-! ## One field -/

/-- The loop stops at the delimiter: it has read the bytes up to there and written as many. -/
theorem scan_eq (hs : HasText buf i s)
    (hend : buf (i + s.length) = '_' ∨ buf (i + s.length) = nul)
    (hchar : ∀ c ∈ s, c ≠ '_' ∧ c ≠ nul) (hfuel : s.length < fuel) (hi : startIndex ≤ i) :
    scan startIndex buf fuel i =
      some { valueStr := s
             delimiter := i + s.length
             reads := List.range' i (s.length + 1)
             writes := List.range' (i - startIndex) (s.length + 1) } := by
  induction s generalizing i fuel with
  | nil =>
    obtain ⟨fuel, rfl⟩ : ∃ m, fuel = m + 1 := ⟨fuel - 1, by simp at hfuel; omega⟩
    rw [scan, if_pos (by simpa using hend)]
    rfl
  | cons c s ih =>
    obtain ⟨fuel, rfl⟩ : ∃ m, fuel = m + 1 := ⟨fuel - 1, by simp at hfuel; omega⟩
    obtain ⟨hc, hs⟩ := hs
    have hc' := hchar c (by simp)
    have hidx : i + 1 + s.length = i + (c :: s).length := by simp; omega
    have hrest := ih hs (by rwa [hidx]) (fun d hd => hchar d (by simp [hd]))
      (by simp at hfuel; omega) (by omega)
    rw [scan, hc, if_neg (by tauto), hrest, hidx]
    have hwrite : i + 1 - startIndex = i - startIndex + 1 := by omega
    simp [List.range'_succ, hwrite]

/-- The call that reads a printed number from index `i` on. -/
def fieldCall (i : ℕ) (n : ℤ) : ParseCall where
  value := n
  next := i + (fmtInt n).length + 1
  reads := List.range' i ((fmtInt n).length + 1)
  writes := List.range' 0 ((fmtInt n).length + 1)

theorem parseCall_eq (hn : IsInt n) (hs : HasText buf i (fmtInt n))
    (hend : buf (i + (fmtInt n).length) = '_' ∨ buf (i + (fmtInt n).length) = nul)
    (hfuel : (fmtInt n).length < fuel) : parseCall fuel i buf = some (fieldCall i n) := by
  have hscan := scan_eq hs hend (fmtInt_no_delimiter n) hfuel le_rfl
  simp [parseCall, hscan, hn, fieldCall]

/-! ## All fields -/

/-- The numbers, with a `_` between any two. -/
def joined (ns : List ℤ) : Text := ['_'].intercalate (ns.map fmtInt)

theorem joined_singleton (n : ℤ) : joined [n] = fmtInt n := by
  simp [joined]

theorem joined_cons (n : ℤ) (hns : ns ≠ []) : joined (n :: ns) = fmtInt n ++ '_' :: joined ns := by
  simp [joined, List.intercalate_cons_of_ne_nil, hns]

/-- What the buffer has behind the first number. -/
theorem hasText_joined_cons (h : HasText buf i (joined (n :: ns) ++ [nul])) :
    HasText buf i (fmtInt n) ∧
      buf (i + (fmtInt n).length) = (if ns = [] then nul else '_') ∧
      (ns ≠ [] → HasText buf (i + (fmtInt n).length + 1) (joined ns ++ [nul])) := by
  by_cases hns : ns = []
  · subst hns
    rw [joined_singleton] at h
    obtain ⟨hfirst, hnul, -⟩ := HasText.append.mp h
    exact ⟨hfirst, by simpa using hnul, by simp⟩
  · rw [joined_cons n hns, List.append_assoc] at h
    obtain ⟨hfirst, hdelimiter, hrest⟩ := HasText.append.mp h
    exact ⟨hfirst, by simpa [hns] using hdelimiter, fun _ => hrest⟩

/-- The calls that read the numbers one after another. -/
def fieldCalls : ℕ → List ℤ → List ParseCall
  | _, [] => []
  | i, n :: ns => fieldCall i n :: fieldCalls (fieldCall i n).next ns

/-- The loop of calls, by induction on the numbers; the index at which their text starts is carried
    along. -/
theorem parseCalls_eq (hints : ∀ n ∈ ns, IsInt n) (hfuel : ∀ n ∈ ns, (fmtInt n).length < fuel)
    (h : HasText buf i (joined ns ++ [nul])) :
    parseCalls fuel buf ns.length i = some (fieldCalls i ns) := by
  induction ns generalizing i with
  | nil => rfl
  | cons n ns ih =>
    obtain ⟨hfirst, hdelimiter, hrest⟩ := hasText_joined_cons h
    have hend : buf (i + (fmtInt n).length) = '_' ∨ buf (i + (fmtInt n).length) = nul := by
      rw [hdelimiter]
      split_ifs <;> simp
    have hcall := parseCall_eq (hints n (by simp)) hfirst hend (hfuel n (by simp))
    have hcalls : parseCalls fuel buf ns.length (fieldCall i n).next =
        some (fieldCalls (fieldCall i n).next ns) := by
      by_cases hns : ns = []
      · subst hns
        rfl
      · exact ih (fun m hm => hints m (by simp [hm])) (fun m hm => hfuel m (by simp [hm]))
          (hrest hns)
    simp [parseCalls, fieldCalls, hcall, hcalls]

theorem map_value_fieldCalls (i : ℕ) (ns : List ℤ) : (fieldCalls i ns).map ParseCall.value = ns := by
  induction ns generalizing i with
  | nil => rfl
  | cons n ns ih => simp [fieldCalls, fieldCall, ih]

/-- Each call returns the index behind the text of the numbers up to its own, and one byte more. -/
theorem next_fieldCalls {k : ℕ} (hk : k < ns.length) :
    ((fieldCalls i ns).map ParseCall.next)[k]? = some (i + (joined (ns.take (k + 1))).length + 1) := by
  induction ns generalizing i k with
  | nil => simp at hk
  | cons n ns ih =>
    cases k with
    | zero => simp [fieldCalls, fieldCall, joined_singleton]
    | succ k =>
      have hk' : k < ns.length := by simpa using hk
      have hns : ns ≠ [] := List.ne_nil_of_length_pos (by omega)
      have hne : ns.take (k + 1) ≠ [] := by simp [hns]
      rw [fieldCalls, List.map_cons, List.getElem?_cons_succ, ih hk', List.take_succ_cons,
        joined_cons n hne]
      simp [fieldCall]
      omega

theorem length_joined_cons_le (n : ℤ) (ns : List ℤ) :
    (fmtInt n).length ≤ (joined (n :: ns)).length := by
  by_cases hns : ns = []
  · simp [hns, joined_singleton]
  · simp [joined_cons n hns]

/-- A field is not longer than the text. -/
theorem length_le_joined (hn : n ∈ ns) : (fmtInt n).length ≤ (joined ns).length := by
  induction ns with
  | nil => cases hn
  | cons m ns ih =>
    obtain rfl | hn := List.mem_cons.mp hn
    · exact length_joined_cons_le n ns
    · have := ih hn
      rw [joined_cons m (List.ne_nil_of_mem hn)]
      simp
      omega

/-- All reads are inside the text or at its NUL. -/
theorem reads_fieldCalls {call : ParseCall} {k : ℕ} (hcall : call ∈ fieldCalls i ns)
    (hk : k ∈ call.reads) : k ≤ i + (joined ns).length := by
  induction ns generalizing i with
  | nil => cases hcall
  | cons n ns ih =>
    obtain rfl | hcall := List.mem_cons.mp hcall
    · have hlt : k < i + ((fmtInt n).length + 1) := (List.mem_range'_1.mp hk).2
      have := length_joined_cons_le n ns
      omega
    · have hns : ns ≠ [] := by
        rintro rfl
        cases hcall
      have := ih hcall
      rw [joined_cons n hns]
      simp [fieldCall] at this ⊢
      omega

/-- A call writes one field and a NUL. -/
theorem writes_fieldCalls {call : ParseCall} {k : ℕ} (hcall : call ∈ fieldCalls i ns)
    (hk : k ∈ call.writes) : k ≤ (joined ns).length := by
  have hfield : ∃ m ∈ ns, ∃ j, call = fieldCall j m := by
    clear hk
    induction ns generalizing i with
    | nil => cases hcall
    | cons n ns ih =>
      obtain rfl | hcall := List.mem_cons.mp hcall
      · exact ⟨n, by simp, i, rfl⟩
      · obtain ⟨m, hm, j, hj⟩ := ih hcall
        exact ⟨m, by simp [hm], j, hj⟩
  obtain ⟨m, hm, j, rfl⟩ := hfield
  have hlt : k < 0 + ((fmtInt m).length + 1) := (List.mem_range'_1.mp hk).2
  have := length_le_joined hm
  omega

/-- The byte behind the first numbers of a text is a `_`, and behind all of them the NUL. -/
theorem delimiter_eq {k : ℕ} (h : HasText buf i (joined ns ++ [nul])) (hk : k < ns.length) :
    buf (i + (joined (ns.take (k + 1))).length) = if k + 1 = ns.length then nul else '_' := by
  induction ns generalizing i k with
  | nil => simp at hk
  | cons n ns ih =>
    obtain ⟨-, hdelimiter, hrest⟩ := hasText_joined_cons h
    cases k with
    | zero => simpa [joined_singleton, eq_comm] using hdelimiter
    | succ k =>
      have hk' : k < ns.length := by simpa using hk
      have hns : ns ≠ [] := List.ne_nil_of_length_pos (by omega)
      have hne : ns.take (k + 1) ≠ [] := by simp [hns]
      have := ih (hrest hns) hk'
      rw [List.take_succ_cons, joined_cons n hne]
      simp only [List.length_append, List.length_cons, Nat.add_right_cancel_iff]
      rw [← this]
      congr 1
      omega

/-- **The fields of a text.** Numbers that are printed with a `_` between any two into a buffer of
    `MaxMailSize` bytes, with a NUL behind them, are returned one after another; each call returns
    the index behind the delimiter of its field. No call reads a byte behind the NUL or writes one
    behind `valueStr`. -/
theorem parse_fields (hints : ∀ n ∈ ns, IsInt n) (hlen : (joined ns).length < MaxMailSize)
    (hbuf : HasText buf 0 (joined ns ++ [nul])) (hfuel : MaxMailSize ≤ fuel) :
    ∃ calls, parseCalls fuel buf ns.length 0 = some calls ∧
      calls.map ParseCall.value = ns ∧
      (∀ k < ns.length, ∃ d, (calls.map ParseCall.next)[k]? = some (d + 1) ∧
        d = (joined (ns.take (k + 1))).length ∧
        buf d = if k + 1 = ns.length then nul else '_') ∧
      ∀ call ∈ calls,
        (∀ k ∈ call.reads, k ≤ (joined ns).length) ∧ ∀ k ∈ call.writes, k < MaxMailSize := by
  have hfields : ∀ n ∈ ns, (fmtInt n).length < fuel := by
    intro n hn
    have := length_le_joined hn
    omega
  refine ⟨fieldCalls 0 ns, parseCalls_eq hints hfields hbuf, map_value_fieldCalls 0 ns, ?_, ?_⟩
  · intro k hk
    refine ⟨_, by simpa using next_fieldCalls (i := 0) hk, rfl, ?_⟩
    simpa using delimiter_eq hbuf hk
  · intro call hcall
    constructor
    · intro k hk
      simpa using reads_fieldCalls hcall hk
    · intro k hk
      exact (writes_fieldCalls hcall hk).trans_lt hlen

/-- The answer of a server with the time stamp of a lock, in numbers that fill the buffer. -/
theorem parse_fields_answer :
    ∃ calls,
      parseCalls MaxMailSize (bytes (joined [2, -2147483648, 2147483647] ++ [nul])) 3 0 =
        some calls ∧
      calls.map ParseCall.value = [2, -2147483648, 2147483647] := by
  have hints : ∀ n ∈ [2, -2147483648, 2147483647], IsInt n := by decide
  obtain ⟨calls, hcalls, hvalues, -⟩ := parse_fields hints (by decide) (hasText_bytes [] _) le_rfl
  exact ⟨calls, hcalls, hvalues⟩

end Nachos.Network
