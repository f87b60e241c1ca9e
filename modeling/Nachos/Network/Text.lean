import Nachos.Network.Types

/-!
# Message texts

The text layer of `network/netcall.cc`: `parseValue`, the loops with which
`processMessage` reads the rest of a message, the formats it prints with
`sprintf`, and the hand-written `itoa`.

Reading past the NUL of a text and writing past the end of a local array are
faults. A heap block that is filled to its last byte has no NUL; what is read
behind it is the argument `tail` of `itoa`.

* `parseValue_number`: `parseValue` reads a printed number up to its delimiter.
* `itoa_natCast`: `itoa` prints a non-negative number that has at most as many
  digits as the buffer has bytes.
-/

namespace Nachos.Network

open Nachos.Lib

/-! ## `parseValue` -/

/-- The terminating character. -/
def nul : Char := Char.ofNat 0

/-- The characters of a text in its buffer, the NUL included. -/
def bytes (s : Text) : ℕ → Char := fun i => s.getD i nul

/-- The `while (c != '_' && c != '\0')` loop of `parseValue` from index `i`, for
    at most `fuel` tests: the characters read and the index of the delimiter. -/
def scanField (buf : ℕ → Char) : ℕ → ℕ → Option (Text × ℕ)
  | 0, _ => none
  | fuel + 1, i =>
    if buf i = '_' ∨ buf i = nul then some ([], i)
    else (scanField buf fuel (i + 1)).map fun r => (buf i :: r.1, r.2)

/-- `parseValue(startIndex, buf, &value)` (netcall.cc:229): the value and the
    index behind the delimiter. A field of 32 or more characters overflows
    `valueStr`. -/
def parseValue (startIndex : ℕ) (buf : ℕ → Char) : Except Fault (ℤ × ℕ) :=
  match scanField buf MaxMailSize startIndex with
  | none => .error .outOfBounds
  | some (valueStr, i) => .ok (atoi valueStr, i + 1)

/-- The buffer contains the text `s` from index `i` on. -/
def HasText (buf : ℕ → Char) : ℕ → Text → Prop
  | _, [] => True
  | i, c :: s => buf i = c ∧ HasText buf (i + 1) s

theorem HasText.append {buf : ℕ → Char} {i : ℕ} {s t : Text} :
    HasText buf i (s ++ t) ↔ HasText buf i s ∧ HasText buf (i + s.length) t := by
  induction s generalizing i with
  | nil => simp [HasText]
  | cons c s ih =>
    simp only [List.cons_append, HasText, ih, List.length_cons, and_assoc]
    rw [show i + 1 + s.length = i + (s.length + 1) by omega]

theorem hasText_bytes (s t : Text) : HasText (bytes (s ++ t)) s.length t := by
  induction t generalizing s with
  | nil => trivial
  | cons c t ih =>
    refine ⟨by simp [bytes], ?_⟩
    have := ih (s ++ [c])
    simpa using this

/-- Scanning a field that is in the buffer and ends at a delimiter. -/
theorem scanField_eq {buf : ℕ → Char} {i fuel : ℕ} {s : Text} (hs : HasText buf i s)
    (hend : buf (i + s.length) = '_' ∨ buf (i + s.length) = nul)
    (hchar : ∀ c ∈ s, c ≠ '_' ∧ c ≠ nul) (hlen : s.length < fuel) :
    scanField buf fuel i = some (s, i + s.length) := by
  induction s generalizing i fuel with
  | nil =>
    obtain ⟨fuel, rfl⟩ : ∃ f, fuel = f + 1 := ⟨fuel - 1, by simp at hlen; omega⟩
    rw [scanField, if_pos (by simpa using hend)]
    rfl
  | cons c s ih =>
    obtain ⟨fuel, rfl⟩ : ∃ f, fuel = f + 1 := ⟨fuel - 1, by simp at hlen; omega⟩
    obtain ⟨hc, hs⟩ := hs
    have hc' := hchar c (by simp)
    have hidx : i + 1 + s.length = i + (c :: s).length := by simp; omega
    rw [scanField, hc, if_neg (by tauto),
      ih hs (by rwa [hidx]) (fun d hd => hchar d (by simp [hd])) (by simp at hlen; omega), hidx]
    rfl

/-- The NUL of a text ends the scan. -/
theorem scanField_isSome {s : Text} {i fuel : ℕ} (h : s.length < i + fuel) (hi : i ≤ s.length) :
    (scanField (bytes s) fuel i).isSome := by
  induction fuel generalizing i with
  | zero => omega
  | succ fuel ih =>
    rw [scanField]
    split_ifs with hend
    · rfl
    · have hne : i ≠ s.length := by
        rintro rfl
        exact hend (Or.inr (by simp [bytes]))
      simpa using ih (by omega) (by omega)

theorem fmtInt_no_delimiter (n : ℤ) : ∀ c ∈ fmtInt n, c ≠ '_' ∧ c ≠ nul := by
  intro c hc
  rcases mem_fmtInt hc with rfl | hd
  · decide
  · refine ⟨?_, ?_⟩ <;> rintro rfl <;> exact absurd hd (by decide)

/-- **`parseValue` reads a printed number** that stands in the buffer before a
    delimiter. -/
theorem parseValue_number {buf : ℕ → Char} {i : ℕ} {n : ℤ} (hs : HasText buf i (fmtInt n))
    (hend : buf (i + (fmtInt n).length) = '_' ∨ buf (i + (fmtInt n).length) = nul)
    (hlen : (fmtInt n).length < MaxMailSize) :
    parseValue i buf = .ok (n, i + (fmtInt n).length + 1) := by
  rw [parseValue, scanField_eq hs hend (fmtInt_no_delimiter n) hlen]
  simp

/-! ## Reading the rest of a message -/

/-- The request type at the start of a message and the text behind its `_`.
    Without a `_` the index that `parseValue` returns lies behind the NUL and
    there is no such text. -/
def readType (msgData : Text) : Except Fault (ℤ × Option Text) :=
  match parseValue 0 (bytes msgData) with
  | .error f => .error f
  | .ok (requestType, i) =>
    .ok (requestType, if i ≤ msgData.length then some (msgData.drop i) else none)

/-- `do { c = msgData[++i]; if (c == '_') break; arr[x++] = c; } while (c != '_')`
    into an array of `size` bytes: the field and the text behind it. Without a
    `_` the loop runs past the NUL. -/
def readField (size : ℕ) (s : Text) : Except Fault (Text × Text) :=
  match field '_' s with
  | (_, none) => .error .outOfBounds
  | (f, some rest) => if f.length < size then .ok (f, rest) else .error .outOfBounds

/-- `while (c != '\0') { c = msgData[++i]; arr[m++] = c; }` into an array of
    `MaxMailSize` bytes, entered with `c` at the first character of `s`: an empty
    text leaves the array unwritten. -/
def readRest (s : Text) : Except Fault Text :=
  if s = [] then .error .uninitialised
  else if s.length < MaxMailSize then .ok s else .error .outOfBounds

/-- The same loop entered with `c == '_'`: an empty text is read as one. -/
def readRestAfter (s : Text) : Except Fault Text :=
  if s.length < MaxMailSize then .ok s else .error .outOfBounds

/-- The prefix of a request: `_client_` in a forwarded one, nothing in one that
    comes from the client itself, whose number the headers give. Then one
    argument, up to the end. -/
def readOne (clientNum : ℤ) : Text → Except Fault (ℤ × Text)
  | '_' :: s => do
    let (client, s) ← readField 5 s
    return (atoi client, ← readRestAfter s)
  | s => do return (clientNum, ← readRest s)

/-- Two arguments: the first up to a `_`, the second up to the end. -/
def readPair (clientNum : ℤ) (s : Text) : Except Fault (ℤ × Text × Text) := do
  let (first, s) ← readField MaxMailSize s
  return (clientNum, first, ← readRestAfter s)

/-- A request with two arguments. `tail` is what follows the client's digits in
    their array of `size` bytes. -/
def readTwo (size : ℕ) (tail : Text) (clientNum : ℤ) : Text → Except Fault (ℤ × Text × Text)
  | '_' :: s => do
    let (client, s) ← readField size s
    readPair (atoi (client ++ tail)) s
  | s => readPair clientNum s

/-- The C string from index `i` on, for at most `fuel` characters. -/
def readString (buf : ℕ → Char) : ℕ → ℕ → Text
  | 0, _ => []
  | fuel + 1, i => if buf i = nul then [] else buf i :: readString buf fuel (i + 1)

/-! ## Formats -/

/-- `sprintf` into a buffer of `size` bytes. -/
def sprintf (size : ℕ) (s : Text) : Except Fault Text :=
  if s.length < size then .ok s else .error .outOfBounds

theorem sprintf_eq {size : ℕ} {s : Text} (h : s.length < size) : sprintf size s = .ok s := if_pos h

theorem sprintf_eq_ok {size : ℕ} {s s' : Text} (h : sprintf size s = .ok s') :
    s.length < size ∧ s = s' := by
  rw [sprintf] at h
  split_ifs at h with hlt
  exact ⟨hlt, Except.ok.inj h⟩

/-- `"%d_%s"`: a request type and its data (`Request`). -/
def requestText (r : RequestType) (data : Text) : Text := fmtInt r.code ++ '_' :: data

/-- `"%d_%d_%s"`: a request type, a client and data (`CreateVerify`, the answers
    and the messages between the owners of a lock and a condition variable). -/
def clientText (r : RequestType) (client : ℤ) (data : Text) : Text :=
  requestText r (fmtInt client ++ '_' :: data)

/-- `"%d__%d_%s"`: a forwarded request. -/
def forwardText (r : RequestType) (client : ℤ) (data : Text) : Text :=
  requestText r ('_' :: fmtInt client ++ '_' :: data)

/-- `"%d_%d"`. -/
def pairText (a b : ℤ) : Text := fmtInt a ++ '_' :: fmtInt b

theorem readType_requestText (r : RequestType) (data : Text) :
    readType (requestText r data) = .ok (r.code, some data) := by
  have hlen : (fmtInt r.code).length ≤ 2 :=
    length_fmtInt_le_of_nonneg (by norm_num) r.code_bounds.1 (by have := r.code_bounds.2; omega)
  have hs : HasText (bytes (requestText r data)) 0 (fmtInt r.code ++ '_' :: data) :=
    hasText_bytes [] _
  obtain ⟨h1, h2⟩ := HasText.append.mp hs
  have hp := parseValue_number h1 (Or.inl h2.1) (by show _ < 32; omega)
  rw [readType, hp]
  simp only [requestText, List.length_append, List.length_cons]
  rw [if_pos (by omega)]
  simp [List.drop_append]

theorem readField_append {size : ℕ} {f : Text} (hf : '_' ∉ f) (hlen : f.length < size) (s : Text) :
    readField size (f ++ '_' :: s) = .ok (f, s) := by
  rw [readField, field_append hf]
  simp only [if_pos hlen]

theorem readRestAfter_eq {s : Text} (h : s.length < MaxMailSize) : readRestAfter s = .ok s :=
  if_pos h

/-- Two printed numbers are read back if they fit into their arrays. -/
theorem readPair_pairText (client a b : ℤ) :
    readPair client (pairText a b) =
      if (fmtInt a).length < MaxMailSize ∧ (fmtInt b).length < MaxMailSize then
        .ok (client, fmtInt a, fmtInt b)
      else .error .outOfBounds := by
  by_cases ha : (fmtInt a).length < MaxMailSize
  · rw [readPair, pairText, readField_append (underscore_not_mem_fmtInt _) ha, ok_bind]
    by_cases hb : (fmtInt b).length < MaxMailSize
    · simp only [if_pos (And.intro ha hb), readRestAfter_eq hb, ok_bind, pure_eq_ok]
    · simp only [if_neg (not_and_of_not_right _ hb), readRestAfter, if_neg hb, error_bind]
  · rw [readPair, pairText, readField, field_append (underscore_not_mem_fmtInt _), if_neg (by tauto)]
    simp only [if_neg ha, error_bind]

/-- A number is not taken for the prefix of a forwarded request. -/
theorem fmtInt_head? (n : ℤ) : (fmtInt n).head? ≠ some '_' := by
  intro h
  exact underscore_not_mem_fmtInt n (List.mem_of_mem_head? h)

/-- Nor is a pair of numbers. -/
theorem pairText_head? (a b : ℤ) : (pairText a b).head? ≠ some '_' := by
  rw [pairText, List.head?_append_of_ne_nil _ (fmtInt_ne_nil a)]
  exact fmtInt_head? a

/-- Two arguments that come from the client itself. -/
theorem readTwo_direct (size : ℕ) (tail : Text) (client a b : ℤ) :
    readTwo size tail client (pairText a b) = readPair client (pairText a b) := by
  unfold readTwo
  split
  · next heq => exact absurd (by rw [heq]; rfl) (pairText_head? a b)
  · rfl

/-- Two arguments of a forwarded request. -/
theorem readTwo_forwarded {size : ℕ} {client : ℤ} (hc : (fmtInt client).length < size) (c₀ a b : ℤ) :
    readTwo size [] c₀ ('_' :: fmtInt client ++ '_' :: pairText a b) =
      readPair client (pairText a b) := by
  simp only [List.cons_append, readTwo, readField_append (underscore_not_mem_fmtInt _) hc, ok_bind,
    List.append_nil, atoi_fmtInt]

/-- A forwarded request with one argument is read back. -/
theorem readOne_forwarded (c₀ : ℤ) {client : ℤ} {s : Text} (hc : (fmtInt client).length < 5)
    (hs : s.length < MaxMailSize) :
    readOne c₀ ('_' :: fmtInt client ++ '_' :: s) = .ok (client, s) := by
  simp only [List.cons_append, readOne, readField_append (underscore_not_mem_fmtInt _) hc,
    readRestAfter_eq hs, ok_bind, pure_eq_ok, atoi_fmtInt]

/-- A request with one argument that comes from the client itself is read back, if it
    fits. -/
theorem readOne_direct_eq (client : ℤ) {s : Text} (hne : s ≠ []) (hhead : s.head? ≠ some '_') :
    readOne client s = if s.length < MaxMailSize then .ok (client, s) else .error .outOfBounds := by
  match s, hne, hhead with
  | c :: s, _, hhead =>
    have hc : c ≠ '_' := by rintro rfl; exact hhead rfl
    unfold readOne
    split
    · next heq => cases heq; exact absurd rfl hc
    · rw [readRest, if_neg (by simp)]
      split_ifs <;> rfl

theorem readOne_direct (client : ℤ) {s : Text} (hs : s.length < MaxMailSize) (hne : s ≠ [])
    (hhead : s.head? ≠ some '_') : readOne client s = .ok (client, s) := by
  rw [readOne_direct_eq client hne hhead, if_pos hs]

theorem length_pairText (a b : ℤ) :
    (pairText a b).length = (fmtInt a).length + (fmtInt b).length + 1 := by
  simp only [pairText, List.length_append, List.length_cons]
  omega

/-- A message without the prefix of a forwarded request is read as one number, which is the first
    one in it. -/
theorem readOne_pairText (client : ℤ) {a b : ℤ} (ha : IsInt a) (hb : IsInt b) :
    readOne client (pairText a b) = .ok (client, pairText a b) ∧ atoi (pairText a b) = a := by
  have hfits : (pairText a b).length < MaxMailSize := by
    have := ha.length_le
    have := hb.length_le
    rw [length_pairText]
    show _ < 32
    omega
  have hne : pairText a b ≠ [] := by
    rw [pairText]
    exact List.append_ne_nil_of_left_ne_nil (fmtInt_ne_nil a) _
  refine ⟨readOne_direct _ hfits hne (pairText_head? a b), ?_⟩
  rw [pairText]
  exact atoi_fmtInt_append a (by simp)

end Nachos.Network
