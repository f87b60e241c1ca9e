import Nachos.Threads.Membership

/-!
# The list of the members on the wire

`RegServer` packs the members eight to a message, with two loops that share an index, and the loops
of `RegisterNetworkThread` unpack them.

* `group_info_round_trip`: there are as many messages as announced, each fits, and reading them in
  order gives the list.
-/

namespace Nachos.Threads

open Nachos.Lib Nachos.Network Nachos.Mail

/-! ## Packing -/

/-- The inner loop of `RegServer` (system.cc:273), with `rounds` to go: the text, and the index of
    the next member. -/
def packMembers (members : List (ℤ × ℤ)) : ℕ → ℕ → Text → Text × ℕ
  | 0, i, request => (request, i)
  | rounds + 1, i, request =>
    match members[i]? with
    | none => (request, i)
    | some member => packMembers members rounds (i + 1) (request ++ memberText member)

theorem packMembers_eq (members : List (ℤ × ℤ)) (rounds i : ℕ) (request : Text) :
    packMembers members rounds i request =
      (request ++ ((members.drop i).take rounds).flatMap memberText,
        i + ((members.drop i).take rounds).length) := by
  induction rounds generalizing i request with
  | zero => simp [packMembers]
  | succ rounds ih =>
    rw [packMembers]
    cases h : members[i]? with
    | none =>
      have hle : members.length ≤ i := List.getElem?_eq_none_iff.mp h
      simp [List.drop_eq_nil_of_le hle]
    | some member =>
      have hlt : i < members.length := (List.getElem?_eq_some_iff.mp h).1
      have hmember : members[i] = member := (List.getElem?_eq_some_iff.mp h).2
      simp only [ih, List.drop_eq_getElem_cons hlt, hmember, List.take_succ_cons,
        List.flatMap_cons, List.length_cons, List.append_assoc, Prod.mk.injEq, true_and]
      omega

/-- The outer loop (system.cc:265): the texts of the `GROUPINFO` messages from index `i` on. -/
def groupInfoMessages (members : List (ℤ × ℤ)) (i : ℕ) : List Text :=
  if _h : i < members.length then
    let r := packMembers members ThreadsPerMessage i (requestText .groupInfo [])
    r.1 :: groupInfoMessages members r.2
  else []
termination_by members.length - i
decreasing_by
  rw [packMembers_eq]
  simp only [List.length_take, List.length_drop, ThreadsPerMessage]
  omega

/-- The parts of the list, which are as many as announced. -/
abbrev numParts (members : List (ℤ × ℤ)) : ℕ := divRoundUp members.length ThreadsPerMessage

theorem lt_numParts_iff {members : List (ℤ × ℤ)} {part : ℕ} :
    part < numParts members ↔ ThreadsPerMessage * part < members.length := by
  show part < members.length / 8 + (if 0 < members.length % 8 then 1 else 0) ↔
    8 * part < members.length
  split_ifs <;> omega

/-- **A message** for each part of the list. -/
theorem groupInfoMessages_eq (members : List (ℤ × ℤ)) (part : ℕ) :
    groupInfoMessages members (min (ThreadsPerMessage * part) members.length) =
      (List.range' part (numParts members - part)).map (groupInfoText members) := by
  induction h : numParts members - part generalizing part with
  | zero =>
    have hend : ¬ ThreadsPerMessage * part < members.length := by
      rw [← lt_numParts_iff]
      omega
    rw [min_eq_right (not_lt.mp hend), groupInfoMessages.eq_def, dif_neg (lt_irrefl _)]
    rfl
  | succ n ih =>
    have hlt : ThreadsPerMessage * part < members.length := by
      rw [← lt_numParts_iff]
      omega
    have hindex : ThreadsPerMessage * part + (groupPart members part).length =
        min (ThreadsPerMessage * (part + 1)) members.length := by
      change 8 * part < members.length at hlt
      show 8 * part + ((members.drop (8 * part)).take 8).length = min (8 * (part + 1)) _
      rw [List.length_take, List.length_drop]
      omega
    have htext : requestText .groupInfo [] ++ (groupPart members part).flatMap memberText =
        groupInfoText members part := by
      simp [groupInfoText, requestText]
    have hpack : packMembers members ThreadsPerMessage (ThreadsPerMessage * part)
        (requestText .groupInfo []) =
          (groupInfoText members part, min (ThreadsPerMessage * (part + 1)) members.length) := by
      rw [packMembers_eq, ← hindex, ← htext]
      rfl
    rw [groupInfoMessages.eq_def, min_eq_left hlt.le, dif_pos hlt, hpack]
    show _ :: groupInfoMessages members _ = _
    rw [ih (part + 1) (by omega), List.range'_succ, List.map_cons]

theorem groupInfoMessages_zero (members : List (ℤ × ℤ)) :
    groupInfoMessages members 0 = (List.range (numParts members)).map (groupInfoText members) := by
  have h := groupInfoMessages_eq members 0
  rwa [Nat.mul_zero, Nat.zero_min, Nat.sub_zero, ← List.range_eq_range'] at h

/-! ## Members that can be printed -/

/-- A machine of one digit and a mailbox of two. -/
def Digits (member : ℤ × ℤ) : Prop :=
  (0 ≤ member.1 ∧ member.1 ≤ 9) ∧ 0 ≤ member.2 ∧ member.2 ≤ 99

section

variable {members : List (ℤ × ℤ)}

theorem Digits.printable {member : ℤ × ℤ} (h : Digits member) :
    ∃ t : NetThread, Printable t ∧ member = t.address := by
  obtain ⟨machine, mail⟩ := member
  obtain ⟨⟨h0, h9⟩, h0', h99⟩ := h
  refine ⟨⟨machine.toNat, mail.toNat⟩, ⟨?_, ?_⟩, ?_⟩
  · show machine.toNat ≤ 9
    omega
  · show mail.toNat ≤ 99
    omega
  · simp only [NetThread.address, Int.toNat_of_nonneg h0, Int.toNat_of_nonneg h0']

theorem length_memberText {member : ℤ × ℤ} (h : Digits member) :
    (memberText member).length = 3 := by
  obtain ⟨t, ht, rfl⟩ := h.printable
  obtain ⟨c, d, d', htext, -, -⟩ := memberText_digits ht.1 ht.2
  rw [NetThread.address, htext]
  rfl

/-- A message has three characters for a member, behind its type. -/
theorem length_groupInfoText (h : ∀ a ∈ members, Digits a) (part : ℕ) :
    (groupInfoText members part).length ≤ 27 := by
  have hpart : (groupPart members part).length ≤ 8 := List.length_take_le _ _
  have hmembers : ∀ l : List (ℤ × ℤ), (∀ a ∈ l, Digits a) →
      (l.flatMap memberText).length = 3 * l.length := by
    intro l hl
    induction l with
    | nil => rfl
    | cons a l ih =>
      rw [List.flatMap_cons, List.length_append, length_memberText (hl a List.mem_cons_self),
        ih fun a ha => hl a (List.mem_cons_of_mem _ ha), List.length_cons]
      omega
  have hlength := hmembers (groupPart members part) fun a ha =>
    h a (List.mem_of_mem_drop (List.mem_of_mem_take ha))
  have htype : (requestText .groupInfo []).length = 3 := by decide
  have hall : (groupInfoText members part).length = (requestText .groupInfo []).length +
      ((groupPart members part).flatMap memberText).length := by
    simp [groupInfoText, requestText]
    omega
  omega

end

/-! ## Unpacking -/

/-- The text of the answer to a registration when all of `members` have registered. -/
def responseText (members : List (ℤ × ℤ)) : Text :=
  requestText .regNetThreadResponse (fmtInt (numParts members))

/-- What `RegisterNetworkThread` has received when it has sent its registration. Its loop receives a
    mail, and the entries that it makes have the time stamps of `memory`. -/
def registerStep (t : NetThread) (s : ServerState) (a : Mail × (ℕ → Timeval)) :
    Except Fault ServerState :=
  (receiveLoop t a.2 s a.1).next

section

variable {t : NetThread} {members : List (ℤ × ℤ)} {s : ServerState} {m : Mail}
  {memory : ℕ → Timeval}

/-- The answer gives the number of messages to wait for. -/
theorem registerStep_response (t : NetThread) (memory : ℕ → Timeval) (hm : m.data = responseText members) (hs : s.phase = .response) :
    ∃ s', registerStep t s (m, memory) = .ok s' ∧
      s'.phase = (awaitGroupInfo t (numParts members)).1 ∧
        s'.thread.localNetThreadInfo = s.thread.localNetThreadInfo := by
  have hread : m.read =
      .ok (RequestType.regNetThreadResponse.code, some (fmtInt (numParts members))) := by
    rw [Mail.read, hm, responseText, readType_requestText]
  have hack : RequestType.regNetThreadResponse.code ≠ RequestType.ack.code := by decide
  refine ⟨⟨(awaitGroupInfo t (numParts members)).1,
    { s.thread with receivedMessages := record s.thread.receivedMessages m }⟩, ?_, rfl, rfl⟩
  simp only [registerStep, receiveLoop, hread, if_neg hack, hs, Phase.awaited, Option.map_some,
    if_true, register, atoi_fmtInt, Int.toNat_natCast]

/-- A `GROUPINFO` gives the members of its part. -/
theorem registerStep_groupInfo (memory : ℕ → Timeval) (h : ∀ a ∈ members, Digits a)
    {part remaining : ℕ} (hm : m.data = groupInfoText members part) (hs : s.phase = .groupInfo remaining) :
    ∃ s', registerStep t s (m, memory) = .ok s' ∧
      s'.phase = (awaitGroupInfo t (remaining - 1)).1 ∧
        s'.thread.localNetThreadInfo.map NetThreadInfoEntry.address =
          s.thread.localNetThreadInfo.map NetThreadInfoEntry.address ++ groupPart members part := by
  have hread : m.read = .ok (RequestType.groupInfo.code,
      some ((groupPart members part).flatMap memberText)) := by
    rw [Mail.read, hm, groupInfoText, readType_requestText]
  have hack : RequestType.groupInfo.code ≠ RequestType.ack.code := by decide
  have hpart (a : ℤ × ℤ) (ha : a ∈ groupPart members part) :=
    (h a (List.mem_of_mem_drop (List.mem_of_mem_take ha))).printable
  obtain ⟨entries, hentries, hmap⟩ := parseGroupInfo_flatMap memory hpart 0
  refine ⟨⟨(awaitGroupInfo t (remaining - 1)).1,
    { s.thread with
      receivedMessages := record s.thread.receivedMessages m
      localNetThreadInfo := s.thread.localNetThreadInfo ++ entries }⟩, ?_, rfl, ?_⟩
  · simp only [registerStep, receiveLoop, hread, if_neg hack, hs, Phase.awaited, Option.map_some,
      if_true, register, hentries, ok_bind, pure_eq_ok]
  · rw [List.map_append, hmap]

/-- **The parts** are read one after the other, up to the last one. -/
theorem exec_groupInfo (part : ℕ) (h : ∀ a ∈ members, Digits a)
    {mails : List (Mail × (ℕ → Timeval))} {remaining : ℕ} (hs : s.phase = (awaitGroupInfo t remaining).1)
    (htable : s.thread.localNetThreadInfo.map NetThreadInfoEntry.address =
      members.take (ThreadsPerMessage * part))
    (hmails : mails.map (·.1.data) = (List.range' part remaining).map (groupInfoText members)) :
    ∃ s', exec (registerStep t) s mails = .ok s' ∧ s'.phase = .main ∧
      s'.thread.localNetThreadInfo.map NetThreadInfoEntry.address =
        members.take (ThreadsPerMessage * (part + remaining)) := by
  induction remaining generalizing s mails part with
  | zero =>
    obtain rfl : mails = [] := List.map_eq_nil_iff.mp hmails
    exact ⟨s, rfl, hs, htable⟩
  | succ remaining ih =>
    rw [List.range'_succ, List.map_cons] at hmails
    obtain ⟨a, rest, rfl, hdata, hrest⟩ := List.map_eq_cons_iff.mp hmails
    obtain ⟨s₁, hstep, hphase, htable₁⟩ :=
      registerStep_groupInfo a.2 h hdata hs
    have hparts : members.take (ThreadsPerMessage * part) ++ groupPart members part =
        members.take (ThreadsPerMessage * (part + 1)) := by
      rw [groupPart, Nat.mul_succ, List.take_add]
    rw [htable, hparts] at htable₁
    obtain ⟨s', hs', hmain, hall⟩ := ih (part + 1) hphase htable₁ hrest
    refine ⟨s', ?_, hmain, ?_⟩
    · rw [exec_cons_ok hstep, hs']
    · rw [hall, Nat.add_assoc, Nat.add_comm 1]

end

/-- **The codec**: for every list of members of one digit and two, of any length, there are as many
    messages as announced, each fits with its counter of two digits, and from the answer on the
    loops read exactly the list. -/
theorem group_info_round_trip (t : NetThread) (members : List (ℤ × ℤ))
    (hmembers : ∀ a ∈ members, Digits a) :
    (groupInfoMessages members 0).length = numParts members ∧
      (∀ text ∈ groupInfoMessages members 0, text.length + 1 ≤ MaxMailSize ∧
        ∀ counter : ℤ, 0 ≤ counter → counter ≤ 99 →
          (counterText counter text).length + 1 < MaxMailSize) ∧
      ∀ (s : ServerState) (mails : List (Mail × (ℕ → Timeval))), s.phase = .response →
        s.thread.localNetThreadInfo = [] →
        mails.map (·.1.data) = responseText members :: groupInfoMessages members 0 →
        ∃ s', exec (registerStep t) s mails = .ok s' ∧ s'.phase = .main ∧
          s'.thread.localNetThreadInfo.map NetThreadInfoEntry.address = members := by
  have hmessages := groupInfoMessages_zero members
  refine ⟨?_, ?_, ?_⟩
  · rw [hmessages, List.length_map, List.length_range]
  · intro text htext
    rw [hmessages] at htext
    obtain ⟨part, -, rfl⟩ := List.mem_map.mp htext
    have hlength := length_groupInfoText hmembers part
    refine ⟨?_, ?_⟩
    · show _ ≤ 32
      omega
    · intro counter h0 h99
      have hcounter : (fmtInt counter).length ≤ 2 :=
        length_fmtInt_le_of_nonneg (by norm_num) h0 (by omega)
      show (fmtInt counter ++ '_' :: groupInfoText members part).length + 1 < 32
      rw [List.length_append, List.length_cons]
      omega
  · intro s mails hs hempty hmails
    obtain ⟨a, rest, rfl, hdata, hrest⟩ := List.map_eq_cons_iff.mp hmails
    obtain ⟨s₁, hstep, hphase, htable⟩ := registerStep_response t a.2 hdata hs
    rw [hempty] at htable
    rw [hmessages, List.range_eq_range'] at hrest
    obtain ⟨s', hs', hmain, hall⟩ :=
      exec_groupInfo 0 hmembers hphase (by rw [htable]; rfl) hrest
    refine ⟨s', ?_, hmain, ?_⟩
    · rw [exec_cons_ok hstep, hs']
    · rw [hall, Nat.zero_add]
      apply List.take_of_length_le
      have hlast : ¬ numParts members < numParts members := lt_irrefl _
      rw [lt_numParts_iff] at hlast
      omega

/-- Nine members, in two messages. -/
theorem group_info_round_trip_nine :
    (groupInfoMessages ((List.range 9).map fun i => ((1 : ℤ), (i : ℤ))) 0).length = 2 := by
  have hmembers : ∀ a ∈ (List.range 9).map fun i => ((1 : ℤ), (i : ℤ)), Digits a := by
    unfold Digits
    decide
  exact (group_info_round_trip ⟨1, 0⟩ _ hmembers).1

end Nachos.Threads
