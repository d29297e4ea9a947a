import ForexSuite.FixSession

/-!
# The answer to a resend request

The loop of `nextResendRequest` as a list of messages: which of them are sent again and
which gaps are filled. In a store that has every number, the answer covers the numbers
that were asked for, each one once and in order.
-/
namespace ForexSuite.FixSession

variable {β : Type}

/-! ### Full stores -/

/-- Every number that was given out belongs to a message in the store. -/
structure MessageStore.Kept (store : MessageStore β) : Prop where
  first : 1 ≤ store.nextSenderMsgSeqNum
  lookup : ∀ k m, store.messages.lookup k = some m →
    m.header.msgSeqNum = k ∧ 1 ≤ k ∧ k < store.nextSenderMsgSeqNum
  all : ∀ k, 1 ≤ k → k < store.nextSenderMsgSeqNum → ∃ m, store.messages.lookup k = some m

namespace MessageStore

variable {store : MessageStore β}

theorem Kept.empty : (empty : MessageStore β).Kept := by
  refine ⟨le_refl 1, ?_, ?_⟩
  · intro k m h
    simp [MessageStore.empty] at h
  · intro k h₁ h₂
    simp only [MessageStore.empty] at h₂
    omega

theorem Kept.insert (hs : store.Kept) {m : Message β}
    (hn : m.header.msgSeqNum = store.nextSenderMsgSeqNum) :
    (⟨store.messages.insert m.header.msgSeqNum m, store.nextSenderMsgSeqNum + 1,
      store.nextTargetMsgSeqNum⟩ : MessageStore β).Kept := by
  obtain ⟨first, lookup, all⟩ := hs
  constructor
  · change 1 ≤ store.nextSenderMsgSeqNum + 1
    omega
  · intro k m' h
    change m'.header.msgSeqNum = k ∧ 1 ≤ k ∧ k < store.nextSenderMsgSeqNum + 1
    by_cases hk : k = m.header.msgSeqNum
    · rw [hk, Finmap.lookup_insert] at h
      cases h
      exact ⟨hk.symm, by omega, by omega⟩
    · rw [Finmap.lookup_insert_of_ne _ hk] at h
      obtain ⟨h₁, h₂, h₃⟩ := lookup k m' h
      exact ⟨h₁, h₂, by omega⟩
  · intro k h₁ h₂
    change k < store.nextSenderMsgSeqNum + 1 at h₂
    by_cases hk : k = m.header.msgSeqNum
    · exact ⟨m, hk ▸ Finmap.lookup_insert _⟩
    · rw [Finmap.lookup_insert_of_ne _ hk]
      exact all k h₁ (by omega)

theorem get_of_lt (store : MessageStore β) {beginSeqNo endSeqNo : ℤ} (h : endSeqNo < beginSeqNo) :
    store.get beginSeqNo endSeqNo = [] := by
  have hn : (endSeqNo + 1 - beginSeqNo).toNat = 0 := by omega
  simp [get, hn]

/-- The first number is looked up before the rest. -/
theorem get_eq_cons (store : MessageStore β) {beginSeqNo endSeqNo : ℤ} (h : beginSeqNo ≤ endSeqNo) :
    store.get beginSeqNo endSeqNo =
      (store.messages.lookup beginSeqNo).toList ++ store.get (beginSeqNo + 1) endSeqNo := by
  obtain ⟨n, hn⟩ : ∃ n, (endSeqNo + 1 - beginSeqNo).toNat = n + 1 :=
    ⟨(endSeqNo - beginSeqNo).toNat, by omega⟩
  have hn' : (endSeqNo + 1 - (beginSeqNo + 1)).toNat = n := by omega
  have hmap : (fun i : ℕ => store.messages.lookup (beginSeqNo + (i + 1 : ℕ))) =
      fun i : ℕ => store.messages.lookup (beginSeqNo + 1 + i) := by
    funext i
    congr 1
    push_cast
    omega
  have h0 : store.messages.lookup (beginSeqNo + (0 : ℕ)) = store.messages.lookup beginSeqNo := by
    congr 1
    exact add_zero beginSeqNo
  simp only [get, hn, hn', List.range_succ_eq_map, List.filterMap_cons, List.filterMap_map]
  rw [h0, show ((fun i : ℕ => store.messages.lookup (beginSeqNo + i)) ∘ Nat.succ) = _ from hmap]
  cases store.messages.lookup beginSeqNo <;> rfl

end MessageStore

/-! ### What the loop writes -/

section

variable (cfg : Settings) (env : Answers β)

/-- The filling of the gap from one number up to another. -/
def gapFill (beginSeqNo newSeqNo : ℤ) : Message β where
  header := ⟨cfg.sessionID.beginString, cfg.sessionID.senderCompID, cfg.sessionID.targetCompID,
    beginSeqNo, env.now, true, some env.now⟩
  kind := .sequenceReset true newSeqNo

def sendStrings : List (Message β) → SessionM β Unit
  | [] => pure ()
  | m :: ms => do
      sendString m
      sendStrings ms

/-- A gap that begins with the number zero is none. -/
def fillIf (beginSeqNo newSeqNo : ℤ) : List (Message β) :=
  if beginSeqNo ≠ 0 then [gapFill cfg env beginSeqNo newSeqNo] else []

/-- One turn of the loop: what it writes and the variables after it. -/
def resendStep (message : Message β) (r : Resending) : List (Message β) × Resending :=
  let msgSeqNum := message.header.msgSeqNum
  let gap := r.gap msgSeqNum
  if message.kind.isAdminMsgType || !env.toApp (resent env message) then
    ([], ⟨if gap = 0 then msgSeqNum else gap, msgSeqNum + 1, msgSeqNum⟩)
  else
    (fillIf cfg env gap msgSeqNum ++ [resent env message], ⟨0, msgSeqNum + 1, msgSeqNum⟩)

def resendSteps : List (Message β) → Resending → List (Message β) × Resending
  | [], r => ([], r)
  | message :: messages, r =>
      let (out, r) := resendStep cfg env message r
      let (rest, r) := resendSteps messages r
      (out ++ rest, r)

/-- The whole answer to a request that does not begin with zero. -/
def answer (store : MessageStore β) (beginSeqNo endSeqNo : ℤ) : List (Message β) :=
  let next := store.nextSenderMsgSeqNum
  let endSeqNo := store.lastRequested endSeqNo
  if !cfg.persistMessages then
    [gapFill cfg env beginSeqNo (min (endSeqNo + 1) next)]
  else
    let (out, r) := resendSteps cfg env (store.get beginSeqNo endSeqNo) ⟨0, beginSeqNo, 0⟩
    out ++ fillIf cfg env r.begin (r.msgSeqNum + 1) ++
      if r.msgSeqNum < endSeqNo then [gapFill cfg env beginSeqNo (min (endSeqNo + 1) next)] else []

end

variable {cfg : Settings} {env : Answers β}

theorem generateSequenceReset_eq {beginSeqNo : ℤ} (h : beginSeqNo ≠ 0) (newSeqNo : ℤ) :
    generateSequenceReset cfg env beginSeqNo newSeqNo =
      sendString (gapFill cfg env beginSeqNo newSeqNo) := by
  funext s
  simp [generateSequenceReset, h, fill, gapFill]
  rfl

theorem sendStrings_append (ms ms' : List (Message β)) :
    sendStrings (ms ++ ms') = (do sendStrings ms; sendStrings ms' : SessionM β Unit) := by
  induction ms with
  | nil => simp [sendStrings]
  | cons m ms ih => simp [sendStrings, ih]

theorem resendLoop_eq (messages : List (Message β)) (r : Resending) :
    resendLoop cfg env messages r = do
      sendStrings (resendSteps cfg env messages r).1
      return (resendSteps cfg env messages r).2 := by
  induction messages generalizing r with
  | nil => simp [resendLoop, resendSteps, sendStrings]
  | cons message messages ih =>
      simp only [resendSteps, sendStrings_append]
      unfold resendLoop resendStep
      by_cases hadmin : message.kind.isAdminMsgType = true
      · simp [hadmin, ih, sendStrings]
      · by_cases hto : env.toApp (resent env message) = true
        · by_cases hgap : r.gap message.header.msgSeqNum = 0
          · simp [hadmin, hto, ih, hgap, fillIf, sendStrings]
          · simp [hadmin, hto, ih, hgap, fillIf, sendStrings, generateSequenceReset_eq]
        · simp [hadmin, hto, ih, sendStrings]

/-- The session after messages were written to its connection. -/
def Session.sent (s : Session β) (ms : List (Message β)) : Session β :=
  if s.connected then { s with wire := s.wire ++ ms } else s

@[simp] theorem Session.sent_nil (s : Session β) : s.sent [] = s := by
  simp [Session.sent]

theorem Session.sent_append (s : Session β) (ms ms' : List (Message β)) :
    s.sent (ms ++ ms') = (s.sent ms).sent ms' := by
  unfold Session.sent
  split <;> simp_all

@[simp] theorem Session.store_sent (s : Session β) (ms : List (Message β)) :
    (s.sent ms).store = s.store := by
  unfold Session.sent
  split <;> rfl

theorem run_bind_ok {α γ : Type} {x : SessionM β α} {f : α → SessionM β γ} {s s' : Session β}
    {a : α} (h : x.run.run s = (.ok a, s')) : (x >>= f).run.run s = (f a).run.run s' := by
  change (ExceptT.bindCont f) (x.run.run s).1 (x.run.run s).2 = _
  rw [h]
  rfl

theorem run_sendString (m : Message β) (s : Session β) :
    (sendString m).run.run s = (.ok (), s.sent [m]) :=
  rfl

theorem run_sendStrings (ms : List (Message β)) (s : Session β) :
    (sendStrings ms).run.run s = (.ok (), s.sent ms) := by
  induction ms generalizing s with
  | nil =>
      rw [Session.sent_nil]
      rfl
  | cons m ms ih =>
      rw [sendStrings, run_bind_ok (run_sendString m s), ih, ← Session.sent_append]
      rfl

theorem run_resendLoop (messages : List (Message β)) (r : Resending) (s : Session β) :
    (resendLoop cfg env messages r).run.run s =
      (.ok (resendSteps cfg env messages r).2, s.sent (resendSteps cfg env messages r).1) := by
  rw [resendLoop_eq, run_bind_ok (run_sendStrings _ s)]
  rfl

/-- A request that does not begin with zero is answered by the writing of the answer. -/
theorem run_resendMessages {beginSeqNo : ℤ} (h : beginSeqNo ≠ 0) (endSeqNo : ℤ) (s : Session β) :
    (resendMessages cfg env beginSeqNo endSeqNo).run.run s =
      (.ok (), s.sent (answer cfg env s.store beginSeqNo endSeqNo)) := by
  unfold resendMessages answer
  rw [run_bind_ok (show (get : SessionM β _).run.run s = (.ok s, s) from rfl)]
  generalize s.store.lastRequested endSeqNo = last
  dsimp only
  by_cases hp : cfg.persistMessages = true
  · rw [hp, Bool.not_true, if_neg Bool.false_ne_true, if_neg Bool.false_ne_true,
      run_bind_ok (run_resendLoop _ _ s)]
    generalize resendSteps cfg env _ _ = r
    have hlast : ∀ s' : Session β, s'.store = s.store →
        (if r.2.msgSeqNum < last then (do
          generateSequenceReset cfg env beginSeqNo (min (last + 1) (← get).getExpectedSenderNum))
          else pure () : SessionM β Unit).run.run s' =
        (.ok (), s'.sent (if r.2.msgSeqNum < last then
          [gapFill cfg env beginSeqNo (min (last + 1) s.store.nextSenderMsgSeqNum)] else [])) := by
      intro s' hs'
      by_cases hlt : r.2.msgSeqNum < last
      · rw [if_pos hlt, if_pos hlt,
          run_bind_ok (show (get : SessionM β _).run.run s' = (.ok s', s') from rfl),
          generateSequenceReset_eq h, run_sendString, Session.getExpectedSenderNum, hs']
      · rw [if_neg hlt, if_neg hlt, Session.sent_nil]
        rfl
    by_cases hgap : r.2.begin ≠ 0
    · rw [if_pos hgap, generateSequenceReset_eq hgap, run_bind_ok (run_sendString _ _), hlast]
      · rw [fillIf, if_pos hgap, Session.sent_append, Session.sent_append]
      · simp
    · rw [if_neg hgap, hlast]
      · rw [fillIf, if_neg hgap, List.append_nil, Session.sent_append]
      · simp
  · rw [Bool.not_eq_true] at hp
    rw [hp, Bool.not_false, if_pos rfl, if_pos rfl, generateSequenceReset_eq h, run_sendString]
    rfl

theorem resendLoop_eq_modifyGet (messages : List (Message β)) (r : Resending) :
    resendLoop cfg env messages r =
      modifyGet fun s => ((resendSteps cfg env messages r).2,
        s.sent (resendSteps cfg env messages r).1) := by
  funext s
  exact run_resendLoop messages r s

theorem resendMessages_eq {beginSeqNo : ℤ} (h : beginSeqNo ≠ 0) (endSeqNo : ℤ) :
    resendMessages cfg env beginSeqNo endSeqNo =
      modify fun s => s.sent (answer cfg env s.store beginSeqNo endSeqNo) := by
  funext s
  exact run_resendMessages h endSeqNo s

/-! ### What the answer covers -/

/-- A message that is not sent again. -/
def Skipped (env : Answers β) (m : Message β) : Prop :=
  m.kind.isAdminMsgType = true ∨ env.toApp (resent env m) = false

variable (cfg env) in
/-- The messages are about the numbers from one up to another, each number once and in order:
either the message of this number, or the filling of a gap of messages that are skipped. -/
inductive Covers (store : MessageStore β) : ℤ → ℤ → List (Message β) → Prop
  | nil (k : ℤ) : Covers store k k []
  | again {k n : ℤ} {m : Message β} {out : List (Message β)}
      (hl : store.messages.lookup k = some m) (hm : ¬Skipped env m)
      (rest : Covers store (k + 1) n out) : Covers store k n (resent env m :: out)
  | fill {k j n : ℤ} {out : List (Message β)} (hlt : k < j)
      (hgap : ∀ i m, k ≤ i → i < j → store.messages.lookup i = some m → Skipped env m)
      (rest : Covers store j n out) : Covers store k n (gapFill cfg env k j :: out)

variable {store : MessageStore β}

theorem Covers.append {k j n : ℤ} {out out' : List (Message β)} (h : Covers cfg env store k j out)
    (h' : Covers cfg env store j n out') : Covers cfg env store k n (out ++ out') := by
  induction h with
  | nil k => exact h'
  | again hl hm rest ih => exact .again hl hm (ih h')
  | fill hlt hgap rest ih => exact .fill hlt hgap (ih h')

theorem Covers.le {k n : ℤ} {out : List (Message β)} (h : Covers cfg env store k n out) :
    k ≤ n := by
  induction h with
  | nil => exact le_refl _
  | again _ _ _ ih => omega
  | fill hlt _ _ ih => omega

theorem MessageStore.lastRequested_lt (store : MessageStore β) (endSeqNo : ℤ) :
    store.lastRequested endSeqNo < store.nextSenderMsgSeqNum := by
  unfold lastRequested
  split
  · omega
  · rename_i h
    simp only [Bool.or_eq_true, decide_eq_true_eq, not_or, not_le] at h
    exact h.2

/-- Before a number the loop has covered everything up to a gap, which reaches to it. -/
structure Covered (cfg : Settings) (env : Answers β) (store : MessageStore β) (k n : ℤ)
    (out : List (Message β)) (r : Resending) : Prop where
  current : r.current = n
  msgSeqNum : k < n → r.msgSeqNum = n - 1
  out : ∃ j, 1 ≤ j ∧ Covers cfg env store k j out ∧
    ((r.begin = 0 ∧ j = n) ∨ (r.begin = j ∧ j < n ∧
      ∀ i m, j ≤ i → i < n → store.messages.lookup i = some m → Skipped env m))

theorem resendStep_skipped {m : Message β} (h : Skipped env m) (r : Resending) :
    resendStep cfg env m r = ([], ⟨if r.gap m.header.msgSeqNum = 0 then m.header.msgSeqNum
      else r.gap m.header.msgSeqNum, m.header.msgSeqNum + 1, m.header.msgSeqNum⟩) := by
  unfold resendStep
  rw [if_pos]
  simpa [Skipped] using h

theorem resendStep_resent {m : Message β} (h : ¬Skipped env m) (r : Resending) :
    resendStep cfg env m r =
      (fillIf cfg env (r.gap m.header.msgSeqNum) m.header.msgSeqNum ++ [resent env m],
        ⟨0, m.header.msgSeqNum + 1, m.header.msgSeqNum⟩) := by
  unfold resendStep
  rw [if_neg]
  simpa [Skipped] using h

theorem resendStep_covered {k n : ℤ} {out : List (Message β)} {r : Resending} {m : Message β}
    (hn : 1 ≤ n) (hl : store.messages.lookup n = some m) (hm : m.header.msgSeqNum = n)
    (hr : Covered cfg env store k n out r) :
    Covered cfg env store k (n + 1) (out ++ (resendStep cfg env m r).1)
      (resendStep cfg env m r).2 := by
  obtain ⟨hcurrent, _, j, hj, hout, hgap⟩ := hr
  have hg : r.gap m.header.msgSeqNum = r.begin := by
    simp [Resending.gap, hcurrent, hm]
  by_cases hs : Skipped env m
  · rw [resendStep_skipped hs, hg, hm]
    refine ⟨rfl, fun _ => (add_sub_cancel_right n 1).symm, j, hj, by simpa using hout, Or.inr ?_⟩
    rcases hgap with ⟨h0, rfl⟩ | ⟨hb, hlt, hskip⟩
    · refine ⟨if_pos h0, by omega, ?_⟩
      intro i m' h₁ h₂ hi
      obtain rfl : i = j := by omega
      rw [hl] at hi
      cases hi
      exact hs
    · refine ⟨by rw [if_neg (by omega), hb], by omega, ?_⟩
      intro i m' h₁ h₂ hi
      by_cases hin : i = n
      · subst hin
        rw [hl] at hi
        cases hi
        exact hs
      · exact hskip i m' h₁ (by omega) hi
  · rw [resendStep_resent hs, hg, hm]
    refine ⟨rfl, fun _ => (add_sub_cancel_right n 1).symm, n + 1, by omega, ?_,
      Or.inl ⟨rfl, rfl⟩⟩
    have hagain : Covers cfg env store n (n + 1) [resent env m] := .again hl hs (.nil _)
    rcases hgap with ⟨h0, rfl⟩ | ⟨hb, hlt, hskip⟩
    · rw [h0]
      exact hout.append hagain
    · rw [fillIf, if_pos (by omega), hb]
      exact hout.append (.fill hlt hskip hagain)

theorem resendSteps_covered {k n last : ℤ} (hs : store.Kept) {out : List (Message β)}
    {r : Resending} (hn : 1 ≤ n) (hlast : last < store.nextSenderMsgSeqNum) (hle : n ≤ last + 1)
    (hr : Covered cfg env store k n out r) :
    Covered cfg env store k (last + 1) (out ++ (resendSteps cfg env (store.get n last) r).1)
      (resendSteps cfg env (store.get n last) r).2 := by
  obtain ⟨d, hd⟩ : ∃ d : ℕ, last + 1 = n + d := ⟨(last + 1 - n).toNat, by omega⟩
  induction d generalizing n out r with
  | zero =>
      obtain rfl : last + 1 = n := by omega
      rw [store.get_of_lt (by omega)]
      simpa [resendSteps] using hr
  | succ d ih =>
      obtain ⟨m, hl⟩ := hs.all n hn (by omega)
      have hm := (hs.lookup n m hl).1
      rw [store.get_eq_cons (by omega), hl]
      have := ih (by omega) (by omega) (resendStep_covered hn hl hm hr) (by push_cast at hd; omega)
      simpa [resendSteps, List.append_assoc] using this

/-- The answer to a request covers what was asked for. -/
theorem answer_covers (hs : store.Kept) (hp : cfg.persistMessages = true) {beginSeqNo : ℤ}
    (hb : 1 ≤ beginSeqNo) {endSeqNo : ℤ} (hle : beginSeqNo ≤ store.lastRequested endSeqNo) :
    Covers cfg env store beginSeqNo (store.lastRequested endSeqNo + 1)
      (answer cfg env store beginSeqNo endSeqNo) := by
  have hlast := store.lastRequested_lt endSeqNo
  unfold answer
  dsimp only
  generalize store.lastRequested endSeqNo = last at hle hlast ⊢
  have hstart : Covered cfg env store beginSeqNo beginSeqNo [] ⟨0, beginSeqNo, 0⟩ :=
    ⟨rfl, fun h => absurd h (lt_irrefl _), beginSeqNo, hb, .nil _, Or.inl ⟨rfl, rfl⟩⟩
  have hloop := resendSteps_covered hs hb hlast (by omega) hstart
  rw [List.nil_append] at hloop
  generalize resendSteps cfg env _ _ = r at hloop ⊢
  obtain ⟨_, hnum, j, hj, hout, hgap⟩ := hloop
  rw [hp, Bool.not_true, if_neg Bool.false_ne_true, hnum (by omega), if_neg (by omega),
    List.append_nil]
  rcases hgap with ⟨h0, rfl⟩ | ⟨hbegin, hlt, hskip⟩
  · rw [h0, fillIf, if_neg (by simp), List.append_nil]
    exact hout
  · rw [fillIf, if_pos (by omega), hbegin, sub_add_cancel]
    exact hout.append (.fill hlt hskip (.nil _))

/-- If there is nothing to send, the answer is at most a filling up to the next number. -/
theorem eq_gapFill_of_mem_answer {beginSeqNo endSeqNo : ℤ}
    (h : store.lastRequested endSeqNo < beginSeqNo) {m : Message β}
    (hm : m ∈ answer cfg env store beginSeqNo endSeqNo) :
    m = gapFill cfg env beginSeqNo (store.lastRequested endSeqNo + 1) := by
  have hlast := store.lastRequested_lt endSeqNo
  have hmin : min (store.lastRequested endSeqNo + 1) store.nextSenderMsgSeqNum =
      store.lastRequested endSeqNo + 1 := by omega
  unfold answer at hm
  simp only [store.get_of_lt h, resendSteps, fillIf, hmin] at hm
  grind

end ForexSuite.FixSession
