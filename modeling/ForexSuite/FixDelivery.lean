import ForexSuite.FixSteps

/-!
# What a FIX session delivers

The application is given each message at most once and in the order of the numbers, of any
peer, and over all connections and restarts of the process, until the numbers are reset or
come to their end. The message that is expected next was never given to it.
-/
namespace ForexSuite.FixSession
open PriceServer Relation

variable {β : Type} {cfg : Settings} {known : Message β → Prop} {fair : Prop}

/-! ### The journal -/

/-- An entry of the journal after some messages were delivered. -/
def Entry.deliver (ms : List (Message β)) : Entry β → List (Message β)
  | .reset => []
  | .fromApp m => ms ++ [m]
  | _ => ms

/-- The messages that the application was given since the store was emptied last. -/
def Session.delivered (s : Session β) : List (Message β) :=
  s.journal.foldl Entry.deliver []

theorem Entry.deliver_note {e : Entry β} (h : e.isNote = true) (ms : List (Message β)) :
    e.deliver ms = ms := by
  cases e with
  | fromApp m => cases h
  | reset => cases h
  | overflow => cases h
  | fromAdmin m accepted => rfl
  | onLogon => rfl
  | onLogout => rfl
  | disconnect => rfl

theorem Session.delivered_noted (s : Session β) (e : Entry β) :
    (s.noted e).delivered = e.deliver s.delivered := by
  simp [delivered, noted, List.foldl_append]

theorem Session.delivered_sent (s : Session β) (ms : List (Message β)) :
    (s.sent ms).delivered = s.delivered := by
  unfold sent
  split <;> rfl

/-! ### The next number -/

/-- The first number of which the application was not given a message. While it handles one,
that message is not counted yet. -/
def nextNumber (a : Point β) : ℤ :=
  match a.2 with
  | some (m, _) =>
      if m.kind.isAdminMsgType then a.1.store.nextTargetMsgSeqNum
      else a.1.store.nextTargetMsgSeqNum + 1
  | none => a.1.store.nextTargetMsgSeqNum

theorem nextNumber_none (s : Session β) : nextNumber (s, none) = s.store.nextTargetMsgSeqNum :=
  rfl

theorem nextNumber_admin {m : Message β} (hk : m.kind.isAdminMsgType = true) (s : Session β)
    (e : ℤ) : nextNumber (s, some (m, e)) = s.store.nextTargetMsgSeqNum := by
  simp [nextNumber, hk]

theorem nextNumber_app {m : Message β} (hk : m.kind.isAdminMsgType = false) (s : Session β)
    (e : ℤ) : nextNumber (s, some (m, e)) = s.store.nextTargetMsgSeqNum + 1 := by
  simp [nextNumber, hk]

theorem nextNumber_congr {s s' : Session β}
    (h : s'.store.nextTargetMsgSeqNum = s.store.nextTargetMsgSeqNum) (p : Option (Message β × ℤ)) :
    nextNumber (s', p) = nextNumber (s, p) := by
  simp only [nextNumber, h]

theorem nextNumber_le (s : Session β) (p : Option (Message β × ℤ)) :
    nextNumber (s, p) ≤ s.store.nextTargetMsgSeqNum + 1 := by
  unfold nextNumber
  split
  · split <;> simp
  · simp

/-! ### Order -/

/-- The numbers of the messages rise, from one on and below a bound. -/
structure InOrder (ms : List (Message β)) (n : ℤ) : Prop where
  rising : (ms.map fun m => m.header.msgSeqNum).Pairwise (· < ·)
  first : ∀ m ∈ ms, 1 ≤ m.header.msgSeqNum
  below : ∀ m ∈ ms, m.header.msgSeqNum < n

theorem InOrder.nil (n : ℤ) : InOrder ([] : List (Message β)) n := by
  constructor <;> simp

theorem InOrder.mono {ms : List (Message β)} {n n' : ℤ} (h : InOrder ms n) (hle : n ≤ n') :
    InOrder ms n' :=
  ⟨h.rising, h.first, fun m hm => lt_of_lt_of_le (h.below m hm) hle⟩

theorem InOrder.snoc {ms : List (Message β)} {n : ℤ} (h : InOrder ms n) (hn : 1 ≤ n)
    {m : Message β} (hm : m.header.msgSeqNum = n) : InOrder (ms ++ [m]) (n + 1) := by
  obtain ⟨rising, first, below⟩ := h
  constructor
  · rw [List.map_append, List.pairwise_append]
    refine ⟨rising, List.pairwise_singleton _ _, ?_⟩
    intro a ha b hb
    obtain ⟨m', hm', rfl⟩ := List.mem_map.1 ha
    obtain rfl : b = m.header.msgSeqNum := by simpa using hb
    rw [hm]
    exact below m' hm'
  · intro m' h
    rcases List.mem_append.1 h with h | h
    · exact first m' h
    · obtain rfl : m' = m := by simpa using h
      omega
  · intro m' h
    rcases List.mem_append.1 h with h | h
    · have := below m' h
      omega
    · obtain rfl : m' = m := by simpa using h
      omega

/-- What was delivered is in order, and the next number is not below one. -/
structure Delivers (a : Point β) : Prop where
  target : 1 ≤ a.1.store.nextTargetMsgSeqNum
  inOrder : InOrder a.1.delivered (nextNumber a)

/-- Nothing that matters was changed. -/
theorem Delivers.congr {s s' : Session β} {p : Option (Message β × ℤ)} (hs : Delivers (s, p))
    (ht : s'.store.nextTargetMsgSeqNum = s.store.nextTargetMsgSeqNum)
    (hd : s'.delivered = s.delivered) : Delivers (s', p) := by
  obtain ⟨target, inOrder⟩ := hs
  refine ⟨ht ▸ target, ?_⟩
  rw [nextNumber_congr ht, hd]
  exact inOrder

theorem Delivers.reset (s : Session β) (p : Option (Message β × ℤ)) :
    Delivers ({ s.noted .reset with store := .empty }, p) := by
  have hnil : Session.delivered { s.noted .reset with store := .empty } = [] :=
    s.delivered_noted .reset
  refine ⟨le_refl 1, ?_⟩
  rw [hnil]
  exact .nil _

theorem Delivers.counted {s : Session β} {p : Option (Message β × ℤ)} (hs : Delivers (s, p))
    {n : ℤ} (hlt : s.store.nextTargetMsgSeqNum < n) (hn : nextNumber (s, p) ≤ n) :
    Delivers (s.counted n, none) := by
  refine ⟨?_, hs.inOrder.mono hn⟩
  have := hs.target
  change 1 ≤ n
  simp only at this
  omega

/-- The journal only grows. -/
theorem Move.journal {a b : Point β} (h : Move cfg known fair a b) :
    a.1.journal <+: b.1.journal := by
  cases h with
  | control h => rw [h.journal]
  | write ms h =>
      unfold Session.sent
      split <;> exact List.prefix_rfl
  | note | reset | deliver | overflow => exact List.prefix_append _ _
  | receivedReset | keep | enqueue | accept | drop | count | jump | lose => exact List.prefix_rfl

/-- Nothing that was written is taken back. -/
theorem Move.wire_prefix {a b : Point β} (h : Move cfg known fair a b) :
    a.1.wire <+: b.1.wire := by
  cases h with
  | control h => rw [h.wire]
  | write ms h =>
      unfold Session.sent
      split
      · exact List.prefix_append _ _
      · exact List.prefix_rfl
  | receivedReset | note | reset | keep | enqueue | accept | deliver | drop | count | jump
  | lose | overflow => exact List.prefix_rfl

/-- As long as the numbers have not come to their end, a move keeps the order. -/
theorem Move.delivers {a b : Point β} (h : Move cfg known fair a b) (hs : Delivers a)
    (hend : .overflow ∉ b.1.journal) : Delivers b := by
  cases h with
  | control h =>
      refine hs.congr ?_ ?_
      · rw [h.store]
      · rw [Session.delivered, h.journal]
        rfl
  | receivedReset b h => exact hs.congr rfl rfl
  | note e h => exact hs.congr rfl (by rw [Session.delivered_noted, e.deliver_note h])
  | reset h hp => exact .reset _ _
  | keep m hn h => exact hs.congr rfl rfl
  | write ms h => exact hs.congr (by rw [Session.store_sent]) (Session.delivered_sent _ ms)
  | enqueue m h => exact hs.congr rfl rfl
  | accept m h hk =>
      refine ⟨hs.target, ?_⟩
      rw [nextNumber_admin hk]
      exact hs.inOrder
  | deliver m h hk hn =>
      refine ⟨hs.target, ?_⟩
      rw [nextNumber_app hk, Session.delivered_noted]
      exact hs.inOrder.snoc hs.target hn
  | drop hk =>
      refine ⟨hs.target, ?_⟩
      have := hs.inOrder
      rwa [nextNumber_admin hk] at this
  | count h => exact hs.counted (Int.lt_succ _) (nextNumber_le _ _)
  | jump n hlt hk h => exact hs.counted hlt (by rw [nextNumber_admin hk]; exact hlt.le)
  | lose n hlt h => exact hs.counted hlt hlt.le
  | overflow n h => exact absurd (List.mem_append_right _ List.mem_cons_self) hend

theorem moves_journal {a b : Point β} (h : ReflTransGen (Move cfg known fair) a b) :
    a.1.journal <+: b.1.journal := by
  induction h with
  | refl => exact List.prefix_rfl
  | tail _ hm ih => exact ih.trans hm.journal

theorem moves_deliver {a b : Point β} (h : ReflTransGen (Move cfg known fair) a b)
    (ha : Delivers a) (hend : .overflow ∉ b.1.journal) : Delivers b := by
  induction h with
  | refl => exact ha
  | tail _ hm ih => exact hm.delivers (ih fun h => hend (hm.journal.subset h)) hend

/-! ### Runs -/

/-- What holds between two events of any run. -/
structure Safe (cfg : Settings) (s : Session β) : Prop where
  sound : Sound cfg (fun _ => True) False (s, none)
  delivers : .overflow ∉ s.journal → Delivers (s, none)

theorem Safe.new (cfg : Settings) : Safe cfg (Session.new cfg .empty : Session β) := by
  refine ⟨⟨?_, by simp, fun _ => .empty, False.elim, False.elim, False.elim⟩,
    fun _ => ⟨le_refl 1, .nil _⟩⟩
  intro k m h
  simp [Session.new] at h

theorem Safe.moves {s : Session β} (hs : Safe cfg s) (e : Event β) :
    ReflTransGen (Move cfg (fun _ => True) False) (s, none) (act cfg s e, none) := by
  let c : Course β :=
    ⟨cfg, e.env, fun _ => True, False, s, False.elim, False.elim, False.elim, hs.sound⟩
  exact Course.act_at (c := c) .refl ⟨rfl, fun _ _ _ => ⟨trivial, False.elim⟩⟩

theorem Safe.act {s : Session β} (hs : Safe cfg s) (e : Event β) : Safe cfg (act cfg s e) := by
  refine ⟨moves_sound (hs.moves e) hs.sound, ?_⟩
  intro hend
  have hstart : .overflow ∉ s.journal := fun h => hend ((moves_journal (hs.moves e)).subset h)
  exact moves_deliver (hs.moves e) (hs.delivers hstart) hend

theorem Safe.run {s : Session β} (hs : Safe cfg s) (es : List (Event β)) :
    Safe cfg (run cfg s es) := by
  induction es generalizing s with
  | nil => exact hs
  | cons e es ih => exact ih (hs.act e)

/-- Whatever the peer sends and whatever happens to the connection and to the process, the
application is given its messages in the order of their numbers and none of them twice, as
long as the number that is expected next does not overflow. -/
theorem delivered_once_in_order (cfg : Settings) (es : List (Event β))
    (hend : .overflow ∉ (run cfg (Session.new cfg .empty) es).journal) :
    let s := run cfg (Session.new cfg .empty) es
    (s.delivered.map fun m => m.header.msgSeqNum).Pairwise (· < ·) ∧
      ∀ m ∈ s.delivered, 1 ≤ m.header.msgSeqNum ∧
        m.header.msgSeqNum < s.store.nextTargetMsgSeqNum := by
  have h := (((Safe.new cfg).run es).delivers hend).inOrder
  exact ⟨h.rising, fun m hm => ⟨h.first m hm, h.below m hm⟩⟩

/-- `FIX.4.4`. -/
def fix44 : Str := [70, 73, 88, 46, 52, 46, 52]

/-- A client `C` and a server `S` whose settings reset nothing. -/
def ends (client : Bool) : Settings where
  sessionID := if client then ⟨fix44, [67], [83], []⟩ else ⟨fix44, [83], [67], []⟩
  heartBtInt := if client then 30 else 0
  checkLatency := false

/-- A message of one of the two ends, written at time zero. -/
def fromEnd (client : Bool) (msgSeqNum : ℤ) (kind : Kind ℕ) : Message ℕ where
  header := ⟨fix44, if client then [67] else [83], if client then [83] else [67], msgSeqNum, 0,
    false, none⟩
  kind := kind

/-- A client repeats its message, which ends the connection, and after a restart of the server it
goes on with the last number but one. -/
theorem repeated_message_is_delivered_once :
    let s := run (ends false) (Session.new (ends false) .empty)
      [.setResponder { now := 0 } true,
        .receive { now := 0 } (fromEnd true 1 (.logon 30 false none none)),
        .receive { now := 0 } (fromEnd true 2 (.app 5)),
        .receive { now := 0 } (fromEnd true 2 (.app 5)), .restart { now := 1 },
        .setResponder { now := 1 } true,
        .receive { now := 1 } (fromEnd true 3 (.logon 30 false none none)),
        .receive { now := 1 } (fromEnd true 4 (.sequenceReset false 2147483646)),
        .receive { now := 1 } (fromEnd true 2147483646 (.app 7))]
    (s.delivered.map fun m => m.header.msgSeqNum) = [2, 2147483646] ∧
      (s.delivered.map fun m => m.header.msgSeqNum).Pairwise (· < ·) := by
  intro s
  have hend : .overflow ∉ s.journal := by
    decide +kernel
  exact ⟨by decide +kernel, (delivered_once_in_order (ends false) _ hend).1⟩

/-- A session that keeps its messages answers every request for numbers that it has given out:
each of them is in the answer once and in order, as the message or in a gap of messages that
the session may not send again. -/
theorem requests_are_covered {cfg : Settings} (hp : cfg.persistMessages = true)
    (es : List (Event β)) (env : Answers β) {beginSeqNo endSeqNo : ℤ} (hb : 1 ≤ beginSeqNo)
    (hle : beginSeqNo ≤
      (run cfg (Session.new cfg .empty) es).store.lastRequested endSeqNo) :
    let s := run cfg (Session.new cfg .empty) es
    ∃ out, Covers cfg env s.store beginSeqNo (s.store.lastRequested endSeqNo + 1) out ∧
      (resendMessages cfg env beginSeqNo endSeqNo).run.run s = (.ok (), s.sent out) := by
  have hkept := ((Safe.new cfg).run es).sound.kept hp
  refine ⟨_, answer_covers hkept hp hb hle, ?_⟩
  exact run_resendMessages (by omega) endSeqNo _

/-- A client that has logged on and has sent two messages is asked for everything. -/
theorem two_messages_are_covered :
    let s := run (ends true) (Session.new (ends true) .empty)
      [.setResponder { now := 0 } true, .next { now := 0 } {},
        .receive { now := 0 } (fromEnd false 1 (.logon 30 false none none)),
        .send { now := 0 } 5, .send { now := 1 } 7]
    s.connected = true ∧
      ∃ out, Covers (ends true) { now := 2 } s.store 1 (s.store.lastRequested 0 + 1) out ∧
        (resendMessages (ends true) { now := 2 } 1 0).run.run s = (.ok (), s.sent out) := by
  intro s
  have hle : (1 : ℤ) ≤ s.store.lastRequested 0 := by
    decide +kernel
  exact ⟨by decide +kernel, requests_are_covered rfl _ { now := 2 } le_rfl hle⟩

end ForexSuite.FixSession
