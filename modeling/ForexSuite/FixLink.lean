import ForexSuite.FixDelivery

/-!
# Two FIX sessions

The two ends of a connection, which loses, repeats and reorders what they write, is cut and
opened again, and whose processes end and start. As long as nothing resets the numbers and
nothing is refused, each end delivers what the other one keeps, message by message, up to the
number that it expects next.
-/
namespace ForexSuite.FixSession
open Relation

variable {β : Type} {cfg cfg' : Settings} {known : Message β → Prop}

/-! ### Stores that grow -/

/-- A store after more numbers were given out. -/
structure MessageStore.Grows (store store' : MessageStore β) : Prop where
  next : store.nextSenderMsgSeqNum ≤ store'.nextSenderMsgSeqNum
  lookup : ∀ k < store.nextSenderMsgSeqNum,
    store'.messages.lookup k = store.messages.lookup k

section

variable {store store' store'' : MessageStore β}

theorem MessageStore.Grows.of_eq (h : store' = store) : store.Grows store' := by
  rw [h]
  exact ⟨le_refl _, fun _ _ => rfl⟩

theorem MessageStore.Grows.trans (h : store.Grows store') (h' : store'.Grows store'') :
    store.Grows store'' := by
  constructor
  · exact h.next.trans h'.next
  · intro k hk
    rw [h'.lookup k (lt_of_lt_of_le hk h.next), h.lookup k hk]

theorem Gap.grows {beginSeqNo newSeqNo : ℤ} (h : Gap store beginSeqNo newSeqNo)
    (hg : store.Grows store') : Gap store' beginSeqNo newSeqNo := by
  refine ⟨h.1.trans hg.next, ?_⟩
  intro k m hb hn hl
  rw [hg.lookup k (lt_of_lt_of_le hn h.1)] at hl
  exact h.2 k m hb hn hl

/-- What was written once may be written for ever. -/
theorem Outgoing.grows {m : Message β} (h : Outgoing cfg store m) (hk : store.Kept)
    (hg : store.Grows store') : Outgoing cfg store' m := by
  obtain ⟨haddressed, ⟨m₀, hl, hkind⟩ | ⟨n, hkind, hgap⟩⟩ := h
  · refine ⟨haddressed, Or.inl ⟨m₀, ?_, hkind⟩⟩
    rw [hg.lookup _ (hk.lookup _ m₀ hl).2.2]
    exact hl
  · exact ⟨haddressed, Or.inr ⟨n, hkind, hgap.grows hg⟩⟩

end

theorem Session.kept_grows (s : Session β) {m : Message β}
    (hn : m.header.msgSeqNum = s.store.nextSenderMsgSeqNum) :
    s.store.Grows (s.kept cfg m).store := by
  constructor
  · change s.store.nextSenderMsgSeqNum ≤ s.store.nextSenderMsgSeqNum + 1
    omega
  · intro k hk
    simp only [Session.kept]
    split
    · exact Finmap.lookup_insert_of_ne _ (by omega)
    · rfl

theorem Move.grows {a b : Point β} (h : Move cfg known True a b) : a.1.store.Grows b.1.store := by
  cases h with
  | control h => exact .of_eq h.store
  | keep m hn h => exact Session.kept_grows _ hn
  | write ms h => exact .of_eq (Session.store_sent _ ms)
  | reset h hp => exact absurd trivial h
  | lose n hlt h => exact absurd trivial h
  | overflow n h => exact absurd trivial h
  | receivedReset | note | enqueue | accept | deliver | drop | count | jump =>
      exact ⟨le_refl _, fun _ _ => rfl⟩

/-! ### The wire -/

theorem Session.mem_wire_sent {s : Session β} {ms : List (Message β)} {m : Message β}
    (h : m ∈ (s.sent ms).wire) : m ∈ s.wire ∨ m ∈ ms := by
  unfold sent at h
  split at h
  · exact List.mem_append.1 h
  · exact Or.inl h

/-- What is written is outgoing. -/
theorem Move.wire {a b : Point β} (h : Move cfg known True a b) :
    ∀ m ∈ b.1.wire, m ∈ a.1.wire ∨ Outgoing cfg a.1.store m := by
  have hsame : ∀ s s' : Session β, s'.wire = s.wire →
      ∀ m ∈ s'.wire, m ∈ s.wire ∨ Outgoing cfg s.store m := by
    intro s s' h
    rw [h]
    exact fun m hm => Or.inl hm
  cases h with
  | control h => exact hsame _ _ h.wire
  | write ms h =>
      intro m hm
      exact (Session.mem_wire_sent hm).imp_right (h trivial m)
  | receivedReset | note | reset | keep | enqueue | accept | deliver | drop | count | jump
  | lose | overflow => exact hsame _ _ rfl

/-- What an end of the connection keeps and has written. -/
structure Writes (cfg : Settings) (s : Session β) : Prop where
  kept : s.store.Kept
  keepable : ∀ k m, s.store.messages.lookup k = some m → Keepable cfg m
  wire : ∀ m ∈ s.wire, Outgoing cfg s.store m

/-- Two settings for the two ends of one connection. -/
structure Counterparts (cfg cfg' : Settings) : Prop where
  beginString : cfg'.sessionID.beginString = cfg.sessionID.beginString
  sender : cfg'.sessionID.senderCompID = cfg.sessionID.targetCompID
  target : cfg'.sessionID.targetCompID = cfg.sessionID.senderCompID

/-- What one end has written is a regular message for the other one. -/
theorem Writes.incoming {s : Session β} (hs : Writes cfg' s) (hc : Counterparts cfg cfg')
    {m : Message β} (hm : m ∈ s.wire) : Incoming cfg m := by
  obtain ⟨⟨hb, hsender, htarget⟩, hkind⟩ := hs.wire m hm
  refine ⟨hb.trans hc.beginString, hsender.trans hc.sender, htarget.trans hc.target, ?_⟩
  rcases hkind with ⟨m₀, hl, hkind⟩ | ⟨n, hkind, _⟩
  · rw [hkind]
    exact (hs.keepable _ m₀ hl).2.1
  · rw [hkind]
    rfl

/-! ### Messages of the application -/

/-- The kept messages of the application with numbers below a bound. -/
def MessageStore.applications (store : MessageStore β) (n : ℤ) : List (Message β) :=
  (store.get 1 (n - 1)).filter fun m => !m.kind.isAdminMsgType

section

variable {store store' : MessageStore β} {n : ℤ}

theorem MessageStore.applications_succ (hn : 1 ≤ n) :
    store.applications (n + 1) = store.applications n ++
      (store.messages.lookup n).toList.filter fun m => !m.kind.isAdminMsgType := by
  obtain ⟨k, rfl⟩ : ∃ k : ℕ, n = 1 + k := ⟨(n - 1).toNat, by omega⟩
  have h₁ : (1 + (k : ℤ) + 1 - 1 + 1 - 1).toNat = k + 1 := by omega
  have h₂ : (1 + (k : ℤ) - 1 + 1 - 1).toNat = k := by omega
  unfold applications get
  rw [h₁, h₂, List.range_succ, List.filterMap_append, List.filter_append]
  congr 2

theorem MessageStore.applications_app (hn : 1 ≤ n) {m : Message β}
    (hl : store.messages.lookup n = some m) (hk : m.kind.isAdminMsgType = false) :
    store.applications (n + 1) = store.applications n ++ [m] := by
  rw [applications_succ hn, hl]
  simp [hk]

theorem MessageStore.applications_admin (hn : 1 ≤ n)
    (h : ∀ m, store.messages.lookup n = some m → m.kind.isAdminMsgType = true) :
    store.applications (n + 1) = store.applications n := by
  rw [applications_succ hn]
  cases hl : store.messages.lookup n with
  | none => simp
  | some m => simp [h m hl]

/-- A gap has no messages of the application. -/
theorem MessageStore.applications_gap {n' : ℤ} (hn : 1 ≤ n) (hle : n ≤ n')
    (h : ∀ k m, n ≤ k → k < n' → store.messages.lookup k = some m →
      m.kind.isAdminMsgType = true) :
    store.applications n' = store.applications n := by
  induction n', hle using Int.leInduction with
  | base => rfl
  | succ k hk ih =>
      rw [applications_admin (hn.trans hk) fun m => h k m hk (Int.lt_succ k)]
      exact ih fun j m hj hlt => h j m hj (by omega)

theorem MessageStore.Grows.applications (hg : store.Grows store')
    (hn : n ≤ store.nextSenderMsgSeqNum) : store'.applications n = store.applications n := by
  unfold MessageStore.applications MessageStore.get
  congr 1
  refine List.filterMap_congr ?_
  intro k hk
  have hk := List.mem_range.1 hk
  exact hg.lookup _ (by omega)

end

/-! ### Delivery -/

/-- The number and the type with the body, which do not change when a message is sent again. -/
def Message.content (m : Message β) : ℤ × Kind β := (m.header.msgSeqNum, m.kind)

/-- What was delivered is what the peer keeps below the next number. -/
structure Delivered (peer : MessageStore β) (a : Point β) : Prop where
  next : nextNumber a ≤ peer.nextSenderMsgSeqNum
  content : a.1.delivered.map Message.content =
    (peer.applications (nextNumber a)).map Message.content

section

variable {peer : Session β} {s s' : Session β} {p : Option (Message β × ℤ)}
  {store store' : MessageStore β}

theorem Delivered.congr {a b : Point β} (h : Delivered store a)
    (hn : nextNumber b = nextNumber a) (hd : b.1.delivered = a.1.delivered) :
    Delivered store b := by
  obtain ⟨next, content⟩ := h
  constructor
  · rw [hn]
    exact next
  · rw [hn, hd]
    exact content

theorem Delivered.grows {a : Point β} (h : Delivered store a) (hg : store.Grows store') :
    Delivered store' a := by
  refine ⟨h.next.trans hg.next, ?_⟩
  rw [hg.applications h.next]
  exact h.content

/-- A message that the peer has written and that is no gap fill is one that the peer keeps. -/
theorem Writes.kept_of_mem (hp : Writes cfg' peer) {m : Message β} (hm : m ∈ peer.wire)
    (hs : m.kind.isSequenceReset = false) :
    ∃ m₀, peer.store.messages.lookup m.header.msgSeqNum = some m₀ ∧
      m.content = m₀.content ∧ m.header.msgSeqNum < peer.store.nextSenderMsgSeqNum := by
  obtain ⟨-, ⟨m₀, hl, hkind⟩ | ⟨n, hkind, -⟩⟩ := hp.wire m hm
  · obtain ⟨hnum, -, hlt⟩ := hp.kept.lookup _ m₀ hl
    refine ⟨m₀, hl, ?_, hlt⟩
    rw [Message.content, Message.content, hnum, hkind]
  · rw [hkind] at hs
    cases hs

/-- The number of such a message can be counted. -/
theorem Writes.bounded (hp : Writes cfg' peer)
    (hint : peer.store.nextSenderMsgSeqNum < 2 ^ 31) {m : Message β} (hm : m ∈ peer.wire)
    (hs : m.kind.isSequenceReset = false) : m.header.msgSeqNum + 1 < 2 ^ 31 := by
  obtain ⟨_, _, _, hlt⟩ := hp.kept_of_mem hm hs
  omega

theorem Delivered.deliver (hd : Delivered peer.store (s, none)) (hp : Writes cfg' peer)
    (ht : 1 ≤ s.store.nextTargetMsgSeqNum) {m : Message β} (hm : m ∈ peer.wire)
    (hk : m.kind.isAdminMsgType = false)
    (hn : m.header.msgSeqNum = s.store.nextTargetMsgSeqNum) (e : ℤ) :
    Delivered peer.store (s.noted (.fromApp m), some (m, e)) := by
  have hs : m.kind.isSequenceReset = false := by
    cases h : m.kind <;> simp_all [Kind.isAdminMsgType, Kind.isSequenceReset]
  obtain ⟨m₀, hl, hcontent, hlt⟩ := hp.kept_of_mem hm hs
  have hk₀ : m₀.kind.isAdminMsgType = false := by
    rw [← (Prod.mk.inj hcontent).2]
    exact hk
  rw [hn] at hl hlt
  constructor
  · rw [nextNumber_app hk]
    exact hlt
  · rw [nextNumber_app hk, Session.delivered_noted]
    change (s.delivered ++ [m]).map Message.content = (peer.store.applications
      (s.store.nextTargetMsgSeqNum + 1)).map Message.content
    rw [MessageStore.applications_app ht hl hk₀, List.map_append, List.map_append, hd.content]
    simp [nextNumber_none, hcontent]

/-- A message of the application was counted by the next number when it was delivered, and an
administrative one leaves out no message of the application. -/
theorem Delivered.count {m : Message β} {e : ℤ} (hd : Delivered peer.store (s, some (m, e)))
    (hp : Writes cfg' peer) (ht : 1 ≤ s.store.nextTargetMsgSeqNum) (hm : m ∈ peer.wire)
    (hn : m.header.msgSeqNum = s.store.nextTargetMsgSeqNum)
    (hs : m.kind.isSequenceReset = false) :
    Delivered peer.store (s.counted (s.store.nextTargetMsgSeqNum + 1), none) := by
  cases hk : m.kind.isAdminMsgType with
  | false => exact hd.congr (nextNumber_app hk s _).symm rfl
  | true =>
      obtain ⟨m₀, hl, hcontent, hlt⟩ := hp.kept_of_mem hm hs
      have hk₀ : m₀.kind.isAdminMsgType = true := by
        rw [← (Prod.mk.inj hcontent).2]
        exact hk
      rw [hn] at hl hlt
      have hc := hd.content
      rw [nextNumber_admin hk] at hc
      refine ⟨hlt, ?_⟩
      change s.delivered.map Message.content = (peer.store.applications
        (s.store.nextTargetMsgSeqNum + 1)).map Message.content
      rw [MessageStore.applications_admin ht fun m' h => by rw [hl] at h; cases h; exact hk₀]
      exact hc

/-- A gap fill leaves out no message of the application. -/
theorem Delivered.jump {m : Message β} {e : ℤ} (hd : Delivered peer.store (s, some (m, e)))
    (hp : Writes cfg' peer) (ht : 1 ≤ s.store.nextTargetMsgSeqNum) (hm : m ∈ peer.wire)
    (hn : m.header.msgSeqNum = s.store.nextTargetMsgSeqNum) {n : ℤ}
    (hlt : s.store.nextTargetMsgSeqNum < n) (hk : m.kind = .sequenceReset true n) :
    Delivered peer.store (s.counted n, none) := by
  have hadmin : m.kind.isAdminMsgType = true := by
    rw [hk]
    rfl
  have hc := hd.content
  rw [nextNumber_admin hadmin] at hc
  obtain ⟨-, ⟨m₀, hl, hkind⟩ | ⟨n', hkind, hgap⟩⟩ := hp.wire m hm
  · have hkept := (hp.keepable _ m₀ hl).2.2
    rw [← hkind, hk] at hkept
    cases hkept
  · obtain rfl : n = n' := by
      rw [hk] at hkind
      exact (Kind.sequenceReset.inj hkind).2
    rw [hn] at hgap
    refine ⟨hgap.1, ?_⟩
    change s.delivered.map Message.content = (peer.store.applications n).map Message.content
    rw [MessageStore.applications_gap ht hlt.le hgap.2]
    exact hc

theorem Move.delivered {a b : Point β} (h : Move cfg (· ∈ peer.wire) True a b)
    (hs : Sound cfg (· ∈ peer.wire) True a) (hp : Writes cfg' peer)
    (hd : Delivered peer.store a) : Delivered peer.store b := by
  cases h with
  | control h =>
      refine hd.congr (nextNumber_congr ?_ _) ?_
      · rw [h.store]
      · rw [Session.delivered, h.journal]
        rfl
  | receivedReset b h => exact hd.congr rfl rfl
  | note e h => exact hd.congr rfl (by rw [Session.delivered_noted, e.deliver_note h])
  | reset h hp => exact absurd trivial h
  | keep m hn h => exact hd.congr rfl rfl
  | write ms h =>
      exact hd.congr (nextNumber_congr (by rw [Session.store_sent]) _)
        (Session.delivered_sent _ ms)
  | enqueue m h => exact hd.congr rfl rfl
  | accept m h hk => exact hd.congr (nextNumber_admin hk _ _) rfl
  | deliver m h hk hn => exact hd.deliver hp (hs.target trivial) h hk hn _
  | drop hk => exact hd.congr (nextNumber_admin hk _ _).symm rfl
  | count h =>
      obtain ⟨hm, -, he⟩ := hs.pending _ _ rfl
      obtain ⟨hn, hkind⟩ := h trivial
      exact hd.count hp (hs.target trivial) hm (hn.trans (he (Or.inl trivial)).symm) hkind
  | jump n hlt hk h =>
      obtain ⟨hm, -, he⟩ := hs.pending _ _ rfl
      obtain ⟨hn, hkind⟩ := h trivial
      exact hd.jump hp (hs.target trivial) hm (hn.trans (he (Or.inl trivial)).symm) hlt hkind
  | lose n hlt h => exact absurd trivial h
  | overflow n h => exact absurd trivial h

end

/-! ### Connections -/

/-- Of the messages that an end receives, each was written by the other end, and one that ends
the session or rejects a message is the one that is expected. -/
def Event.From (peer s : Session β) : Event β → Prop
  | .receive _ message =>
      message ∈ peer.wire ∧ Course.Orderly message s.store.nextTargetMsgSeqNum
  | _ => True

/-- The two ends after some fair events at both of them. The network may hand over anything
that was written, at any time and more than once. The numbers that are given out stay below
the greatest `int`. -/
inductive Reachable (cfg : Bool → Settings) : (Bool → Session β) → Prop
  | start : Reachable cfg fun i => Session.new (cfg i) .empty
  | act {l : Bool → Session β} (h : Reachable cfg l) (i : Bool) (e : Event β)
      (hfair : Fair (cfg i) e.env) (hfrom : e.From (l !i) (l i))
      (hint : (FixSession.act (cfg i) (l i) e).store.nextSenderMsgSeqNum < 2 ^ 31) :
      Reachable cfg (Function.update l i (FixSession.act (cfg i) (l i) e))

/-- What holds of the two ends between two events. -/
structure Linked (cfg : Bool → Settings) (l : Bool → Session β) : Prop where
  int : ∀ i, (l i).store.nextSenderMsgSeqNum < 2 ^ 31
  sound : ∀ i, Sound (cfg i) (· ∈ (l !i).wire) True (l i, none)
  writes : ∀ i, Writes (cfg i) (l i)
  delivered : ∀ i, Delivered (l !i).store (l i, none)

/-- What a sequence of moves at one end keeps. -/
structure Progress (cfg : Settings) (peer s : Session β) (b : Point β) : Prop where
  sound : Sound cfg (· ∈ peer.wire) True b
  grows : s.store.Grows b.1.store
  subset : s.wire ⊆ b.1.wire
  wire : ∀ m ∈ b.1.wire, Outgoing cfg b.1.store m
  delivered : Delivered peer.store b

theorem Progress.move {peer s : Session β} {a b : Point β} (hp : Writes cfg' peer)
    (hpersist : cfg.persistMessages = true) (ha : Progress cfg peer s a)
    (h : Move cfg (· ∈ peer.wire) True a b) : Progress cfg peer s b := by
  obtain ⟨sound, grows, subset, wire, delivered⟩ := ha
  refine ⟨h.sound sound, grows.trans h.grows, List.Subset.trans subset h.wire_prefix.subset, ?_,
    h.delivered sound hp delivered⟩
  intro m hm
  have hout : Outgoing cfg a.1.store m := (h.wire m hm).elim (wire m) id
  exact hout.grows (sound.kept hpersist) h.grows

theorem Progress.moves {peer s : Session β} {b : Point β} (hp : Writes cfg' peer)
    (hpersist : cfg.persistMessages = true)
    (hs : Progress cfg peer s (s, none))
    (h : ReflTransGen (Move cfg (· ∈ peer.wire) True) (s, none) b) : Progress cfg peer s b := by
  induction h with
  | refl => exact hs
  | tail _ hm ih => exact ih.move hp hpersist hm

theorem Sound.mono {known' : Message β → Prop} {a : Point β} {fair : Prop}
    (h : Sound cfg known fair a) (hk : ∀ m, known m → known' m) : Sound cfg known' fair a := by
  refine ⟨?_, ?_, h.kept, h.receivedReset, h.target, h.keepable⟩
  · intro k m hl
    exact (h.queued k m hl).imp_right (hk m)
  · intro m e hm
    exact (h.pending m e hm).imp_left (hk m)

theorem Linked.start (cfg : Bool → Settings) :
    Linked cfg fun i => (Session.new (cfg i) .empty : Session β) := by
  have hl : ∀ k m, (MessageStore.empty : MessageStore β).messages.lookup k = some m → False := by
    intro k m h
    simp [MessageStore.empty] at h
  constructor
  · intro i
    change (1 : ℤ) < 2 ^ 31
    norm_num
  · intro i
    refine ⟨?_, by simp, fun _ => .empty, fun _ => rfl, fun _ => le_refl 1,
      fun _ k m h => (hl k m h).elim⟩
    intro k m h
    simp [Session.new] at h
  · intro i
    exact ⟨.empty, fun k m h => (hl k m h).elim, by simp [Session.new]⟩
  · intro i
    exact ⟨le_refl 1, rfl⟩

/-- One end takes a fair step. -/
theorem Linked.progress {cfg : Bool → Settings}
    (hc : ∀ i, Counterparts (cfg i) (cfg !i)) {l : Bool → Session β} (h : Linked cfg l) (i : Bool)
    (e : Event β) (hfair : Fair (cfg i) e.env) (hfrom : e.From (l !i) (l i)) :
    Progress (cfg i) (l !i) (l i) (act (cfg i) (l i) e, none) := by
  let c : Course β := ⟨cfg i, e.env, (· ∈ (l !i).wire), True, l i, fun _ => hfair,
    fun _ m hm => (h.writes !i).incoming (hc i) hm,
    fun _ m hm hs => (h.writes !i).bounded (h.int !i) hm hs, h.sound i⟩
  have hwithin : c.Within (l i) e := by
    refine ⟨rfl, ?_⟩
    rintro env m rfl
    exact hfrom.imp_right fun h _ => h
  have hat : c.At none (act (cfg i) (l i) e) := Course.act_at .refl hwithin
  exact Progress.moves (h.writes !i) hfair.persistMessages
    ⟨h.sound i, .of_eq rfl, List.Subset.refl _, (h.writes i).wire, h.delivered i⟩ hat

theorem Linked.act {cfg : Bool → Settings}
    (hc : ∀ i, Counterparts (cfg i) (cfg !i)) {l : Bool → Session β} (h : Linked cfg l) (i : Bool)
    (e : Event β) (hfair : Fair (cfg i) e.env) (hfrom : e.From (l !i) (l i))
    (hint : (FixSession.act (cfg i) (l i) e).store.nextSenderMsgSeqNum < 2 ^ 31) :
    Linked cfg (Function.update l i (FixSession.act (cfg i) (l i) e)) := by
  have hp := h.progress hc i e hfair hfrom
  generalize FixSession.act (cfg i) (l i) e = s at hp hint ⊢
  have hi : Function.update l i s i = s := Function.update_self i s l
  have hn : Function.update l i s (!i) = l !i := by
    rw [Function.update_of_ne]
    simp
  have hside : ∀ j, j = i ∨ j = !i := by
    intro j
    cases i <;> cases j <;> simp
  constructor
  · intro j
    rcases hside j with rfl | rfl
    · rw [hi]
      exact hint
    · rw [hn]
      exact h.int !i
  · intro j
    rcases hside j with rfl | rfl
    · rw [hi, hn]
      exact hp.sound
    · rw [Bool.not_not, hi, hn]
      have hs := h.sound !i
      rw [Bool.not_not] at hs
      exact hs.mono fun m hm => hp.subset hm
  · intro j
    rcases hside j with rfl | rfl
    · rw [hi]
      exact ⟨hp.sound.kept hfair.persistMessages, hp.sound.keepable trivial, hp.wire⟩
    · rw [hn]
      exact h.writes !i
  · intro j
    rcases hside j with rfl | rfl
    · rw [hi, hn]
      exact hp.delivered
    · rw [Bool.not_not, hi, hn]
      have hd := h.delivered !i
      rw [Bool.not_not] at hd
      exact hd.grows hp.grows

theorem Reachable.linked {cfg : Bool → Settings} (hc : ∀ i, Counterparts (cfg i) (cfg !i))
    {l : Bool → Session β} (h : Reachable cfg l) : Linked cfg l := by
  induction h with
  | start => exact Linked.start cfg
  | act _ i e hfair hfrom hint ih => exact ih.act hc i e hfair hfrom hint

/-- Each end has delivered exactly what the other one keeps of its application up to the number
that is expected next, each message once and in order. -/
theorem delivered_exactly_once {cfg : Bool → Settings} (hc : ∀ i, Counterparts (cfg i) (cfg !i))
    {l : Bool → Session β} (h : Reachable cfg l) (i : Bool) :
    (l i).store.nextTargetMsgSeqNum ≤ (l !i).store.nextSenderMsgSeqNum ∧
      (l i).delivered.map Message.content =
        ((l !i).store.applications (l i).store.nextTargetMsgSeqNum).map Message.content :=
  ⟨((h.linked hc).delivered i).next, ((h.linked hc).delivered i).content⟩

theorem fair_ends (i : Bool) : Fair (ends i) ({ now := 0 } : Answers ℕ) :=
  ⟨rfl, rfl, rfl, rfl, rfl, rfl, rfl, fun _ => rfl, fun _ => rfl, fun _ _ => rfl⟩

/-- The client logs on and sends one message, which the server delivers. -/
theorem first_message_is_delivered :
    ∃ l : Bool → Session ℕ, Reachable ends l ∧ (l false).delivered = [fromEnd true 2 (.app 5)] ∧
      (l false).delivered.map Message.content =
        ((l true).store.applications (l false).store.nextTargetMsgSeqNum).map Message.content := by
  have hc : ∀ i, Counterparts (ends i) (ends !i) := by
    intro i
    cases i <;> exact ⟨rfl, rfl, rfl⟩
  have h₁ : Reachable ends _ :=
    Reachable.start.act true (.setResponder { now := 0 } true) (fair_ends _) trivial
      (by decide +kernel)
  have h₂ := h₁.act false (.setResponder { now := 0 } true) (fair_ends _) trivial
    (by decide +kernel)
  have h₃ := h₂.act true (.next { now := 0 } {}) (fair_ends _) trivial (by decide +kernel)
  have h₄ := h₃.act false (.receive { now := 0 } (fromEnd true 1 (.logon 30 false none none)))
    (fair_ends _) ⟨by decide +kernel, trivial⟩ (by decide +kernel)
  have h₅ := h₄.act true (.receive { now := 0 } (fromEnd false 1 (.logon 30 false none none)))
    (fair_ends _) ⟨by decide +kernel, trivial⟩ (by decide +kernel)
  have h₆ := h₅.act true (.send { now := 0 } 5) (fair_ends _) trivial (by decide +kernel)
  have h₇ := h₆.act false (.receive { now := 0 } (fromEnd true 2 (.app 5))) (fair_ends _)
    ⟨by decide +kernel, trivial⟩ (by decide +kernel)
  exact ⟨_, h₇, by decide +kernel, (delivered_exactly_once hc h₇ false).2⟩

end ForexSuite.FixSession
