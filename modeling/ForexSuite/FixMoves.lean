import Mathlib.Logic.Relation
import ForexSuite.FixResend

/-!
# The moves of a FIX session

Every step of a session is a sequence of a few kinds of moves. A move keeps a message,
writes one, queues one, takes one up, counts it, or changes what no number depends on.
Between the moves that take a message up and count it the message is pending.

The relation has two readings. Of any peer and any application a session makes all the
moves. A fair step is one in which nothing resets the numbers and nothing is refused;
its moves are fewer and say more.
-/
namespace ForexSuite.FixSession
open PriceServer Relation

variable {β : Type}

/-! ### Messages of a fair step -/

/-- A message that resets nothing and asks for nothing before the first number. -/
def Kind.Regular : Kind β → Prop
  | .logon _ resetSeqNumFlag _ _ => resetSeqNumFlag = false
  | .resendRequest beginSeqNo _ => 1 ≤ beginSeqNo
  | .sequenceReset gapFillFlag _ => gapFillFlag = true
  | _ => True

def Kind.isSequenceReset : Kind β → Bool
  | .sequenceReset .. => true
  | _ => false

/-- The header is that of a message which the session sends. -/
def Addressed (cfg : Settings) (m : Message β) : Prop :=
  m.header.beginString = cfg.sessionID.beginString ∧
    m.header.senderCompID = cfg.sessionID.senderCompID ∧
    m.header.targetCompID = cfg.sessionID.targetCompID

/-- The header is that of a message which is sent to the session. -/
def Incoming (cfg : Settings) (m : Message β) : Prop :=
  m.header.beginString = cfg.sessionID.beginString ∧
    m.header.senderCompID = cfg.sessionID.targetCompID ∧
    m.header.targetCompID = cfg.sessionID.senderCompID ∧ m.kind.Regular

/-- What the store of a session may keep. -/
def Keepable (cfg : Settings) (m : Message β) : Prop :=
  Addressed cfg m ∧ m.kind.Regular ∧ m.kind.isSequenceReset = false

/-- All messages that are kept under these numbers are administrative. -/
def Gap (store : MessageStore β) (begin newSeqNo : ℤ) : Prop :=
  newSeqNo ≤ store.nextSenderMsgSeqNum ∧
    ∀ k m, begin ≤ k → k < newSeqNo → store.messages.lookup k = some m →
      m.kind.isAdminMsgType = true

/-- What a session writes: a message that it keeps, for the first time or again, or the
filling of a gap. -/
def Outgoing (cfg : Settings) (store : MessageStore β) (m : Message β) : Prop :=
  Addressed cfg m ∧
    ((∃ m₀, store.messages.lookup m.header.msgSeqNum = some m₀ ∧ m.kind = m₀.kind) ∨
      ∃ n, m.kind = .sequenceReset true n ∧ Gap store m.header.msgSeqNum n)

/-! ### Moves -/

/-- A session with the message that it has taken up and the number that it expected then. -/
abbrev Point (β : Type) := Session β × Option (Message β × ℤ)

/-- What no move of its own stands for: the flags and the removal of queued messages. -/
structure SameData (s s' : Session β) : Prop where
  store : s'.store = s.store
  wire : s'.wire = s.wire
  journal : s'.journal = s.journal
  queue : ∀ k m, s'.queue.lookup k = some m → s.queue.lookup k = some m
  receivedReset : s'.receivedReset = true → s.receivedReset = true

def Entry.isNote : Entry β → Bool
  | .fromApp _ | .reset | .overflow => false
  | _ => true

/-- No message of the application is pending. -/
def Idle (p : Option (Message β × ℤ)) : Prop :=
  ∀ m e, p = some (m, e) → m.kind.isAdminMsgType = true

theorem idle_none : Idle (none : Option (Message β × ℤ)) := by
  simp [Idle]

theorem idle_some {m : Message β} (h : m.kind.isAdminMsgType = true) (e : ℤ) :
    Idle (some (m, e)) := by
  simp [Idle, h]

def Session.noted (s : Session β) (e : Entry β) : Session β :=
  { s with journal := s.journal ++ [e] }

def Session.counted (s : Session β) (n : ℤ) : Session β :=
  { s with store.nextTargetMsgSeqNum := n }

def Session.kept (cfg : Settings) (s : Session β) (m : Message β) : Session β :=
  { s with
    store.messages :=
      if cfg.persistMessages then s.store.messages.insert m.header.msgSeqNum m
      else s.store.messages
    store.nextSenderMsgSeqNum := s.store.nextSenderMsgSeqNum + 1 }

variable (cfg : Settings) (known : Message β → Prop) (fair : Prop) in
inductive Move : Point β → Point β → Prop
  | control {s s' p} (h : SameData s s') : Move (s, p) (s', p)
  | receivedReset {s p} (b : Bool) (h : fair → b = false) :
      Move (s, p) ({ s with receivedReset := b }, p)
  | note {s p} (e : Entry β) (h : e.isNote = true) : Move (s, p) (s.noted e, p)
  | reset {s p} (h : ¬fair) (hp : Idle p) : Move (s, p) ({ s.noted .reset with store := .empty }, p)
  | keep {s p} (m : Message β) (hn : m.header.msgSeqNum = s.store.nextSenderMsgSeqNum)
      (h : fair → Keepable cfg m) : Move (s, p) (s.kept cfg m, p)
  | write {s p} (ms : List (Message β)) (h : fair → ∀ m ∈ ms, Outgoing cfg s.store m) :
      Move (s, p) (s.sent ms, p)
  | enqueue {s p} (m : Message β) (h : known m) :
      Move (s, p) ({ s with queue := s.queue.insert m.header.msgSeqNum m }, p)
  | accept {s} (m : Message β) (h : known m) (hk : m.kind.isAdminMsgType = true) :
      Move (s, none) (s, some (m, s.store.nextTargetMsgSeqNum))
  | deliver {s} (m : Message β) (h : known m) (hk : m.kind.isAdminMsgType = false)
      (hn : m.header.msgSeqNum = s.store.nextTargetMsgSeqNum) :
      Move (s, none) (s.noted (.fromApp m), some (m, s.store.nextTargetMsgSeqNum))
  | drop {s m e} (hk : m.kind.isAdminMsgType = true) : Move (s, some (m, e)) (s, none)
  | count {s m e} (h : fair → m.header.msgSeqNum = e ∧ m.kind.isSequenceReset = false) :
      Move (s, some (m, e)) (s.counted (s.store.nextTargetMsgSeqNum + 1), none)
  | jump {s m e} (n : ℤ) (hlt : s.store.nextTargetMsgSeqNum < n)
      (hk : m.kind.isAdminMsgType = true)
      (h : fair → m.header.msgSeqNum = e ∧ m.kind = .sequenceReset true n) :
      Move (s, some (m, e)) (s.counted n, none)
  | lose {s} (n : ℤ) (hlt : s.store.nextTargetMsgSeqNum < n) (h : ¬fair) :
      Move (s, none) (s.counted n, none)
  | overflow {s p} (n : ℤ) (h : ¬fair) : Move (s, p) ((s.noted .overflow).counted n, none)

/-- What holds between the moves. The first three facts hold of any peer. -/
structure Sound (cfg : Settings) (known : Message β → Prop) (fair : Prop) (a : Point β) :
    Prop where
  queued : ∀ k m, a.1.queue.lookup k = some m → m.header.msgSeqNum = k ∧ known m
  pending : ∀ m e, a.2 = some (m, e) → known m ∧
    (m.kind.isAdminMsgType = false → m.header.msgSeqNum = e) ∧
    (fair ∨ m.kind.isAdminMsgType = false → a.1.store.nextTargetMsgSeqNum = e)
  kept : cfg.persistMessages = true → a.1.store.Kept
  receivedReset : fair → a.1.receivedReset = false
  target : fair → 1 ≤ a.1.store.nextTargetMsgSeqNum
  keepable : fair → ∀ k m, a.1.store.messages.lookup k = some m → Keepable cfg m

variable {cfg : Settings} {known : Message β → Prop} {fair : Prop} {s s' : Session β}
  {p : Option (Message β × ℤ)}

theorem Sound.of_sameData (hs : Sound cfg known fair (s, p)) (h : SameData s s') :
    Sound cfg known fair (s', p) := by
  obtain ⟨hstore, _, _, hqueue, hreset⟩ := h
  have hreceived := hs.receivedReset
  constructor
  · intro k m hm
    exact hs.queued k m (hqueue k m hm)
  · rw [hstore]
    exact hs.pending
  · rw [hstore]
    exact hs.kept
  · intro hf
    simp only at hreceived
    grind
  · rw [hstore]
    exact hs.target
  · rw [hstore]
    exact hs.keepable

theorem Sound.noted (hs : Sound cfg known fair (s, p)) {e : Entry β} :
    Sound cfg known fair (s.noted e, p) :=
  ⟨hs.queued, hs.pending, hs.kept, hs.receivedReset, hs.target, hs.keepable⟩

/-- The number that is expected next is changed, and nothing is pending any more. -/
theorem Sound.counted (hs : Sound cfg known fair (s, p)) {n : ℤ}
    (hn : fair → s.store.nextTargetMsgSeqNum < n) :
    Sound cfg known fair (s.counted n, none) := by
  refine ⟨hs.queued, by simp, ?_, hs.receivedReset, ?_, hs.keepable⟩
  · intro hp
    exact ⟨(hs.kept hp).first, (hs.kept hp).lookup, (hs.kept hp).all⟩
  · intro hf
    have h := hs.target hf
    have hn := hn hf
    simp only [Session.counted] at h ⊢
    omega

theorem Sound.reset (hs : Sound cfg known fair (s, p)) (h : ¬fair) (hp : Idle p) :
    Sound cfg known fair ({ s.noted .reset with store := .empty }, p) := by
  refine ⟨hs.queued, ?_, fun _ => .empty, fun hf => absurd hf h, fun hf => absurd hf h,
    fun hf => absurd hf h⟩
  intro m e hm
  obtain ⟨h₁, h₂, _⟩ := hs.pending m e hm
  refine ⟨h₁, h₂, ?_⟩
  rintro (hf | hk)
  · exact absurd hf h
  · rw [hp m e hm] at hk
    cases hk

theorem Sound.keep (hs : Sound cfg known fair (s, p)) {m : Message β}
    (hn : m.header.msgSeqNum = s.store.nextSenderMsgSeqNum) (h : fair → Keepable cfg m) :
    Sound cfg known fair (s.kept cfg m, p) := by
  refine ⟨hs.queued, hs.pending, ?_, hs.receivedReset, hs.target, ?_⟩
  · intro hp
    have := (hs.kept hp).insert hn
    simpa only [Session.kept, hp, if_true] using this
  · intro hf k m' hm
    simp only [Session.kept] at hm
    split at hm
    · by_cases hk : k = m.header.msgSeqNum
      · rw [hk, Finmap.lookup_insert] at hm
        cases hm
        exact h hf
      · rw [Finmap.lookup_insert_of_ne _ hk] at hm
        exact hs.keepable hf k m' hm
    · exact hs.keepable hf k m' hm

theorem Sound.enqueue (hs : Sound cfg known fair (s, p)) {m : Message β} (h : known m) :
    Sound cfg known fair ({ s with queue := s.queue.insert m.header.msgSeqNum m }, p) := by
  refine ⟨?_, hs.pending, hs.kept, hs.receivedReset, hs.target, hs.keepable⟩
  intro k m' hm
  simp only at hm
  by_cases hk : k = m.header.msgSeqNum
  · rw [hk, Finmap.lookup_insert] at hm
    cases hm
    exact ⟨hk.symm, h⟩
  · rw [Finmap.lookup_insert_of_ne _ hk] at hm
    exact hs.queued k m' hm

theorem Sound.sent (hs : Sound cfg known fair (s, p)) (ms : List (Message β)) :
    Sound cfg known fair (s.sent ms, p) := by
  unfold Session.sent
  split
  · exact ⟨hs.queued, hs.pending, hs.kept, hs.receivedReset, hs.target, hs.keepable⟩
  · exact hs

theorem Move.sound {a b : Point β} (h : Move cfg known fair a b) (hs : Sound cfg known fair a) :
    Sound cfg known fair b := by
  cases h with
  | control h => exact hs.of_sameData h
  | receivedReset b h => exact ⟨hs.queued, hs.pending, hs.kept, h, hs.target, hs.keepable⟩
  | note e h => exact hs.noted
  | reset h hp => exact hs.reset h hp
  | keep m hn h => exact hs.keep hn h
  | write ms h => exact hs.sent ms
  | enqueue m h => exact hs.enqueue h
  | accept m h hk =>
      refine ⟨hs.queued, ?_, hs.kept, hs.receivedReset, hs.target, hs.keepable⟩
      intro m' e hm
      cases hm
      exact ⟨h, by simp [hk], fun _ => rfl⟩
  | deliver m h hk hn =>
      refine ⟨hs.queued, ?_, hs.kept, hs.receivedReset, hs.target, hs.keepable⟩
      intro m' e hm
      cases hm
      exact ⟨h, fun _ => hn, fun _ => rfl⟩
  | drop hk =>
      exact ⟨hs.queued, by simp, hs.kept, hs.receivedReset, hs.target, hs.keepable⟩
  | count h => exact hs.counted fun _ => Int.lt_succ _
  | jump n hlt hk h => exact hs.counted fun _ => hlt
  | lose n hlt h => exact hs.counted fun _ => hlt
  | overflow n h => exact hs.noted.counted fun hf => absurd hf h

theorem moves_sound {a b : Point β} (h : ReflTransGen (Move cfg known fair) a b)
    (ha : Sound cfg known fair a) : Sound cfg known fair b := by
  induction h with
  | refl => exact ha
  | tail _ hm ih => exact hm.sound ih

/-! ### Courses -/

/-- The answers and the settings of a fair step: nothing resets the numbers, and the
dictionary, the clock and the application refuse nothing. -/
structure Fair (cfg : Settings) (env : Answers β) : Prop where
  resetOnLogon : cfg.resetOnLogon = false
  resetOnLogout : cfg.resetOnLogout = false
  resetOnDisconnect : cfg.resetOnDisconnect = false
  toAdminResets : cfg.toAdminResets = false
  checkLatency : cfg.checkLatency = false
  persistMessages : cfg.persistMessages = true
  sessionTime : env.sessionTime = true
  validate : ∀ m, env.validate m = none
  fromAdmin : ∀ m, env.fromAdmin m = none
  toApp : ∀ m : Message β, m.header.possDupFlag = true → env.toApp m = true

/-- A session that begins a step, with what is known of the messages that it may receive. -/
structure Course (β : Type) where
  cfg : Settings
  env : Answers β
  known : Message β → Prop
  fair : Prop
  start : Session β
  of_fair : fair → Fair cfg env
  incoming : fair → ∀ m, known m → Incoming cfg m
  bounded : fair → ∀ m, known m → m.kind.isSequenceReset = false →
    m.header.msgSeqNum + 1 < 2 ^ 31
  sound : Sound cfg known fair (start, none)

namespace Course

/-- The course can come to this session with this message pending. -/
def At (c : Course β) (p : Option (Message β × ℤ)) (s : Session β) : Prop :=
  ReflTransGen (Move c.cfg c.known c.fair) (c.start, none) (s, p)

variable {c : Course β} {p : Option (Message β × ℤ)} {s s' : Session β}

theorem At.move (h : c.At p s) {p' : Option (Message β × ℤ)}
    (hm : Move c.cfg c.known c.fair (s, p) (s', p')) : c.At p' s' :=
  ReflTransGen.tail h hm

/-- An administrative message need not be counted. -/
theorem At.drop {m : Message β} {e : ℤ} {r : Bool} (hk : m.kind.isAdminMsgType = true)
    (h : c.At (if r then some (m, e) else none) s) : c.At none s := by
  cases r
  · exact h
  · exact h.move (.drop hk)

theorem At.sound (h : c.At p s) : Sound c.cfg c.known c.fair (s, p) :=
  moves_sound h c.sound

end Course

end ForexSuite.FixSession
