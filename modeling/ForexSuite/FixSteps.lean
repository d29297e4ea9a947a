import Mathlib
import ForexSuite.FixWrites

/-!
# Receiving in moves

The checks of a message, the functions that handle it and the queue, each as a sequence of
moves. A message is taken up when the application was called for it, and it is counted
before the next one is handled, also if the application throws.
-/
namespace ForexSuite.FixSession
open Std.Do PriceServer

set_option mvcgen.warning false

variable {β : Type}

/-- After a message was handled, `next` takes up what is queued and looks at the clock. -/
def afterMessage (cfg : Settings) (env : Answers β) (m : Message β) : SessionM β Unit := do
  nextQueued cfg env env.fuel
  if (← get).isLoggedOn then
    nextTimer cfg env (env.clock m)

namespace Course

variable {c : Course β} {p : Option (Message β × ℤ)} {m : Message β} {e : ℤ}

attribute [local spec] setReceivedLogon_at setSentLogout_at setSentLogon_at setSentReset_at
  setReceivedReset_at setHeartBtInt_at resetStore_at disconnect_at sendRaw_at generateLogon_at
  generateLogonResponse_at generateLogout_at generateResendRequest_at sendAll_at reset_at
  resendMessages_at

/-! ### Counting -/

/-- In a fair step the number of a message that is counted is not the last one. -/
theorem At.not_overflow {s : Session β} (h : c.At (some (m, e)) s)
    (hn : c.fair → m.header.msgSeqNum = e ∧ m.kind.isSequenceReset = false)
    (hmax : ¬s.store.nextTargetMsgSeqNum + 1 < 2 ^ 31) : ¬c.fair := by
  intro hf
  obtain ⟨hm, -, he⟩ := h.sound.pending m e rfl
  have hbounded := c.bounded hf m hm (hn hf).2
  rw [(hn hf).1] at hbounded
  exact hmax ((he (Or.inl hf)).symm ▸ hbounded)

theorem incr_count :
    ⦃fun s => ⌜c.At (some (m, e)) s ∧
      (c.fair → m.header.msgSeqNum = e ∧ m.kind.isSequenceReset = false)⌝⦄
    (incrNextTargetMsgSeqNum : SessionM β Unit)
    ⦃post⟨fun _ s => ⌜c.At none s⌝, fun _ _ => ⌜False⌝⟩⦄ := by
  mvcgen [incrNextTargetMsgSeqNum, setNextTargetMsgSeqNum, record]
  · rename_i h _ _ _
    exact h.1.move (.count h.2)
  · rename_i h _ hmax _ _
    exact h.1.move (.overflow _ (h.1.not_overflow h.2 hmax))

theorem incr_lose (h : ¬c.fair) :
    ⦃fun s => ⌜c.At none s⌝⦄ (incrNextTargetMsgSeqNum : SessionM β Unit)
    ⦃post⟨fun _ s => ⌜c.At none s⌝, fun _ _ => ⌜False⌝⟩⦄ := by
  mvcgen [incrNextTargetMsgSeqNum, setNextTargetMsgSeqNum, record]
  · rename_i hs _ _ _
    exact hs.move (.lose _ (Int.lt_succ _) h)
  · rename_i hs _ _ _ _
    exact hs.move (.overflow _ h)

/-- An application message that is pending has the number that is expected. -/
theorem At.pending {s : Session β} (h : c.At (some (m, e)) s)
    (hm : m.kind.isAdminMsgType = false) :
    m.header.msgSeqNum = e ∧ s.store.nextTargetMsgSeqNum = e ∧ m.kind.isSequenceReset = false := by
  obtain ⟨_, h₁, h₂⟩ := h.sound.pending m e rfl
  refine ⟨h₁ hm, h₂ (Or.inr hm), ?_⟩
  cases hk : m.kind <;> simp_all [Kind.isAdminMsgType, Kind.isSequenceReset]

/-- In a fair step nothing changes the number that is expected while a message is pending. -/
theorem At.expected {s : Session β} (h : c.At (some (m, e)) s) (hf : c.fair) :
    s.store.nextTargetMsgSeqNum = e :=
  (h.sound.pending m e rfl).2.2 (Or.inl hf)

/-! ### Rejecting -/

/-- A message that was given to the application is counted when it is rejected. -/
theorem countRejected_pending (hm : m.kind.isAdminMsgType = false) :
    ⦃fun s => ⌜c.At (some (m, e)) s⌝⦄ countRejected m
    ⦃post⟨fun _ s => ⌜c.At none s⌝, fun _ _ => ⌜False⌝⟩⦄ := by
  mvcgen [countRejected, incr_count]
  · rename_i hk _ _
    simp [hk, Kind.isAdminMsgType] at hm
  · rename_i hk _ _
    simp [hk, Kind.isAdminMsgType] at hm
  · rename_i h _
    obtain ⟨h₁, _, h₃⟩ := h.pending hm
    exact ⟨h, fun _ => ⟨h₁, h₃⟩⟩
  · rename_i h hn
    obtain ⟨h₁, h₂, _⟩ := h.pending hm
    exact absurd (h₁.trans h₂.symm) hn

/-- In a fair step no other message is counted when it is rejected. -/
theorem countRejected_at :
    ⦃fun s => ⌜c.At none s ∧ (c.fair → m.kind.isSequenceReset = true ∨
      m.header.msgSeqNum ≠ s.store.nextTargetMsgSeqNum)⌝⦄ countRejected m
    ⦃post⟨fun _ s => ⌜c.At none s⌝, fun _ _ => ⌜False⌝⟩⦄ := by
  mvcgen [countRejected, incr_lose]
  · rename_i h
    exact h.1
  · rename_i h
    exact h.1
  · rename_i hreset hk _ h hn
    intro hf
    rcases h.2 hf with hs | hne
    · rw [hk] at hs
      cases ‹Kind β› with
      | sequenceReset => exact hreset _ _ rfl
      | _ => cases hs
    · exact hne hn
  · rename_i h _
    exact h.1
  · rename_i h _
    exact h.1

theorem generateReject_of {P : Session β → Prop}
    (h : ⦃fun s => ⌜P s⌝⦄ countRejected m
      ⦃post⟨fun _ s => ⌜c.At none s⌝, fun _ _ => ⌜False⌝⟩⦄) (err field : ℕ) :
    ⦃fun s => ⌜P s⌝⦄ generateReject c.cfg c.env m err field
    ⦃post⟨fun _ s => ⌜c.At none s⌝, fun x s => ⌜x = .runtimeError ∧ c.At none s⌝⟩⦄ := by
  mvcgen [generateReject, h]
  · exact fun _ => idle_none
  · exact fun _ => ⟨trivial, rfl⟩

theorem generateBusinessReject_pending (hm : m.kind.isAdminMsgType = false) (err field : ℕ) :
    ⦃fun s => ⌜c.At (some (m, e)) s⌝⦄ generateBusinessReject c.cfg c.env m err field
    ⦃post⟨fun _ s => ⌜c.At none s⌝, fun _ _ => ⌜False⌝⟩⦄ := by
  mvcgen [generateBusinessReject, incr_count]
  · rename_i h
    obtain ⟨h₁, _, h₃⟩ := h.pending hm
    exact ⟨h, fun _ => ⟨h₁, h₃⟩⟩
  · exact fun _ => idle_none
  · exact fun _ => ⟨trivial, rfl⟩

theorem generateBusinessReject_at (h : ¬c.fair) (err field : ℕ) :
    ⦃fun s => ⌜c.At none s⌝⦄ generateBusinessReject c.cfg c.env m err field
    ⦃post⟨fun _ s => ⌜c.At none s⌝, fun _ _ => ⌜False⌝⟩⦄ := by
  mvcgen [generateBusinessReject, incr_lose]
  · exact fun _ => idle_none
  · exact fun _ => ⟨trivial, rfl⟩

/-! ### Checking -/

theorem generateReject_at (err field : ℕ) :
    ⦃fun s => ⌜c.At none s ∧ (c.fair → m.kind.isSequenceReset = true ∨
      m.header.msgSeqNum ≠ s.store.nextTargetMsgSeqNum)⌝⦄ generateReject c.cfg c.env m err field
    ⦃post⟨fun _ s => ⌜c.At none s⌝, fun x s => ⌜x = .runtimeError ∧ c.At none s⌝⟩⦄ :=
  generateReject_of countRejected_at err field

theorem doPossDup_at :
    ⦃fun s => ⌜c.At none s ∧ m.header.msgSeqNum < s.store.nextTargetMsgSeqNum⌝⦄
    doPossDup c.cfg c.env m
    ⦃post⟨fun _ s => ⌜c.At none s⌝, fun _ s => ⌜c.At none s⌝⟩⦄ := by
  mvcgen [doPossDup, generateReject_at]
  all_goals grind [idle_none]

theorem doTargetTooLow_at :
    ⦃fun s => ⌜c.At none s ∧ m.header.msgSeqNum < s.store.nextTargetMsgSeqNum⌝⦄
    doTargetTooLow c.cfg c.env m
    ⦃post⟨fun _ s => ⌜c.At none s⌝, fun _ s => ⌜c.At none s⌝⟩⦄ := by
  mvcgen [doTargetTooLow, doPossDup_at]
  all_goals grind [idle_none]

theorem doTargetTooHigh_at (hm : c.known m) :
    ⦃fun s => ⌜c.At none s⌝⦄ doTargetTooHigh c.cfg c.env m
    ⦃post⟨fun _ s => ⌜c.At none s⌝, fun _ _ => ⌜False⌝⟩⦄ := by
  mvcgen [doTargetTooHigh, queue_at]
  exact idle_none

theorem checks_at (hm : c.known m) (checkTooHigh checkTooLow : Bool) :
    ⦃fun s => ⌜c.At none s ∧ s.store.nextTargetMsgSeqNum = e⌝⦄
    checks c.cfg c.env m checkTooHigh checkTooLow
    ⦃post⟨fun r s => ⌜c.At none s ∧ (r = true → s.store.nextTargetMsgSeqNum = e ∧
      (checkTooHigh = true → m.header.msgSeqNum ≤ e) ∧
      (checkTooLow = true → e ≤ m.header.msgSeqNum))⌝, fun _ s => ⌜c.At none s⌝⟩⦄ := by
  have hgood : isGoodTime c.cfg c.env m = false → ¬c.fair := by
    intro h hf
    simp [isGoodTime, (c.of_fair hf).checkLatency] at h
  have hcomp : isCorrectCompID c.cfg m = false → ¬c.fair := by
    intro h hf
    obtain ⟨_, h₁, h₂, _⟩ := c.incoming hf m hm
    simp [isCorrectCompID, h₁, h₂] at h
  have hrange : ∀ s : Session β, c.At none s → c.At none { s with resendRange := (0, 0) } :=
    fun s h => h.move (.control ⟨rfl, rfl, rfl, fun _ _ h => h, id⟩)
  mvcgen [checks, generateReject_at, doTargetTooHigh_at, doTargetTooLow_at, setResendRange]
  all_goals grind [idle_none, Session.isTargetTooHigh, Session.isTargetTooLow,
    Session.getExpectedTargetNum]

/-- An exception with which nothing is pending. -/
def Failed (c : Course β) (x : Failure) (s : Session β) : Prop :=
  c.At none s ∧ x ≠ .logicError ∧ (c.fair → x = .runtimeError)

/-- A message whose handling has thrown: the application was given the message and has thrown
itself, or nothing is pending. -/
def Thrown (c : Course β) (m : Message β) (x : Failure) (s : Session β) : Prop :=
  (m.kind.isAdminMsgType = false ∧ (∃ f : AppFailure, x = f.toFailure) ∧
    ∃ e, c.At (some (m, e)) s) ∨ c.Failed x s

theorem fromCallback_at (hm : c.known m)
    (happ : m.kind.isAdminMsgType = false → m.header.msgSeqNum = e) :
    ⦃fun s => ⌜c.At none s ∧ s.store.nextTargetMsgSeqNum = e⌝⦄ fromCallback c.cfg c.env m
    ⦃post⟨fun _ s => ⌜c.At (some (m, e)) s⌝, fun x s => ⌜c.Thrown m x s⌝⟩⦄ := by
  mvcgen [fromCallback, record]
  · rename_i hk _ _ h _
    obtain ⟨h, rfl⟩ := h
    exact (h.move (.note _ rfl)).move (.accept m hm hk)
  · rename_i x hx s h _
    refine Or.inr ⟨h.1.move (.note _ rfl), ?_, ?_⟩
    · cases x <;> simp [AdminFailure.toFailure]
    · intro hf
      rw [(c.of_fair hf).fromAdmin] at hx
      cases hx
  · rename_i hk _ h _
    obtain ⟨h, rfl⟩ := h
    rw [Bool.not_eq_true] at hk
    exact h.move (.deliver m hm hk (happ hk))
  · rename_i hk _ _ _ _ x hx s h
    rw [Bool.not_eq_true] at hk
    exact Or.inl ⟨hk, ⟨x, rfl⟩, e, h⟩

/-- A message that is taken up is pending, with a number as it was asked for. -/
theorem verify_at (hm : c.known m) {checkTooHigh checkTooLow : Bool}
    (happ : m.kind.isAdminMsgType = false → checkTooHigh = true ∧ checkTooLow = true) :
    ⦃fun s => ⌜c.At none s ∧ s.store.nextTargetMsgSeqNum = e⌝⦄
    verify c.cfg c.env m checkTooHigh checkTooLow
    ⦃post⟨fun r s => ⌜c.At (if r then some (m, e) else none) s ∧ (r = true →
      (checkTooHigh = true → m.header.msgSeqNum ≤ e) ∧
      (checkTooLow = true → e ≤ m.header.msgSeqNum))⌝, fun x s => ⌜c.Thrown m x s⌝⟩⦄ := by
  mvcgen [verify, checks_at, setTestRequest, fromCallback_at]
  · rename_i h
    exact ⟨h.1, by simp⟩
  · rename_i hr s h _
    intro hk
    obtain ⟨h₁, h₂⟩ := happ hk
    obtain ⟨_, h₃, h₄⟩ := h.2 (by simpa using hr)
    exact le_antisymm (h₃ h₁) (h₄ h₂)
  · rename_i hr s h _
    exact ⟨h.1.move (.control ⟨rfl, rfl, rfl, fun _ _ h => h, id⟩), (h.2 (by simpa using hr)).1⟩
  · rename_i hr s h _ _ _ h'
    exact ⟨h', (h.2 (by simpa using hr)).2⟩
  · exact idle_none
  · rename_i h _
    exact ⟨h, by simp⟩

/-! ### Handling -/

/-- The number that is expected at the beginning may be given a name. -/
theorem ghost {α : Type} {x : SessionM β α} {P : Session β → Prop}
    {Q : PostCond α (.except Failure (.arg (Session β) .pure))}
    (h : ∀ e, ⦃fun s => ⌜P s ∧ s.store.nextTargetMsgSeqNum = e⌝⦄ x ⦃Q⦄) :
    ⦃fun s => ⌜P s⌝⦄ x ⦃Q⦄ := by
  intro s hs
  exact h s.store.nextTargetMsgSeqNum s ⟨hs, rfl⟩

/-- What is asked of `nextQueued`, which most functions call at their end. -/
def Drains (c : Course β) (drain : SessionM β Unit) : Prop :=
  ⦃fun s => ⌜c.At none s⌝⦄ drain
  ⦃post⟨fun _ s => ⌜c.At none s⌝, fun x s => ⌜c.Failed x s⌝⟩⦄

/-- A function that handles a message ends when `verify` says so, and goes on with the message
pending otherwise. -/
theorem verify_then (hm : c.known m) {checkTooHigh checkTooLow : Bool}
    (happ : m.kind.isAdminMsgType = false → checkTooHigh = true ∧ checkTooLow = true)
    {α : Type} {rest : SessionM β α} {a : α}
    (h : (checkTooHigh = true → m.header.msgSeqNum ≤ e) →
      (checkTooLow = true → e ≤ m.header.msgSeqNum) →
      ⦃fun s => ⌜c.At (some (m, e)) s⌝⦄ rest
      ⦃post⟨fun _ s => ⌜c.At none s⌝, fun x s => ⌜c.Thrown m x s⌝⟩⦄) :
    ⦃fun s => ⌜c.At none s ∧ s.store.nextTargetMsgSeqNum = e⌝⦄
    (do
      if !(← verify c.cfg c.env m checkTooHigh checkTooLow) then
        return a
      rest : SessionM β α)
    ⦃post⟨fun _ s => ⌜c.At none s⌝, fun x s => ⌜c.Thrown m x s⌝⟩⦄ := by
  by_cases hseq : (checkTooHigh = true → m.header.msgSeqNum ≤ e) ∧
      (checkTooLow = true → e ≤ m.header.msgSeqNum)
  · have h := h hseq.1 hseq.2
    mvcgen [verify_at, h]
    · rename_i r hr _ hs
      simpa [show r = false by simpa using hr] using hs.1
    · rename_i r hr _ hs
      simpa [show r = true by simpa using hr] using hs.1
  · mvcgen [verify_at]
    · rename_i r hr _ hs
      simpa [show r = false by simpa using hr] using hs.1
    · rename_i r hr
      intro s _ hs
      exact absurd (hs (by simpa using hr)) hseq

variable {drain : SessionM β Unit}

theorem nextHeartbeat_at (hm : c.known m) (hk : m.kind.isAdminMsgType = true)
    (hs : m.kind.isSequenceReset = false) (hdrain : c.Drains drain) :
    ⦃fun s => ⌜c.At none s ∧ s.store.nextTargetMsgSeqNum = e⌝⦄ nextHeartbeat c.cfg c.env drain m
    ⦃post⟨fun _ s => ⌜c.At none s⌝, fun x s => ⌜c.Thrown m x s⌝⟩⦄ := by
  unfold Drains at hdrain
  apply verify_then hm (by simp [hk])
  intro h₁ h₂
  have hseq := le_antisymm (h₁ rfl) (h₂ rfl)
  mvcgen [incr_count, hdrain]
  all_goals grind [Thrown]

theorem nextTestRequest_at (hm : c.known m) (hk : m.kind.isAdminMsgType = true)
    (hs : m.kind.isSequenceReset = false) (hdrain : c.Drains drain) (testReqID : Option Str) :
    ⦃fun s => ⌜c.At none s ∧ s.store.nextTargetMsgSeqNum = e⌝⦄
    nextTestRequest c.cfg c.env drain m testReqID
    ⦃post⟨fun _ s => ⌜c.At none s⌝, fun x s => ⌜c.Thrown m x s⌝⟩⦄ := by
  unfold Drains at hdrain
  apply verify_then hm (by simp [hk])
  intro h₁ h₂
  have hseq := le_antisymm (h₁ rfl) (h₂ rfl)
  have hsend : (Kind.heartbeat testReqID : Kind β).Regular := trivial
  have hidle := idle_some hk e
  mvcgen [incr_count, hdrain]
  all_goals grind [Thrown, Kind.isSequenceReset]

/-- In a fair step a Logout comes with the number that is expected. -/
theorem nextLogout_at (hm : c.known m) (hk : m.kind.isAdminMsgType = true)
    (hs : m.kind.isSequenceReset = false) (hseq : c.fair → m.header.msgSeqNum = e) :
    ⦃fun s => ⌜c.At none s ∧ s.store.nextTargetMsgSeqNum = e⌝⦄ nextLogout c.cfg c.env m
    ⦃post⟨fun _ s => ⌜c.At none s⌝, fun x s => ⌜c.Thrown m x s⌝⟩⦄ := by
  have hreset := unfair fun hf => (c.of_fair hf).resetOnLogout
  apply verify_then hm (by simp [hk])
  intro _ _
  mvcgen [incr_count]
  all_goals grind [Thrown, idle_none, idle_some]

/-- In a fair step a Reject comes with the number that is expected. -/
theorem nextReject_at (hm : c.known m) (hk : m.kind.isAdminMsgType = true)
    (hs : m.kind.isSequenceReset = false) (hdrain : c.Drains drain)
    (hseq : c.fair → m.header.msgSeqNum = e) :
    ⦃fun s => ⌜c.At none s ∧ s.store.nextTargetMsgSeqNum = e⌝⦄ nextReject c.cfg c.env drain m
    ⦃post⟨fun _ s => ⌜c.At none s⌝, fun x s => ⌜c.Thrown m x s⌝⟩⦄ := by
  unfold Drains at hdrain
  apply verify_then hm (by simp [hk])
  intro _ _
  mvcgen [incr_count, hdrain]
  all_goals grind [Thrown]

theorem nextApp_at (hm : c.known m) (hk : m.kind.isAdminMsgType = false) :
    ⦃fun s => ⌜c.At none s ∧ s.store.nextTargetMsgSeqNum = e⌝⦄ nextApp c.cfg c.env m
    ⦃post⟨fun _ s => ⌜c.At none s⌝, fun x s => ⌜c.Thrown m x s⌝⟩⦄ := by
  apply verify_then hm (fun _ => ⟨rfl, rfl⟩)
  intro _ _
  have hcount := incr_count (c := c) (m := m) (e := e)
  have hpending : ∀ s, c.At (some (m, e)) s → _ := fun s h => h.pending hk
  mvcgen [hcount]
  all_goals grind

theorem nextResendRequest_at (hm : c.known m) {beginSeqNo endSeqNo : ℤ}
    (hk : m.kind = .resendRequest beginSeqNo endSeqNo) :
    ⦃fun s => ⌜c.At none s ∧ s.store.nextTargetMsgSeqNum = e⌝⦄
    nextResendRequest c.cfg c.env m beginSeqNo endSeqNo
    ⦃post⟨fun _ s => ⌜c.At none s⌝, fun x s => ⌜c.Thrown m x s⌝⟩⦄ := by
  have hb : c.fair → 1 ≤ beginSeqNo := by
    intro hf
    have h := (c.incoming hf m hm).2.2.2
    rw [hk] at h
    exact h
  have hadmin : m.kind.isAdminMsgType = true := by simp [hk, Kind.isAdminMsgType]
  have hs : m.kind.isSequenceReset = false := by simp [hk, Kind.isSequenceReset]
  have hcount := incr_count (c := c) (m := m) (e := e)
  have hexpected : ∀ s, c.At (some (m, e)) s → c.fair → _ := fun s h => h.expected
  have hdrop : ∀ s, c.At (some (m, e)) s → c.At none s := fun s h => h.move (.drop hadmin)
  apply verify_then hm (by simp [hadmin])
  intro _ _
  mvcgen [hcount]
  all_goals grind [Session.getExpectedTargetNum]

theorem nextSequenceReset_at (hm : c.known m) {gapFillFlag : Bool} {newSeqNo : ℤ}
    (hk : m.kind = .sequenceReset gapFillFlag newSeqNo) :
    ⦃fun s => ⌜c.At none s ∧ s.store.nextTargetMsgSeqNum = e⌝⦄
    nextSequenceReset c.cfg c.env m gapFillFlag newSeqNo
    ⦃post⟨fun _ s => ⌜c.At none s⌝, fun x s => ⌜c.Thrown m x s⌝⟩⦄ := by
  have hgap : c.fair → gapFillFlag = true := by
    intro hf
    have h := (c.incoming hf m hm).2.2.2
    rw [hk] at h
    exact h
  have hadmin : m.kind.isAdminMsgType = true := by simp [hk, Kind.isAdminMsgType]
  apply verify_then hm (by simp [hadmin])
  intro h₁ h₂
  mvcgen [setNextTargetMsgSeqNum, generateReject_at]
  · rename_i h hlt _
    refine h.move (.jump newSeqNo hlt hadmin fun hf => ?_)
    exact ⟨le_antisymm (h₁ (hgap hf)) (h₂ (hgap hf)), by rw [hk, hgap hf]⟩
  · rename_i h _ _
    exact ⟨h.move (.drop hadmin), fun _ => Or.inl (by rw [hk]; rfl)⟩
  · exact id
  · rintro rfl h
    exact Or.inr ⟨h, by simp, fun _ => rfl⟩
  · rename_i h _ _
    exact h.move (.drop hadmin)

theorem openLogon_at {resetSeqNumFlag : Bool} (hflag : c.fair → resetSeqNumFlag = false) :
    ⦃fun s => ⌜c.At none s⌝⦄ openLogon c.cfg c.env resetSeqNumFlag
    ⦃post⟨fun _ s => ⌜c.At none s⌝, fun _ _ => ⌜False⌝⟩⦄ := by
  have hreset := unfair fun hf => (c.of_fair hf).resetOnLogon
  mvcgen [openLogon]
  all_goals grind [idle_none]

theorem answerLogon_at (heartBtInt : ℤ) (hk : m.kind.isAdminMsgType = true) :
    ⦃fun s => ⌜c.At (some (m, e)) s⌝⦄ answerLogon c.cfg c.env heartBtInt
    ⦃post⟨fun _ s => ⌜c.At (some (m, e)) s⌝, fun _ _ => ⌜False⌝⟩⦄ := by
  mvcgen [answerLogon]
  exact fun _ _ => idle_some hk e

theorem takeLogon_at (hm : c.known m) (hk : m.kind.isAdminMsgType = true)
    (hs : m.kind.isSequenceReset = false) (hdrain : c.Drains drain) (heartBtInt : ℤ)
    {resetSeqNumFlag : Bool} (hflag : c.fair → resetSeqNumFlag = false) :
    ⦃fun s => ⌜c.At none s ∧ s.store.nextTargetMsgSeqNum = e⌝⦄
    takeLogon c.cfg c.env drain m heartBtInt resetSeqNumFlag
    ⦃post⟨fun _ s => ⌜c.At none s⌝, fun x s => ⌜c.Thrown m x s⌝⟩⦄ := by
  unfold Drains at hdrain
  have hcount := incr_count (c := c) (m := m) (e := e)
  have hanswer := answerLogon_at (c := c) (m := m) (e := e) heartBtInt hk
  have hexpected : ∀ s, c.At (some (m, e)) s → c.fair → _ := fun s h => h.expected
  have hdrop : ∀ s, c.At (some (m, e)) s → c.At none s := fun s h => h.move (.drop hk)
  apply verify_then hm (by simp [hk])
  intro _ h₂
  mvcgen [hcount, hanswer, hdrain, doTargetTooHigh_at, record_at]
  all_goals grind [Thrown, Session.isTargetTooHigh, Session.getExpectedTargetNum]

theorem nextLogon_at (hm : c.known m) {heartBtInt : ℤ} {resetSeqNumFlag : Bool}
    {username password : Option Str}
    (hk : m.kind = .logon heartBtInt resetSeqNumFlag username password)
    (hdrain : c.Drains drain) :
    ⦃fun s => ⌜c.At none s⌝⦄ nextLogon c.cfg c.env drain m heartBtInt resetSeqNumFlag
    ⦃post⟨fun _ s => ⌜c.At none s⌝, fun x s => ⌜c.Thrown m x s⌝⟩⦄ := by
  have hflag : c.fair → resetSeqNumFlag = false := by
    intro hf
    have h := (c.incoming hf m hm).2.2.2
    rw [hk] at h
    exact h
  have hadmin : m.kind.isAdminMsgType = true := by simp [hk, Kind.isAdminMsgType]
  have hs : m.kind.isSequenceReset = false := by simp [hk, Kind.isSequenceReset]
  have htake := ghost fun e => takeLogon_at (e := e) hm hadmin hs hdrain heartBtInt hflag
  mvcgen [nextLogon, openLogon_at, htake]

/-- In a fair step these come with the number that is expected. -/
def Orderly (m : Message β) (e : ℤ) : Prop :=
  match m.kind with
  | .logout _ | .reject .. => m.header.msgSeqNum = e
  | _ => True

theorem orderly_of_eq (h : m.header.msgSeqNum = e) : Orderly m e := by
  unfold Orderly
  split <;> trivial

theorem nextAdmin_at (hm : c.known m) (hdrain : c.Drains drain) (ho : c.fair → Orderly m e)
    (hadmin : m.kind.isAdminMsgType = true) :
    ⦃fun s => ⌜c.At none s ∧ s.store.nextTargetMsgSeqNum = e⌝⦄ nextAdmin c.cfg c.env drain m
    ⦃post⟨fun _ s => ⌜c.At none s⌝, fun x s => ⌜c.Thrown m x s⌝⟩⦄ := by
  unfold nextAdmin
  unfold Orderly at ho
  cases hk : m.kind with
  | logon =>
      intro s hs
      exact nextLogon_at hm hk hdrain s hs.1
  | heartbeat => exact nextHeartbeat_at hm hadmin (by rw [hk]; rfl) hdrain
  | testRequest => exact nextTestRequest_at hm hadmin (by rw [hk]; rfl) hdrain _
  | resendRequest => exact nextResendRequest_at hm hk
  | sequenceReset => exact nextSequenceReset_at hm hk
  | reject =>
      rw [hk] at ho
      exact nextReject_at hm hadmin (by rw [hk]; rfl) hdrain ho
  | logout =>
      rw [hk] at ho
      exact nextLogout_at hm hadmin (by rw [hk]; rfl) ho
  | businessMessageReject =>
      rw [hk] at hadmin
      cases hadmin
  | app =>
      rw [hk] at hadmin
      cases hadmin

theorem dispatch_at (hm : c.known m) (hdrain : c.Drains drain) (ho : c.fair → Orderly m e) :
    ⦃fun s => ⌜c.At none s ∧ s.store.nextTargetMsgSeqNum = e⌝⦄ dispatch c.cfg c.env drain m
    ⦃post⟨fun _ s => ⌜c.At none s⌝, fun x s => ⌜c.Thrown m x s⌝⟩⦄ := by
  unfold dispatch
  split
  · rename_i hk
    have hadmin := nextAdmin_at hm hdrain ho hk
    mvcgen [hadmin]
  · rename_i hk
    exact nextApp_at hm (by simpa using hk)

theorem tryNext_at (hm : c.known m) (hdrain : c.Drains drain) (ho : c.fair → Orderly m e) :
    ⦃fun s => ⌜c.At none s ∧ s.store.nextTargetMsgSeqNum = e⌝⦄ tryNext c.cfg c.env drain m
    ⦃post⟨fun _ s => ⌜c.At none s⌝, fun x s => ⌜c.Thrown m x s⌝⟩⦄ := by
  have hversion : m.header.beginString ≠ c.cfg.sessionID.beginString → ¬c.fair :=
    fun h hf => h (c.incoming hf m hm).1
  have hvalid : ∀ fault, c.env.validate m = some fault → ¬c.fair := by
    intro fault h hf
    rw [(c.of_fair hf).validate] at h
    cases h
  have hfault : ∀ fault : Fault, fault.toFailure ≠ .logicError := by
    intro fault
    cases fault <;> simp [Fault.toFailure]
  have hdispatch := dispatch_at hm hdrain ho
  mvcgen [tryNext, hdispatch]
  all_goals grind [Thrown, Failed]

/-! ### Exceptions -/

theorem logex_at {x : SessionM β Unit} {P : Session β → Prop}
    (h : ⦃fun s => ⌜P s⌝⦄ x
      ⦃post⟨fun _ s => ⌜c.At none s⌝, fun x s => ⌜x = .runtimeError ∧ c.At none s⌝⟩⦄) :
    ⦃fun s => ⌜P s⌝⦄ logex x
    ⦃post⟨fun _ s => ⌜c.At none s⌝, fun x s => ⌜c.Failed x s⌝⟩⦄ := by
  mvcgen [logex, h]
  all_goals grind

theorem logex_generateBusinessReject {P : Session β → Prop} {err field : ℕ}
    (h : ⦃fun s => ⌜P s⌝⦄ generateBusinessReject c.cfg c.env m err field
      ⦃post⟨fun _ s => ⌜c.At none s⌝, fun _ _ => ⌜False⌝⟩⦄) :
    ⦃fun s => ⌜P s⌝⦄ logex (generateBusinessReject c.cfg c.env m err field)
    ⦃post⟨fun _ s => ⌜c.At none s⌝, fun x s => ⌜c.Failed x s⌝⟩⦄ := by
  mvcgen [logex, h]
  all_goals grind

/-- After an exception of the application its message is counted. -/
theorem handleFailure_pending (hk : m.kind.isAdminMsgType = false) (f : AppFailure) :
    ⦃fun s => ⌜c.At (some (m, e)) s⌝⦄ handleFailure c.cfg c.env m f.toFailure
    ⦃post⟨fun _ s => ⌜c.At none s⌝, fun x s => ⌜c.Failed x s⌝⟩⦄ := by
  have hreject : ∀ err field, _ := fun err field =>
    logex_at (generateReject_of (c := c) (countRejected_pending (e := e) hk) err field)
  have hbusiness : ∀ err field, _ := fun err field =>
    logex_generateBusinessReject (generateBusinessReject_pending (c := c) (e := e) hk err field)
  cases f with
  | fieldNotFound =>
      simp only [AppFailure.toFailure, handleFailure, hk]
      exact hbusiness _ _
  | incorrectDataFormat => exact hreject _ _
  | incorrectTagValue => exact hreject _ _
  | unsupportedMessageType => exact hbusiness _ _

theorem Thrown.failed {x : Failure} {s : Session β} (hk : m.kind.isAdminMsgType = true)
    (h : c.Thrown m x s) : c.Failed x s := by
  rcases h with ⟨hk', _⟩ | h
  · rw [hk] at hk'
    cases hk'
  · exact h

/-- Of a step that is not fair nothing more is said than that nothing stays pending. -/
theorem handleFailure_unfair (hf : ¬c.fair) (hm : c.known m) {x : Failure} (hx : x ≠ .logicError) :
    ⦃fun s => ⌜c.At none s⌝⦄ handleFailure c.cfg c.env m x
    ⦃post⟨fun _ s => ⌜c.At none s⌝, fun x s => ⌜c.Failed x s⌝⟩⦄ := by
  have hreject : ∀ err field, _ := fun err field =>
    logex_at (generateReject_at (c := c) (m := m) err field)
  have hbusiness : ∀ err field, _ := fun err field =>
    logex_generateBusinessReject (generateBusinessReject_at (c := c) (m := m) hf err field)
  cases x with
  | rejected reason field =>
      intro s hs
      exact hreject _ _ s ⟨hs, fun h => absurd h hf⟩
  | fieldNotFound field =>
      mvcgen [handleFailure, hreject, hbusiness]
      all_goals grind [idle_none]
  | unsupportedMessageType => exact hbusiness _ _
  | unsupportedVersion =>
      simp only [handleFailure]
      split
      · rename_i hk
        have hadmin : m.kind.isAdminMsgType = true := by rw [hk]; rfl
        have hlogout := ghost fun e => nextLogout_at (e := e) hm hadmin (by rw [hk]; rfl)
          fun h => absurd h hf
        mvcgen [hlogout]
        · exact id
        · exact fun h => Thrown.failed hadmin h
      · mvcgen [incr_lose]
        all_goals grind [idle_none]
  | rejectLogon text =>
      mvcgen [handleFailure]
      all_goals grind [idle_none]
  | logicError => exact absurd rfl hx
  | runtimeError =>
      intro s hs
      exact ⟨hs, by simp, fun _ => rfl⟩

theorem handleFailure_at (hm : c.known m) (x : Failure) :
    ⦃fun s => ⌜c.Thrown m x s⌝⦄ handleFailure c.cfg c.env m x
    ⦃post⟨fun _ s => ⌜c.At none s⌝, fun x s => ⌜c.Failed x s⌝⟩⦄ := by
  intro s hs
  rcases hs with ⟨hk, ⟨f, rfl⟩, e, h⟩ | ⟨h, hx, hfair⟩
  · exact handleFailure_pending hk f s h
  · by_cases hf : c.fair
    · obtain rfl := hfair hf
      exact ⟨h, hx, hfair⟩
    · exact handleFailure_unfair hf hm hx s h

/-! ### Steps -/

theorem nextTimer_at (clock : Clock) :
    ⦃fun s => ⌜c.At none s⌝⦄ nextTimer c.cfg c.env clock
    ⦃post⟨fun _ s => ⌜c.At none s⌝, fun _ _ => ⌜False⌝⟩⦄ := by
  have htime : c.env.sessionTime = false → ¬c.fair := by
    intro h hf
    rw [(c.of_fair hf).sessionTime] at h
    cases h
  mvcgen [nextTimer, setTestRequest_at]
  all_goals grind [idle_none, Kind.Regular, Kind.isSequenceReset]

theorem nextMessage_at (hm : c.known m) (hdrain : c.Drains drain) (queued : Bool) :
    ⦃fun s => ⌜c.At none s ∧ (c.fair → Orderly m s.store.nextTargetMsgSeqNum)⌝⦄
    nextMessage c.cfg c.env drain m queued
    ⦃post⟨fun _ s => ⌜c.At none s⌝, fun x s => ⌜c.Failed x s⌝⟩⦄ := by
  have htime : c.env.sessionTime = false → ¬c.fair := by
    intro h hf
    rw [(c.of_fair hf).sessionTime] at h
    cases h
  have htry : ⦃fun s => ⌜c.At none s ∧ (c.fair → Orderly m s.store.nextTargetMsgSeqNum)⌝⦄
      tryNext c.cfg c.env drain m
      ⦃post⟨fun _ s => ⌜c.At none s⌝, fun x s => ⌜c.Thrown m x s⌝⟩⦄ :=
    fun s hs => tryNext_at hm hdrain hs.2 s ⟨hs.1, rfl⟩
  have hfail := handleFailure_at hm
  unfold Drains at hdrain
  mvcgen [nextMessage, htry, hfail, hdrain, nextTimer_at]
  all_goals grind [idle_none]

/-- A queued Logon or ResendRequest is only counted. -/
theorem incr_queued (hm : c.known m) (hk : m.kind.isAdminMsgType = true)
    (hs : m.kind.isSequenceReset = false) :
    ⦃fun s => ⌜c.At none s ∧ m.header.msgSeqNum = s.store.nextTargetMsgSeqNum⌝⦄
    (incrNextTargetMsgSeqNum : SessionM β Unit)
    ⦃post⟨fun _ s => ⌜c.At none s⌝, fun _ _ => ⌜False⌝⟩⦄ := by
  intro s ⟨h, hn⟩
  exact incr_count (e := s.store.nextTargetMsgSeqNum) s
    ⟨h.move (.accept m hm hk), fun _ => ⟨hn, hs⟩⟩

/-- What is queued is known and has the number it is queued under. -/
theorem retrieve_at (k : ℤ) :
    ⦃fun s => ⌜c.At none s ∧ s.store.nextTargetMsgSeqNum = k⌝⦄ retrieve k
    ⦃post⟨fun r s => ⌜c.At none s ∧ ∀ m, r = some m → c.known m ∧
      m.header.msgSeqNum = s.store.nextTargetMsgSeqNum⌝, fun _ _ => ⌜False⌝⟩⦄ := by
  mvcgen [retrieve]
  rename_i s h _
  obtain ⟨h, rfl⟩ := h
  constructor
  · refine h.move (.control ⟨rfl, rfl, rfl, ?_, id⟩)
    intro k m hl
    by_cases hk : k = s.store.nextTargetMsgSeqNum
    · rw [hk, Finmap.lookup_erase] at hl
      cases hl
    · rwa [Finmap.lookup_erase_ne hk] at hl
  · intro m hl
    obtain ⟨h₁, h₂⟩ := h.sound.queued _ m hl
    exact ⟨h₂, h₁⟩

theorem nextQueued_at (fuel : ℕ) : c.Drains (nextQueued c.cfg c.env fuel) := by
  induction fuel with
  | zero =>
      unfold Drains
      mvcgen [nextQueued]
  | succ fuel ih =>
      have hmessage : ∀ m, c.known m → _ := fun m hm => nextMessage_at hm ih true
      unfold Drains at ih ⊢
      mvcgen [nextQueued, retrieve_at, hmessage, ih, incr_queued]
      all_goals grind [Session.getExpectedTargetNum, Kind.isAdminMsgType, Kind.isSequenceReset,
        orderly_of_eq]

theorem afterMessage_at :
    ⦃fun s => ⌜c.At none s⌝⦄ afterMessage c.cfg c.env m
    ⦃post⟨fun _ s => ⌜c.At none s⌝, fun x s => ⌜c.Failed x s⌝⟩⦄ := by
  have hqueued := nextQueued_at (c := c) c.env.fuel
  unfold Drains at hqueued
  mvcgen [afterMessage, hqueued, nextTimer_at]
  exact id

theorem receive_at (hm : c.known m) :
    ⦃fun s => ⌜c.At none s ∧ (c.fair → Orderly m s.store.nextTargetMsgSeqNum)⌝⦄
    receive c.cfg c.env m
    ⦃post⟨fun _ s => ⌜c.At none s⌝, fun x s => ⌜c.Failed x s⌝⟩⦄ := by
  have hmessage : ∀ fuel, _ := fun fuel => nextMessage_at hm (nextQueued_at fuel) false
  mvcgen [receive, hmessage]

theorem setResponder_at (responder : Bool) :
    ⦃fun s => ⌜c.At none s⌝⦄ setResponder c.cfg c.env responder
    ⦃post⟨fun _ s => ⌜c.At none s⌝, fun _ _ => ⌜False⌝⟩⦄ := by
  have htime : c.env.sessionTime = false → ¬c.fair := by
    intro h hf
    rw [(c.of_fair hf).sessionTime] at h
    cases h
  have hset : ∀ s, c.At none s → c.At none { s with connected := responder } :=
    fun s h => h.move (.control ⟨rfl, rfl, rfl, fun _ _ h => h, id⟩)
  mvcgen [setResponder]
  all_goals grind [idle_none]

theorem restart_at :
    ⦃fun s => ⌜c.At none s⌝⦄ restart c.cfg c.env
    ⦃post⟨fun _ s => ⌜c.At none s⌝, fun _ _ => ⌜False⌝⟩⦄ := by
  have htime : c.env.sessionTime = false → ¬c.fair := by
    intro h hf
    rw [(c.of_fair hf).sessionTime] at h
    cases h
  have hnew : ∀ s, c.At none s →
      c.At none { Session.new c.cfg s.store with wire := s.wire, journal := s.journal } :=
    fun s h => h.move (.control ⟨rfl, rfl, rfl, fun _ _ h => by simp [Session.new] at h, by
      simp [Session.new]⟩)
  mvcgen [restart]
  all_goals grind [idle_none]

/-! ### Events -/

/-- What a course asks of an event: the environment answers as it does in the course, and what
is received is known and in order. -/
def Within (c : Course β) (s : Session β) (e : Event β) : Prop :=
  e.env = c.env ∧
    ∀ env m, e = .receive env m → c.known m ∧ (c.fair → Orderly m s.store.nextTargetMsgSeqNum)

theorem handle_at {s : Session β} {e : Event β} (he : c.Within s e) :
    ⦃fun s' => ⌜c.At none s' ∧ s' = s⌝⦄ handle c.cfg e
    ⦃post⟨fun _ s => ⌜c.At none s⌝, fun x s => ⌜c.Failed x s⌝⟩⦄ := by
  have hflag : ∀ (b : Bool) (text : Str) (s : Session β), c.At none s →
      c.At none { s with enabled := b, logoutReason := text } :=
    fun b text s h => h.move (.control ⟨rfl, rfl, rfl, fun _ _ h => h, id⟩)
  cases e with
  | setResponder env responder =>
      obtain rfl : env = c.env := he.1
      mvcgen [handle, setResponder_at]
      all_goals grind
  | disconnect =>
      have hdisconnect := disconnect_at (c := c) idle_none
      mvcgen [handle, hdisconnect, -disconnect_at]
      all_goals grind
  | next env clock =>
      obtain rfl : env = c.env := he.1
      mvcgen [handle, nextTimer_at]
      all_goals grind
  | receive env message =>
      obtain ⟨hm, ho⟩ := he.2 env message rfl
      obtain rfl : env = c.env := he.1
      have hreceive := receive_at hm
      mvcgen [handle, hreceive]
      all_goals grind
  | send env body =>
      obtain rfl : env = c.env := he.1
      have hsend := sendRaw_at (c := c) (p := none) (.app body) (fun _ => idle_none)
        fun _ => ⟨trivial, rfl⟩
      mvcgen [handle, send, hsend, -sendRaw_at]
      all_goals grind
  | logon =>
      mvcgen [handle]
      all_goals grind
  | logout reason =>
      mvcgen [handle]
      all_goals grind
  | restart env =>
      obtain rfl : env = c.env := he.1
      mvcgen [handle, restart_at]
      all_goals grind

/-- What a specification says of the session at the end of a run. -/
theorem run_of_triple {α : Type} {x : SessionM β α} {P Q : Session β → Prop}
    {E : Failure → Session β → Prop}
    (h : ⦃fun s => ⌜P s⌝⦄ x ⦃post⟨fun _ s => ⌜Q s⌝, fun e s => ⌜E e s⌝⟩⦄) {s : Session β}
    (hs : P s) :
    match x.run.run s with
    | (.ok _, s') => Q s'
    | (.error e, s') => E e s' := by
  refine StateM.of_wp_run_eq (rfl : StateT.run x.run s = _) (fun r => match r with
    | (.ok _, s') => Q s'
    | (.error e, s') => E e s') ?_
  have h := h s hs
  intro _
  simp only [wp, PredTrans.apply, PredTrans.pushExcept, PredTrans.pushArg, pure,
    PredTrans.pure, StateT.run] at h ⊢
  generalize (ExceptT.run x s).run = r at h ⊢
  obtain ⟨r, s'⟩ := r
  cases r <;> exact h

/-- An event is a sequence of moves, whether its exceptions are caught or not. -/
theorem act_at {s : Session β} (h : c.At none s) {e : Event β} (he : c.Within s e) :
    c.At none (act c.cfg s e) := by
  have hrun := run_of_triple (handle_at he) ⟨h, rfl⟩
  unfold act
  split at hrun
  · rename_i hr
    rwa [hr]
  · rename_i hr
    rw [hr]
    exact hrun.1

end Course

end ForexSuite.FixSession
