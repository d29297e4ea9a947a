import Mathlib
import ForexSuite.FixMoves

/-!
# Sending in moves

The functions of a session that change its state without taking a message up: the setters,
`disconnect` and everything that sends. Whatever is pending stays pending.
-/
namespace ForexSuite.FixSession
open Std.Do PriceServer

set_option mvcgen.warning false

namespace Course

variable {β : Type} {c : Course β} {p : Option (Message β × ℤ)}

/-! ### Setters -/

theorem modify_at (f : Session β → Session β)
    (hf : ∀ s, Move c.cfg c.known c.fair (s, p) (f s, p)) :
    ⦃fun s => ⌜c.At p s⌝⦄ (modify f : SessionM β Unit)
    ⦃post⟨fun _ s => ⌜c.At p s⌝, fun _ _ => ⌜False⌝⟩⦄ := by
  mvcgen
  rename_i h _
  exact h.move (hf _)

/-- A setter of what no number depends on. -/
theorem set_at (f : Session β → Session β) (hf : ∀ s, SameData s (f s)) :
    ⦃fun s => ⌜c.At p s⌝⦄ (modify f : SessionM β Unit)
    ⦃post⟨fun _ s => ⌜c.At p s⌝, fun _ _ => ⌜False⌝⟩⦄ :=
  modify_at f fun s => .control (hf s)

theorem record_at (e : Entry β) (h : e.isNote = true) :
    ⦃fun s => ⌜c.At p s⌝⦄ record e ⦃post⟨fun _ s => ⌜c.At p s⌝, fun _ _ => ⌜False⌝⟩⦄ :=
  modify_at _ fun _ => .note e h

theorem setReceivedLogon_at (b : Bool) :
    ⦃fun s => ⌜c.At p s⌝⦄ setReceivedLogon b
    ⦃post⟨fun _ s => ⌜c.At p s⌝, fun _ _ => ⌜False⌝⟩⦄ :=
  set_at _ fun _ => ⟨rfl, rfl, rfl, fun _ _ h => h, id⟩

theorem setSentLogout_at (b : Bool) :
    ⦃fun s => ⌜c.At p s⌝⦄ setSentLogout b
    ⦃post⟨fun _ s => ⌜c.At p s⌝, fun _ _ => ⌜False⌝⟩⦄ :=
  set_at _ fun _ => ⟨rfl, rfl, rfl, fun _ _ h => h, id⟩

theorem setSentLogon_at (b : Bool) :
    ⦃fun s => ⌜c.At p s⌝⦄ setSentLogon b
    ⦃post⟨fun _ s => ⌜c.At p s⌝, fun _ _ => ⌜False⌝⟩⦄ :=
  set_at _ fun _ => ⟨rfl, rfl, rfl, fun _ _ h => h, id⟩

theorem setSentReset_at (b : Bool) :
    ⦃fun s => ⌜c.At p s⌝⦄ setSentReset b
    ⦃post⟨fun _ s => ⌜c.At p s⌝, fun _ _ => ⌜False⌝⟩⦄ :=
  set_at _ fun _ => ⟨rfl, rfl, rfl, fun _ _ h => h, id⟩

theorem setReceivedReset_at (b : Bool) (h : c.fair → b = false) :
    ⦃fun s => ⌜c.At p s⌝⦄ setReceivedReset b
    ⦃post⟨fun _ s => ⌜c.At p s⌝, fun _ _ => ⌜False⌝⟩⦄ :=
  modify_at _ fun _ => .receivedReset b h

theorem setTestRequest_at (n : ℕ) :
    ⦃fun s => ⌜c.At p s⌝⦄ setTestRequest n
    ⦃post⟨fun _ s => ⌜c.At p s⌝, fun _ _ => ⌜False⌝⟩⦄ :=
  set_at _ fun _ => ⟨rfl, rfl, rfl, fun _ _ h => h, id⟩

theorem setHeartBtInt_at (n : ℤ) :
    ⦃fun s => ⌜c.At p s⌝⦄ setHeartBtInt n
    ⦃post⟨fun _ s => ⌜c.At p s⌝, fun _ _ => ⌜False⌝⟩⦄ :=
  set_at _ fun _ => ⟨rfl, rfl, rfl, fun _ _ h => h, id⟩

theorem setResendRange_at (first second : ℤ) :
    ⦃fun s => ⌜c.At p s⌝⦄ setResendRange first second
    ⦃post⟨fun _ s => ⌜c.At p s⌝, fun _ _ => ⌜False⌝⟩⦄ :=
  set_at _ fun _ => ⟨rfl, rfl, rfl, fun _ _ h => h, id⟩

theorem hangUp_at :
    ⦃fun s => ⌜c.At p s⌝⦄ hangUp ⦃post⟨fun _ s => ⌜c.At p s⌝, fun _ _ => ⌜False⌝⟩⦄ :=
  set_at _ fun _ => ⟨rfl, rfl, rfl, fun _ _ h => h, id⟩

theorem clearQueue_at :
    ⦃fun s => ⌜c.At p s⌝⦄ clearQueue ⦃post⟨fun _ s => ⌜c.At p s⌝, fun _ _ => ⌜False⌝⟩⦄ :=
  set_at _ fun _ => ⟨rfl, rfl, rfl, fun _ _ h => by simp at h, id⟩

theorem queue_at (m : Message β) (h : c.known m) :
    ⦃fun s => ⌜c.At p s⌝⦄ queue m.header.msgSeqNum m
    ⦃post⟨fun _ s => ⌜c.At p s⌝, fun _ _ => ⌜False⌝⟩⦄ :=
  modify_at _ fun _ => .enqueue m h

theorem resetStore_at (h : ¬c.fair) (hp : Idle p) :
    ⦃fun s => ⌜c.At p s⌝⦄ resetStore ⦃post⟨fun _ s => ⌜c.At p s⌝, fun _ _ => ⌜False⌝⟩⦄ :=
  modify_at _ fun _ => .reset h hp

/-- What is written must be something that the session may send. -/
theorem sendString_at (m : Message β) :
    ⦃fun s => ⌜c.At p s ∧ (c.fair → Outgoing c.cfg s.store m)⌝⦄ sendString m
    ⦃post⟨fun _ s => ⌜c.At p s⌝, fun _ _ => ⌜False⌝⟩⦄ := by
  mvcgen [sendString]
  rename_i h _
  exact h.1.move (.write [m] (by simpa using h.2))

/-! ### Messages that are kept -/

theorem addressed_fill (cfg : Settings) (env : Answers β) (s : Session β) (kind : Kind β) :
    Addressed cfg (fill cfg env s kind) :=
  ⟨rfl, rfl, rfl⟩

theorem persist_at (m : Message β) :
    ⦃fun s => ⌜c.At p s ∧ m.header.msgSeqNum = s.store.nextSenderMsgSeqNum ∧
      (c.fair → Keepable c.cfg m)⌝⦄ persist c.cfg m
    ⦃post⟨fun _ s => ⌜c.At p s ∧ (c.fair → Outgoing c.cfg s.store m)⌝, fun _ _ => ⌜False⌝⟩⦄ := by
  mvcgen [persist]
  rename_i s h t
  obtain ⟨h, hn, hk⟩ := h
  constructor
  · exact h.move (.keep m hn hk)
  · intro hf
    refine ⟨(hk hf).1, Or.inl ⟨m, ?_, rfl⟩⟩
    change Finmap.lookup _ (if c.cfg.persistMessages then _ else _) = _
    rw [if_pos (c.of_fair hf).persistMessages]
    exact Finmap.lookup_insert _

theorem isSequenceReset_toAdmin (cfg : Settings) (kind : Kind β) :
    (toAdmin cfg kind).isSequenceReset = kind.isSequenceReset := by
  cases kind <;> rfl

theorem regular_toAdmin {cfg : Settings} (h : cfg.toAdminResets = false) {kind : Kind β}
    (hk : kind.Regular) : (toAdmin cfg kind).Regular := by
  cases kind with
  | logon => simpa [toAdmin, Kind.Regular, h] using hk
  | _ => exact hk

/-- A Logon that resets the numbers gets the first one. -/
theorem sendLogonReset_at (m : Message β) (hp : Idle p) (hk : c.fair → m.kind.Regular)
    (ha : Addressed c.cfg m) :
    ⦃fun s => ⌜c.At p s ∧ m.header.msgSeqNum = s.store.nextSenderMsgSeqNum⌝⦄ sendLogonReset m
    ⦃post⟨fun r s => ⌜c.At p s ∧ r.header.msgSeqNum = s.store.nextSenderMsgSeqNum ∧
      r.kind = m.kind ∧ Addressed c.cfg r⌝, fun _ _ => ⌜False⌝⟩⦄ := by
  mvcgen [sendLogonReset, setSentReset, resetStore]
  · rename_i h _
    exact ⟨h.1, h.2, trivial, ha⟩
  · rename_i _ flag _ _ hm s h _ _ hflag _
    have hreset : ¬c.fair := by
      intro hf
      have := hk hf
      rw [hm] at this
      exact absurd hflag (by simp [show _ = false from this])
    have h' : c.At p { s with sentReset := flag } :=
      h.1.move (.control ⟨rfl, rfl, rfl, fun _ _ h => h, id⟩)
    exact ⟨h'.move (.reset hreset hp), rfl, trivial, ha⟩
  · rename_i h _ _ _
    exact ⟨h.1.move (.control ⟨rfl, rfl, rfl, fun _ _ h => h, id⟩), h.2, trivial, ha⟩
  · rename_i h
    exact ⟨h.1, h.2, trivial, ha⟩

attribute [local spec] record_at setReceivedLogon_at setSentLogout_at setSentLogon_at
  setSentReset_at setReceivedReset_at setTestRequest_at setHeartBtInt_at setResendRange_at
  hangUp_at clearQueue_at queue_at resetStore_at sendString_at persist_at sendLogonReset_at

theorem unfair {b : Bool} (h : c.fair → b = false) (hb : b = true) : ¬c.fair := by
  intro hf
  rw [h hf] at hb
  cases hb

theorem disconnect_at (hp : Idle p) :
    ⦃fun s => ⌜c.At p s⌝⦄ disconnect c.cfg
    ⦃post⟨fun _ s => ⌜c.At p s⌝, fun _ _ => ⌜False⌝⟩⦄ := by
  have hreset := unfair fun hf => (c.of_fair hf).resetOnDisconnect
  mvcgen [disconnect]
  all_goals first
    | exact fun _ => trivial
    | exact hreset ‹_›

/-! ### Sending -/

theorem sendRaw_at (kind : Kind β) (hp : kind.isAdminMsgType = true → Idle p)
    (hk : c.fair → kind.Regular ∧ kind.isSequenceReset = false) :
    ⦃fun s => ⌜c.At p s⌝⦄ sendRaw c.cfg c.env kind
    ⦃post⟨fun _ s => ⌜c.At p s⌝, fun _ _ => ⌜False⌝⟩⦄ := by
  have hfill : c.fair → (toAdmin c.cfg kind).Regular := fun hf =>
    regular_toAdmin (c.of_fair hf).toAdminResets (hk hf).1
  mvcgen [sendRaw]
  case vc3 h => exact hp h
  case vc8 m _ h =>
    obtain ⟨h, hn, hkind, ha⟩ := h
    refine ⟨h, hn, fun hf => ⟨ha, ?_⟩⟩
    rw [hkind]
    exact ⟨hfill hf, (isSequenceReset_toAdmin _ _).trans (hk hf).2⟩
  case vc10 h _ _ => exact h.1
  case vc14 h _ _ _ _ => exact ⟨h, rfl, fun hf => ⟨addressed_fill _ _ _ _, hk hf⟩⟩
  case vc16 h => exact h.1

attribute [local spec] disconnect_at sendRaw_at

theorem generateLogon_at (hp : Idle p) :
    ⦃fun s => ⌜c.At p s⌝⦄ generateLogon c.cfg c.env
    ⦃post⟨fun _ s => ⌜c.At p s⌝, fun _ _ => ⌜False⌝⟩⦄ := by
  have hreset := unfair fun hf => (c.of_fair hf).resetOnLogon
  have hsend : ∀ s : Session β, c.fair → s.shouldSendReset c.cfg = false := by
    intro s hf
    have h := c.of_fair hf
    simp [Session.shouldSendReset, h.resetOnLogon, h.resetOnLogout, h.resetOnDisconnect]
  mvcgen [generateLogon]
  all_goals first
    | exact hreset ‹_›
    | exact fun _ => hp
    | exact fun hf => ⟨hsend _ hf, rfl⟩

theorem generateLogonResponse_at (heartBtInt : ℤ) (hp : Idle p) :
    ⦃fun s => ⌜c.At p s⌝⦄ generateLogonResponse c.cfg c.env heartBtInt
    ⦃post⟨fun _ s => ⌜c.At p s⌝, fun _ _ => ⌜False⌝⟩⦄ := by
  mvcgen [generateLogonResponse]
  · exact fun _ => hp
  · rename_i h
    exact fun hf => ⟨h.sound.receivedReset hf, rfl⟩

theorem generateLogout_at (text : Str) (hp : Idle p) :
    ⦃fun s => ⌜c.At p s⌝⦄ generateLogout c.cfg c.env text
    ⦃post⟨fun _ s => ⌜c.At p s⌝, fun _ _ => ⌜False⌝⟩⦄ := by
  mvcgen [generateLogout]
  · exact fun _ => hp
  · exact fun _ => ⟨trivial, rfl⟩

theorem generateResendRequest_at (msgSeqNum : ℤ) (hp : Idle p) :
    ⦃fun s => ⌜c.At p s⌝⦄ generateResendRequest c.cfg c.env msgSeqNum
    ⦃post⟨fun _ s => ⌜c.At p s⌝, fun _ _ => ⌜False⌝⟩⦄ := by
  mvcgen [generateResendRequest]
  · exact fun _ => hp
  · rename_i h _
    exact fun hf => ⟨h.sound.target hf, rfl⟩

theorem sendAll_at (bodies : List β) :
    ⦃fun s => ⌜c.At p s⌝⦄ sendAll c.cfg c.env bodies
    ⦃post⟨fun _ s => ⌜c.At p s⌝, fun _ _ => ⌜False⌝⟩⦄ := by
  induction bodies with
  | nil => mvcgen [sendAll]
  | cons body bodies ih =>
      mvcgen [sendAll, send, ih]
      · intro h
        cases h
      · exact fun _ => ⟨trivial, rfl⟩

theorem reset_at (h : ¬c.fair) (hp : Idle p) :
    ⦃fun s => ⌜c.At p s⌝⦄ reset c.cfg c.env
    ⦃post⟨fun _ s => ⌜c.At p s⌝, fun _ _ => ⌜False⌝⟩⦄ := by
  mvcgen [reset, generateLogout_at]
  · exact fun _ _ => h
  · exact fun _ _ => hp

/-! ### Resending -/

/-- The filling of a gap. With the number zero it is a new message. -/
theorem generateSequenceReset_at (beginSeqNo endSeqNo : ℤ) (hb : c.fair → 1 ≤ beginSeqNo) :
    ⦃fun s => ⌜c.At p s ∧ (c.fair → Gap s.store beginSeqNo endSeqNo)⌝⦄
    generateSequenceReset c.cfg c.env beginSeqNo endSeqNo
    ⦃post⟨fun _ s => ⌜c.At p s⌝, fun _ _ => ⌜False⌝⟩⦄ := by
  mvcgen [generateSequenceReset]
  · rename_i h _ _ _
    exact ⟨h.1, fun hf => ⟨⟨rfl, rfl, rfl⟩, Or.inr ⟨endSeqNo, rfl, h.2 hf⟩⟩⟩
  · rename_i h _ _ h0
    refine ⟨h.1, rfl, fun hf => absurd (hb hf) ?_⟩
    omega

theorem outgoing_of_covers {cfg : Settings} {env : Answers β} {store : MessageStore β}
    (hf : Fair cfg env) (hs : store.Kept)
    (hk : ∀ k m, store.messages.lookup k = some m → Keepable cfg m) {k n : ℤ}
    {out : List (Message β)} (h : Covers cfg env store k n out)
    (hn : n ≤ store.nextSenderMsgSeqNum) : ∀ m ∈ out, Outgoing cfg store m := by
  induction h with
  | nil => simp
  | @again k n m out hl hm rest ih =>
      simp only [List.mem_cons, forall_eq_or_imp]
      refine ⟨⟨(hk k m hl).1, Or.inl ⟨m, ?_, rfl⟩⟩, ih hn⟩
      have hseq : (resent env m).header.msgSeqNum = k := (hs.lookup k m hl).1
      rw [hseq, hl]
  | @fill k j n out hlt hgap rest ih =>
      simp only [List.mem_cons, forall_eq_or_imp]
      refine ⟨⟨⟨rfl, rfl, rfl⟩, Or.inr ⟨j, rfl, by have := rest.le; omega, ?_⟩⟩, ih hn⟩
      intro i m h₁ h₂ hl
      rcases hgap i m h₁ h₂ hl with hadmin | hto
      · exact hadmin
      · rw [hf.toApp _ rfl] at hto
        cases hto

/-- The whole answer to a request may be sent. -/
theorem outgoing_answer {s : Session β} (h : c.At p s) (hf : c.fair) {beginSeqNo : ℤ}
    (hb : 1 ≤ beginSeqNo) (endSeqNo : ℤ) :
    ∀ m ∈ answer c.cfg c.env s.store beginSeqNo endSeqNo, Outgoing c.cfg s.store m := by
  have hlast := s.store.lastRequested_lt endSeqNo
  have hp := (c.of_fair hf).persistMessages
  have hs := h.sound.kept hp
  by_cases hle : beginSeqNo ≤ s.store.lastRequested endSeqNo
  · exact outgoing_of_covers (c.of_fair hf) hs (h.sound.keepable hf)
      (answer_covers hs hp hb hle) hlast
  · intro m hm
    rw [eq_gapFill_of_mem_answer (by omega) hm]
    refine ⟨⟨rfl, rfl, rfl⟩, Or.inr ⟨_, rfl, hlast, ?_⟩⟩
    intro k m' h₁ h₂
    change beginSeqNo ≤ k at h₁
    omega

theorem resendLoop_at (h : ¬c.fair) (messages : List (Message β)) (r : Resending) :
    ⦃fun s => ⌜c.At p s⌝⦄ resendLoop c.cfg c.env messages r
    ⦃post⟨fun _ s => ⌜c.At p s⌝, fun _ _ => ⌜False⌝⟩⦄ := by
  rw [resendLoop_eq_modifyGet]
  mvcgen
  rename_i hs _
  exact hs.move (.write _ fun hf => absurd hf h)

theorem resendMessages_at (beginSeqNo endSeqNo : ℤ) (hb : c.fair → 1 ≤ beginSeqNo) :
    ⦃fun s => ⌜c.At p s⌝⦄ resendMessages c.cfg c.env beginSeqNo endSeqNo
    ⦃post⟨fun _ s => ⌜c.At p s⌝, fun _ _ => ⌜False⌝⟩⦄ := by
  by_cases hf : c.fair
  · have hb := hb hf
    rw [resendMessages_eq (by omega)]
    mvcgen
    rename_i h _
    exact h.move (.write _ fun _ => outgoing_answer h hf hb endSeqNo)
  · mvcgen [resendMessages, resendLoop_at, generateSequenceReset_at]
    all_goals first
      | exact fun hf' => absurd hf' hf
      | exact ⟨‹_›, fun hf' => absurd hf' hf⟩

end Course

end ForexSuite.FixSession
