import ForexSuite.Exceptions
import ForexSuite.PriceServer
import Mathlib.Data.List.Forall2

/-!
# Logon authentication

`fromAdmin` compares the credentials of a Logon with those configured for
`appSessionID`, the session created last, by `boost::iequals`. For a Logon that
arrives on that session the outcome is therefore agreement with its own
credentials up to the case of letters.
-/
namespace ForexSuite.SessionLogon

open Exceptions PriceServer

abbrev FieldMap := Finmap (fun _ : ℕ => Str)

structure Message where
  header : FieldMap
  body : FieldMap

inductive AdminException where
  | fieldNotFound (tag : ℕ)
  | configError (text : Str)
  | rejectLogon (text : Str)
deriving Repr, DecidableEq

def getField (fields : FieldMap) (tag : ℕ) : Except AdminException Str :=
  match fields.lookup tag with
  | some value => .ok value
  | none => .error (.fieldNotFound tag)

/-- `toupper` of the C locale, in which the server runs. -/
def toupper (c : UInt8) : UInt8 := if 97 ≤ c ∧ c ≤ 122 then c - 32 else c

/-- `FIX::Dictionary`. Its keys are stored in capitals. -/
structure Dictionary where
  data : Finmap (fun _ : Str => Str)

namespace Dictionary

def has (d : Dictionary) (key : Str) : Bool := (d.data.lookup (key.map toupper)).isSome

def getString (d : Dictionary) (key : Str) : Except AdminException Str :=
  match d.data.lookup (key.map toupper) with
  | some value => .ok value
  | none => .error (.configError (key ++ ascii " not defined"))

end Dictionary

abbrev SessionSettings := Finmap (fun _ : SessionID => Dictionary)

def SessionSettings.get (sett : SessionSettings) (sessionID : SessionID) :
    Except AdminException Dictionary :=
  match sett.lookup sessionID with
  | some d => .ok d
  | none => .error (.configError (ascii "Session not found"))

/-- `boost::iequals`: two bytes agree when their capitals do. -/
def iequals : Str → Str → Bool
  | [], [] => true
  | a :: as, b :: bs => if toupper a = toupper b then iequals as bs else false
  | _, _ => false

/-- A setting that is left out counts as the empty string. -/
def configured (d : Dictionary) (key : Str) : Except AdminException Str :=
  if d.has key then d.getString key else .ok []

def loginFailed : Str := ascii "Login failed! login creadential do not match with our records."

/-- `fromAdmin`. Cracking an administrative message reads its BeginString and does nothing;
the session the message arrives on is not used. -/
def fromAdmin (sett : SessionSettings) (app : Application) (message : Message) :
    Except AdminException Unit := do
  let _ ← getField message.header 8
  let msgType ← getField message.header 35
  if msgType = ascii "A" then
    let username ← getField message.body 553
    let password ← getField message.body 554
    let _ ← getField message.header 49
    let d ← SessionSettings.get sett app.appSessionID
    let _username ← configured d (ascii "Username")
    let _password ← configured d (ascii "Password")
    if iequals username _username ∧ iequals password _password then pure ()
    else throw (.rejectLogon loginFailed)

/-- The message is a Logon that the engine hands to the session: the header names its two
sides, the counterparty as the sender. -/
structure LogonOn (s : SessionID) (message : Message) : Prop where
  beginString : message.header.lookup 8 = some s.beginString
  msgType : message.header.lookup 35 = some (ascii "A")
  senderCompID : message.header.lookup 49 = some s.targetCompID
  targetCompID : message.header.lookup 56 = some s.senderCompID

def Configured (sett : SessionSettings) (s : SessionID) (username password : Str) : Prop :=
  ∃ d, sett.lookup s = some d ∧ d.data.lookup (ascii "USERNAME") = some username ∧
    d.data.lookup (ascii "PASSWORD") = some password

def SameLetter (a b : UInt8) : Prop :=
  a = b ∨ (97 ≤ a ∧ a ≤ 122 ∧ b = a - 32) ∨ (97 ≤ b ∧ b ≤ 122 ∧ a = b - 32)

theorem toupper_eq_iff (a b : UInt8) : toupper a = toupper b ↔ SameLetter a b := by
  have hsub (c : UInt8) (h : 97 ≤ c.toNat) : (c - 32).toNat = c.toNat - 32 :=
    UInt8.toNat_sub_of_le c 32 (UInt8.le_iff_toNat_le.mpr (by
      show 32 ≤ c.toNat
      omega))
  have h97 : (97 : UInt8).toNat = 97 := rfl
  have h122 : (122 : UInt8).toNat = 122 := rfl
  unfold toupper SameLetter
  simp only [UInt8.le_iff_toNat_le, ← UInt8.toNat_inj, h97, h122]
  split_ifs with ha hb hb
  · rw [hsub a ha.1, hsub b hb.1]
    omega
  · rw [hsub a ha.1]
    omega
  · rw [hsub b hb.1]
    omega
  · omega

theorem iequals_iff (a b : Str) : iequals a b = true ↔ List.Forall₂ SameLetter a b := by
  induction a generalizing b with
  | nil => cases b <;> simp [iequals]
  | cons c a ih =>
      cases b with
      | nil => simp [iequals]
      | cons d b => simp [iequals, toupper_eq_iff, ih]

theorem getField_eq_ok {fields : FieldMap} {tag : ℕ} {value : Str}
    (h : fields.lookup tag = some value) : getField fields tag = .ok value := by
  rw [getField, h]

theorem configured_eq_ok {d : Dictionary} {key value : Str}
    (h : d.data.lookup (key.map toupper) = some value) : configured d key = .ok value := by
  simp [configured, Dictionary.has, Dictionary.getString, h]

/-- What is left of `fromAdmin` for a Logon that arrives on the session created last. -/
theorem fromAdmin_of_logonOn {sett : SessionSettings} {sessions : List SessionID}
    {last : SessionID} {username password : Str} (h : Configured sett last username password)
    {message : Message} (hm : LogonOn last message) :
    fromAdmin sett (withSessions (sessions ++ [last])) message = (do
      let u ← getField message.body 553
      let p ← getField message.body 554
      if iequals u username ∧ iequals p password then pure ()
      else throw (.rejectLogon loginFailed)) := by
  obtain ⟨d, hd, hu, hp⟩ := h
  have hget : SessionSettings.get sett last = .ok d := by rw [SessionSettings.get, hd]
  have hu : configured d (ascii "Username") = .ok username := configured_eq_ok hu
  have hp : configured d (ascii "Password") = .ok password := configured_eq_ok hp
  simp only [fromAdmin, getField_eq_ok hm.beginString, getField_eq_ok hm.msgType,
    getField_eq_ok hm.senderCompID, withSessions_appSessionID, hget, hu, hp, ok_bind, if_true]

/-- For every set of sessions with credentials, created in any order, a Logon on the session
created last is let through exactly when it carries a Username and a Password equal to
those of the session up to the case of letters. -/
theorem fromAdmin_ok_iff (sett : SessionSettings) (sessions : List SessionID) (last : SessionID)
    (username password : Str) (h : Configured sett last username password)
    (message : Message) (hm : LogonOn last message) :
    fromAdmin sett (withSessions (sessions ++ [last])) message = .ok () ↔
      ∃ u p, message.body.lookup 553 = some u ∧ message.body.lookup 554 = some p ∧
        List.Forall₂ SameLetter u username ∧ List.Forall₂ SameLetter p password := by
  rw [fromAdmin_of_logonOn h hm]
  rcases hu : message.body.lookup 553 with _ | u
  · simp [getField, hu]
  rcases hp : message.body.lookup 554 with _ | p
  · simp [getField, hu, hp]
  · rw [getField_eq_ok hu, getField_eq_ok hp]
    simp only [Option.some.injEq, exists_and_left, exists_eq_left', ← iequals_iff]
    by_cases hc : iequals u username = true ∧ iequals p password = true
    · simp [hc]
    · simp [hc]

def oneSession (s : SessionID) (username password : Str) : SessionSettings :=
  Finmap.singleton s
    ⟨(Finmap.singleton (ascii "PASSWORD") password).insert (ascii "USERNAME") username⟩

def logonOn (s : SessionID) (username password : Str) : Message where
  header := (((Finmap.singleton 8 s.beginString).insert 35 (ascii "A")).insert 49
    s.targetCompID).insert 56 s.senderCompID
  body := (Finmap.singleton 553 username).insert 554 password

theorem fromAdmin_ok_iff_login :
    let s : SessionID := ⟨ascii "FIX.4.4", ascii "SRV", ascii "CLIENT", []⟩
    fromAdmin (oneSession s (ascii "user") (ascii "secret")) (withSessions [s])
        (logonOn s (ascii "user") (ascii "secret")) = .ok () := by
  intro s
  refine (fromAdmin_ok_iff (oneSession s (ascii "user") (ascii "secret")) [] s (ascii "user")
    (ascii "secret") ⟨_, rfl, rfl, rfl⟩ _ ⟨rfl, rfl, rfl, rfl⟩).mpr ⟨_, _, rfl, rfl, ?_, ?_⟩
  all_goals exact List.forall₂_same.mpr fun _ _ => Or.inl rfl

/-- Credentials that differ in the case of a letter are accepted, too. -/
theorem fromAdmin_ignores_case :
    let s : SessionID := ⟨ascii "FIX.4.4", ascii "SRV", ascii "CLIENT", []⟩
    fromAdmin (oneSession s (ascii "user") (ascii "secret")) (withSessions [s])
        (logonOn s (ascii "user") (ascii "SECRET")) = .ok () ∧
      ascii "SECRET" ≠ ascii "secret" := by
  intro s
  exact ⟨rfl, by decide⟩

end ForexSuite.SessionLogon
