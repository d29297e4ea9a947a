import ForexSuite.ActionQueue

/-!
# The session ids of the balance plugin

A connection gets its id when `process_messages` comes to its SUBSCRIBE, which may
be long after it has been opened. The queue is a queue, so the ids are given out in
the order of the opens all the same: the connections that have been served are the
first of those that have been opened, and the rest have their SUBSCRIBE queued.
-/
namespace ForexSuite.SessionIds

open EventMachine ActionQueue

variable {η : Type*}

/-- The handles that are opened, in this order. -/
def opens (events : List (Event η)) : List η :=
  events.filterMap fun e =>
    match e with
    | .onOpen hdl => some hdl
    | _ => none

/-- The handles of the SUBSCRIBEs among the actions. -/
def subscribed (actions : List (Action η)) : List η :=
  actions.filterMap fun a =>
    match a with
    | .SUBSCRIBE hdl => some hdl
    | _ => none

theorem opens_append (events : List (Event η)) (e : Event η) :
    opens (events ++ [e]) = opens events ++ opens [e] :=
  List.filterMap_append

theorem subscribed_append (actions : List (Action η)) (a : Action η) :
    subscribed (actions ++ [a]) = subscribed actions ++ subscribed [a] :=
  List.filterMap_append

theorem subscribed_cons (a : Action η) (actions : List (Action η)) :
    subscribed (a :: actions) = subscribed [a] ++ subscribed actions := by
  cases a <;> rfl

theorem getElem?_append_of_some {hdls : List η} {k : ℕ} {hdl : η} (h : hdls[k]? = some hdl)
    (more : List η) : (hdls ++ more)[k]? = some hdl := by
  rw [List.getElem?_append_left (List.getElem?_eq_some_iff.mp h).1, h]

variable [DecidableEq η]

/-- The handles served so far have been given the ids from 1 on, and each connection of the table
has the id of its handle. -/
structure HasIds (served : List η) (s : WebSocketServer η) : Prop where
  next : s.nextSessionid = Int32.ofNat (served.length + 1)
  ids : ∀ hdl data, s.connections.lookup hdl = some data →
    ∃ k, served[k]? = some hdl ∧ data.sessionid = Int32.ofNat (k + 1)

/-- What has been opened has been served, or is queued behind what has. -/
def Numbered (opened : List η) (s : WebSocketServer η) : Prop :=
  ∃ served, opened = served ++ subscribed s.actions ∧ HasIds served s

variable {s : WebSocketServer η} {opened served : List η}

theorem HasIds.subscribe (h : HasIds served s) (hdl : η) :
    HasIds (served ++ [hdl])
      { s with
        connections := s.connections.insert hdl ⟨s.nextSessionid, []⟩
        nextSessionid := s.nextSessionid + 1 } := by
  constructor
  · rw [h.next, List.length_append]
    exact (Int32.ofNat_add _ 1).symm
  · intro hdl' data hdata
    by_cases hhdl : hdl' = hdl
    · subst hhdl
      rw [Finmap.lookup_insert, Option.some.injEq] at hdata
      subst hdata
      exact ⟨served.length, List.getElem?_concat_length, h.next⟩
    · rw [Finmap.lookup_insert_of_ne _ hhdl] at hdata
      obtain ⟨k, hk, hid⟩ := h.ids hdl' data hdata
      exact ⟨k, getElem?_append_of_some hk _, hid⟩

theorem HasIds.erase (h : HasIds served s) (hdl : η) :
    HasIds served { s with connections := s.connections.erase hdl } := by
  refine ⟨h.next, fun hdl' data hdata => h.ids hdl' data ?_⟩
  by_cases hhdl : hdl' = hdl
  · rw [hhdl, Finmap.lookup_erase] at hdata
    cases hdata
  · rwa [Finmap.lookup_erase_ne hhdl] at hdata

/-- A SUBSCRIBE gives its handle the next id; no other action gives one. -/
theorem HasIds.processAction (h : HasIds served s) (a : Action η) :
    HasIds (served ++ subscribed [a]) (s.processAction a).1 := by
  have hsame : HasIds (served ++ []) s := by rwa [List.append_nil]
  cases a with
  | SUBSCRIBE hdl => exact h.subscribe hdl
  | UNSUBSCRIBE hdl =>
      rw [WebSocketServer.processAction]
      cases s.getDataFromHdl hdl with
      | error e => exact hsame
      | ok data => exact hsame.erase hdl
  | IN_MESSAGE hdl msg => exact hsame
  | OUT_MESSAGE outMsg => exact hsame

/-- An action that is queued by a callback. -/
theorem Numbered.queue (h : Numbered opened s) (a : Action η) :
    Numbered (opened ++ subscribed [a]) { s with actions := s.actions ++ [a] } := by
  obtain ⟨served, hopened, hids⟩ := h
  refine ⟨served, ?_, hids.next, hids.ids⟩
  rw [hopened, subscribed_append, List.append_assoc]

theorem step_numbered (h : Numbered opened s) (e : Event η) :
    Numbered (opened ++ opens [e]) (step s e).1 := by
  cases e with
  | onOpen hdl => exact h.queue (.SUBSCRIBE hdl)
  | onClose hdl => exact h.queue (.UNSUBSCRIBE hdl)
  | onMessage hdl msg => exact h.queue (.IN_MESSAGE hdl msg)
  | processMessages =>
      change Numbered (opened ++ []) s.processMessages.1
      rw [List.append_nil]
      obtain ⟨served, hopened, hids⟩ := h
      cases hactions : s.actions with
      | nil =>
          rw [WebSocketServer.processMessages, hactions]
          exact ⟨served, hopened, hids⟩
      | cons a actions =>
          -- the action at the front moves its handle from the queue to those served
          have hrest : HasIds served { s with actions } := ⟨hids.next, hids.ids⟩
          rw [WebSocketServer.processMessages, hactions]
          refine ⟨served ++ subscribed [a], ?_, hrest.processAction a⟩
          rw [processAction_actions, hopened, hactions, subscribed_cons, List.append_assoc]

theorem run_numbered (events : List (Event η)) :
    Numbered (opens events) (run step .new events) := by
  refine run_reading (fun read s => Numbered (opens read) s) ?_ ?_ events
  · intro read s e h
    rw [opens_append]
    exact step_numbered h e
  · exact ⟨[], rfl, rfl, by simp [WebSocketServer.new]⟩

/-- In every run in which each handle is opened at most once and fewer than 2^31 - 1 are opened,
whatever is closed and however far `process_messages` is behind: a connection in the table has been
opened, its id is positive and below the next one, no other connection has it, and it is the number
of the open, counted from 1. -/
theorem session_ids_follow_opens (events : List (Event η)) (hopens : (opens events).Nodup)
    (hcount : (opens events).length < 2 ^ 31 - 1) :
    let s := run step .new events
    (∀ hdl data, s.connections.lookup hdl = some data →
      hdl ∈ opens events ∧ 0 < data.sessionid ∧ data.sessionid < s.nextSessionid) ∧
    (∀ hdl hdl' data data', s.connections.lookup hdl = some data →
      s.connections.lookup hdl' = some data' → data.sessionid = data'.sessionid → hdl = hdl') ∧
    ∀ (k : ℕ) hdl data, (opens events)[k]? = some hdl → s.connections.lookup hdl = some data →
      data.sessionid.toInt = k + 1 := by
  intro s
  obtain ⟨served, hopened, hids⟩ := run_numbered events
  have hserved : served.length ≤ (opens events).length := by
    rw [hopened, List.length_append]
    exact Nat.le_add_right _ _
  -- the counter has not come to the limit of `int`
  have htoInt (n : ℕ) (hn : n ≤ served.length + 1) : (Int32.ofNat n).toInt = n :=
    Int32.toInt_ofNat_of_lt (by omega)
  have hid : ∀ hdl data, s.connections.lookup hdl = some data →
      ∃ k, k < served.length ∧ (opens events)[k]? = some hdl ∧ data.sessionid.toInt = k + 1 := by
    intro hdl data hdata
    obtain ⟨k, hk, hsessionid⟩ := hids.ids hdl data hdata
    have hlt : k < served.length := (List.getElem?_eq_some_iff.mp hk).1
    refine ⟨k, hlt, ?_, ?_⟩
    · rw [hopened]
      exact getElem?_append_of_some hk _
    · rw [hsessionid, htoInt (k + 1) (by omega)]
      rfl
  refine ⟨?_, ?_, ?_⟩
  · intro hdl data hdata
    obtain ⟨k, hlt, hk, hsessionid⟩ := hid hdl data hdata
    have hnext : s.nextSessionid.toInt = served.length + 1 := by
      rw [hids.next, htoInt _ le_rfl]
      rfl
    refine ⟨List.mem_of_getElem? hk, ?_, ?_⟩
    · rw [Int32.lt_iff_toInt_lt, hsessionid, Int32.toInt_zero]
      omega
    · rw [Int32.lt_iff_toInt_lt, hsessionid, hnext]
      omega
  · intro hdl hdl' data data' hdata hdata' hsame
    obtain ⟨k, -, hk, hsessionid⟩ := hid hdl data hdata
    obtain ⟨k', -, hk', hsessionid'⟩ := hid hdl' data' hdata'
    rw [hsame] at hsessionid
    obtain rfl : k = k' := by omega
    rw [hk] at hk'
    exact Option.some.inj hk'
  · intro k hdl data hk hdata
    obtain ⟨k', -, hk', hsessionid⟩ := hid hdl data hdata
    have hlt : k < (opens events).length := (List.getElem?_eq_some_iff.mp hk).1
    obtain rfl : k = k' := (List.getElem?_inj hlt hopens).mp (hk.trans hk'.symm)
    exact hsessionid

/-- Three connections, of which the second is closed, and the last is not served yet. -/
theorem session_ids_follow_opens_run :
    let events : List (Event ℕ) := [.onOpen 7, .onOpen 5, .onMessage 7 "a".toList, .onClose 5,
      .processMessages, .onOpen 9, .processMessages]
    ∃ data, (run step .new events).connections.lookup 5 = some data ∧ data.sessionid.toInt = 2 := by
  intro events
  refine ⟨⟨2, []⟩, rfl, ?_⟩
  exact (session_ids_follow_opens events (by decide) (by decide)).2.2 1 5 _ rfl rfl

end ForexSuite.SessionIds
