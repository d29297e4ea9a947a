import ForexSuite.PriceFeed

/-!
# Whose subscriptions the feed serves

A client sends commands: a command word, then symbols. The feed keeps the last
command that mentioned a symbol, whichever client it came from, and forgets all
of them when any client connects or disconnects; quotes go to the client that sent
the last command. For a client that has had the feed to itself since it connected
this is its own subscription.
-/
namespace ForexSuite.FeedSubscriptions

open TextNumbers EventMachine Connections Getline PriceFeed
open PriceServer (MTTickShort)

variable {η : Type*}

/-- The four command words. -/
inductive Word where
  | SUBSCRIBE
  | subscribe
  | UNSUBSCRIBE
  | unsubscribe
deriving Repr, DecidableEq

def Word.text : Word → Text
  | .SUBSCRIBE => "SUBSCRIBE".toList
  | .subscribe => "subscribe".toList
  | .UNSUBSCRIBE => "UNSUBSCRIBE".toList
  | .unsubscribe => "unsubscribe".toList

def Word.subscribes : Word → Bool
  | .SUBSCRIBE => true
  | .subscribe => true
  | .UNSUBSCRIBE => false
  | .unsubscribe => false

/-- A text that can stand for a symbol in a message. -/
structure IsSymbol (s : Text) : Prop where
  nonempty : s ≠ []
  noComma : ',' ∉ s
  noWord : ∀ word : Word, s ≠ word.text

/-- A message of one command word followed by symbols. -/
structure Command where
  word : Word
  symbols : List Text
  areSymbols : ∀ s ∈ symbols, IsSymbol s

def Command.payload (c : Command) : Text := [','].intercalate (c.word.text :: c.symbols)

inductive ClientEvent (η : Type*) where
  | connects (hdl : η)
  | disconnects (hdl : η)
  | sends (hdl : η) (command : Command)
  | ticks (symbol : Text) (tick : MTTickShort)

/-- The callback an event leads to. -/
def ClientEvent.callback : ClientEvent η → Event η
  | .connects hdl => .onOpen hdl
  | .disconnects hdl => .onClose hdl
  | .sends hdl command => .onMessage hdl command.payload
  | .ticks symbol tick => .tick symbol tick

/-- What an event makes of the subscription of a symbol, if it touches it. -/
def verdict (symbol : Text) : ClientEvent η → Option Bool
  | .connects _ => some false
  | .disconnects _ => some false
  | .sends _ command => if symbol ∈ command.symbols then some command.word.subscribes else none
  | .ticks _ _ => none

/-- The command with which a client mentions a symbol. -/
def ownVerdict [DecidableEq η] (hdl : η) (symbol : Text) : ClientEvent η → Option Bool
  | .sends hdl' command =>
      if hdl' = hdl ∧ symbol ∈ command.symbols then some command.word.subscribes else none
  | _ => none

def sender : ClientEvent η → Option η
  | .sends hdl _ => some hdl
  | _ => none

/-- The last of the verdicts of a run, or what held before it. -/
def lastVerdict (f : ClientEvent η → Option Bool) (before : Bool) (es : List (ClientEvent η)) :
    Bool :=
  (es.filterMap f).getLast?.getD before

/-- The events that come from a client other than the one given. -/
def FromOther (hdl : η) : ClientEvent η → Prop
  | .connects hdl' => hdl' ≠ hdl
  | .disconnects hdl' => hdl' ≠ hdl
  | .sends hdl' _ => hdl' ≠ hdl
  | .ticks _ _ => False

/-! ### Reading a command -/

theorem Command.getlines_payload (c : Command) :
    getlines ',' c.payload = c.word.text :: c.symbols := by
  have hword : ',' ∉ c.word.text := by
    cases c.word <;> decide
  have hne : ∀ item ∈ c.word.text :: c.symbols, item ≠ [] := by
    intro item hitem
    rcases List.mem_cons.mp hitem with rfl | hs
    · cases c.word <;> decide
    · exact (c.areSymbols item hs).nonempty
  refine getlines_intercalate (List.cons_ne_nil _ _) ?_ ?_
  · intro item hitem
    rcases List.mem_cons.mp hitem with rfl | hs
    · exact hword
    · exact (c.areSymbols item hs).noComma
  · intro hlast
    exact hne [] (List.mem_of_getLast? hlast) rfl

theorem isSubscribeWord_text (word : Word) : isSubscribeWord word.text = word.subscribes := by
  cases word <;> decide

theorem isUnSubscribeWord_text (word : Word) : isUnSubscribeWord word.text = !word.subscribes := by
  cases word <;> decide

theorem IsSymbol.words {s : Text} (h : IsSymbol s) :
    isSubscribeWord s = false ∧ isUnSubscribeWord s = false := by
  have h₁ := h.noWord .SUBSCRIBE
  have h₂ := h.noWord .subscribe
  have h₃ := h.noWord .UNSUBSCRIBE
  have h₄ := h.noWord .unsubscribe
  simp only [isSubscribeWord, isUnSubscribeWord, Bool.or_eq_false_iff, decide_eq_false_iff_not]
  exact ⟨⟨h₁, h₂⟩, ⟨h₃, h₄⟩⟩

/-- With one flag set, the loop adds all symbols or removes all of them. -/
theorem mem_actionLoop {symbols : List Text} (h : ∀ s ∈ symbols, IsSymbol s) (subscribes : Bool)
    (symSub : Finmap fun _ : Text => Bool) (symbol : Text) :
    symbol ∈ actionLoop subscribes (!subscribes) symbols symSub ↔
      if symbol ∈ symbols then subscribes = true else symbol ∈ symSub := by
  induction symbols generalizing symSub with
  | nil => simp [actionLoop]
  | cons s symbols ih =>
      have hs := (h s (by simp)).words
      simp only [actionLoop, hs.1, hs.2, Bool.false_eq_true, if_false]
      rw [ih fun s' hs' => h s' (List.mem_cons_of_mem s hs')]
      by_cases hmem : symbol ∈ symbols
      · simp [hmem]
      · cases subscribes with
        | true =>
            by_cases heq : symbol = s
            · simp [heq]
            · simp [hmem, heq]
        | false =>
            by_cases heq : symbol = s
            · simp [heq, Finmap.mem_erase]
            · simp [hmem, heq, Finmap.mem_erase]

/-- A command decides the subscription of its symbols and of no other. -/
theorem mem_onMessage (hdl : η) (c : Command) (s : WebSocketServer η) (symbol : Text) :
    symbol ∈ (s.onMessage hdl c.payload).symSub ↔
      if symbol ∈ c.symbols then c.word.subscribes = true else symbol ∈ s.symSub := by
  have hloop := mem_actionLoop c.areSymbols c.word.subscribes s.symSub symbol
  simp only [WebSocketServer.onMessage, WebSocketServer.isValidRequest, c.getlines_payload,
    actionLoop, isSubscribeWord_text, isUnSubscribeWord_text]
  cases hword : c.word.subscribes with
  | true => simpa [hword] using hloop
  | false => simpa [hword] using hloop

/-! ### The law of a run -/

variable {hdl : η} {es : List (ClientEvent η)}

theorem lastVerdict_cons (f : ClientEvent η → Option Bool) (before : Bool) (e : ClientEvent η)
    (es : List (ClientEvent η)) :
    lastVerdict f before (e :: es) = lastVerdict f ((f e).getD before) es := by
  unfold lastVerdict
  cases hf : f e with
  | none => simp [hf]
  | some v => simp [hf, List.getLast?_cons]

theorem mem_step (s : WebSocketServer η) (e : ClientEvent η) (symbol : Text) :
    decide (symbol ∈ (step s e.callback).1.symSub) =
      (verdict symbol e).getD (decide (symbol ∈ s.symSub)) := by
  cases e with
  | connects hdl => exact decide_eq_false Finmap.notMem_empty
  | disconnects hdl => exact decide_eq_false Finmap.notMem_empty
  | sends hdl c =>
      have hmem := mem_onMessage hdl c s symbol
      by_cases hs : symbol ∈ c.symbols
      · rw [if_pos hs] at hmem
        simp [ClientEvent.callback, step, verdict, hs, hmem]
      · rw [if_neg hs] at hmem
        simp [ClientEvent.callback, step, verdict, hs, hmem]
  | ticks symbol tick => rfl

theorem mem_run (s : WebSocketServer η) (es : List (ClientEvent η)) (symbol : Text) :
    decide (symbol ∈ (run step s (es.map ClientEvent.callback)).symSub) =
      lastVerdict (verdict symbol) (decide (symbol ∈ s.symSub)) es := by
  induction es generalizing s with
  | nil => rfl
  | cons e es ih => rw [List.map_cons, run_cons, ih, lastVerdict_cons, mem_step]

theorem hdl1_run (s : WebSocketServer η) (es : List (ClientEvent η)) :
    (run step s (es.map ClientEvent.callback)).hdl1 =
      (es.filterMap sender).getLast?.or s.hdl1 := by
  induction es generalizing s with
  | nil => rfl
  | cons e es ih =>
      rw [List.map_cons, run_cons, ih]
      cases e with
      | sends hdl c =>
          have hfirst : (step s (ClientEvent.sends hdl c).callback).1.hdl1 = some hdl := rfl
          have hsender : sender (.sends hdl c) = some hdl := rfl
          rw [hfirst, List.filterMap_cons_some hsender, List.getLast?_cons]
          cases (es.filterMap sender).getLast? <;> rfl
      | connects hdl => rfl
      | disconnects hdl => rfl
      | ticks symbol tick => rfl

/-! ### A client that has the feed to itself -/

/-- The client that is alone is the one quotes are sent to. -/
theorem hdl1_of_alone (halone : ∀ e ∈ es, ¬ FromOther hdl e) (s : WebSocketServer η)
    (hs : s.symSub ≠ ∅ → s.hdl1 = some hdl)
    (hne : (run step s (es.map ClientEvent.callback)).symSub ≠ ∅) :
    (run step s (es.map ClientEvent.callback)).hdl1 = some hdl := by
  induction es generalizing s with
  | nil => exact hs hne
  | cons e es ih =>
      have hown := halone e (by simp)
      refine ih (fun e he => halone e (List.mem_cons_of_mem _ he)) _ ?_ hne
      cases e with
      | connects hdl' => exact fun hfirst => (hfirst rfl).elim
      | disconnects hdl' => exact fun hfirst => (hfirst rfl).elim
      | sends hdl' c =>
          have heq : hdl' = hdl := not_not.mp hown
          rw [← heq]
          exact fun _ => rfl
      | ticks symbol tick => exact hs

variable [DecidableEq η] {l : Lifecycle η}

/-- The run of the transport over client events. -/
abbrev lifecycleRun (l : Lifecycle η) (es : List (ClientEvent η)) : Lifecycle η :=
  run (Lifecycle.step signal) l (es.map ClientEvent.callback)

/-- After a client has left, no event of its own can follow. -/
theorem lastVerdict_of_closed (hopened : hdl ∈ l.opened) (hclosed : hdl ∉ l.live)
    (h : Along (Lifecycle.step signal) (fun l e => l.Permits (signal e)) l
      (es.map ClientEvent.callback))
    (halone : ∀ e ∈ es, ¬ FromOther hdl e) (symbol : Text) (before : Bool) :
    hdl ∉ (lifecycleRun l es).live ∧ lastVerdict (verdict symbol) before es = before := by
  induction es with
  | nil => exact ⟨hclosed, rfl⟩
  | cons e es ih =>
      have hown := halone e (by simp)
      have hpermits := h.1
      cases e with
      | connects hdl' =>
          have heq : hdl' = hdl := not_not.mp hown
          rw [heq] at hpermits
          exact (hpermits hopened).elim
      | disconnects hdl' =>
          have heq : hdl' = hdl := not_not.mp hown
          rw [heq] at hpermits
          exact (hclosed hpermits).elim
      | sends hdl' c =>
          have heq : hdl' = hdl := not_not.mp hown
          rw [heq] at hpermits
          exact (hclosed hpermits).elim
      | ticks symbol' tick => exact ih h.2 fun e he => halone e (List.mem_cons_of_mem _ he)

/-- While only its own events follow, the feed keeps the subscription of the client. -/
theorem lastVerdict_of_alone (hopened : hdl ∈ l.opened) (hlive : hdl ∈ l.live)
    (h : Along (Lifecycle.step signal) (fun l e => l.Permits (signal e)) l
      (es.map ClientEvent.callback))
    (halone : ∀ e ∈ es, ¬ FromOther hdl e) (symbol : Text) (before : Bool) :
    lastVerdict (verdict symbol) before es =
      (decide (hdl ∈ (lifecycleRun l es).live) &&
        lastVerdict (ownVerdict hdl symbol) before es) := by
  induction es generalizing before with
  | nil =>
      have hfinal : hdl ∈ (lifecycleRun l ([] : List (ClientEvent η))).live := hlive
      simp [hfinal, lastVerdict]
  | cons e es ih =>
      have hown := halone e (by simp)
      have hrest : ∀ e ∈ es, ¬ FromOther hdl e := fun e he => halone e (List.mem_cons_of_mem _ he)
      have hpermits := h.1
      rw [lastVerdict_cons, lastVerdict_cons]
      cases e with
      | connects hdl' =>
          have heq : hdl' = hdl := not_not.mp hown
          rw [heq] at hpermits
          exact (hpermits hopened).elim
      | disconnects hdl' =>
          have heq : hdl' = hdl := not_not.mp hown
          subst heq
          have hclosed := lastVerdict_of_closed (l := l.after (.closes hdl')) hopened
            (Finset.notMem_erase hdl' l.live) h.2 hrest symbol false
          have hfinal : hdl' ∉ (lifecycleRun l (.disconnects hdl' :: es)).live := hclosed.1
          rw [verdict, Option.getD_some, hclosed.2, decide_eq_false hfinal, Bool.false_and]
      | sends hdl' c =>
          have heq : hdl' = hdl := not_not.mp hown
          subst heq
          have hsame : ownVerdict hdl' symbol (.sends hdl' c) = verdict symbol (.sends hdl' c) := by
            simp [ownVerdict, verdict]
          rw [hsame]
          exact ih h.2 hrest _
      | ticks symbol' tick => exact ih h.2 hrest before

/-- For every run of connections, commands and ticks: a tick is sent exactly when the last
command that mentioned its symbol, since a client last connected or disconnected and whoever
sent it, was a subscribe, and then to the client that sent the last command. When all events
since a client connected have been its own, a tick is sent to it exactly when it is
connected and its last command that mentioned the symbol was a subscribe. -/
theorem quotes_follow_commands (es : List (ClientEvent η))
    (h : Orderly signal (es.map ClientEvent.callback)) (symbol : Text) (tick : MTTickShort) :
    let s := run step .new (es.map ClientEvent.callback)
    s.sendJSONTick symbol tick = (if lastVerdict (verdict symbol) false es = true then
        some ⟨(es.filterMap sender).getLast?, symbol, tick.bid, tick.ask⟩ else none) ∧
      ∀ pre hdl post, es = pre ++ .connects hdl :: post → (∀ e ∈ post, ¬ FromOther hdl e) →
        s.sendJSONTick symbol tick =
          if hdl ∈ openAfter signal (es.map ClientEvent.callback) ∧
              lastVerdict (ownVerdict hdl symbol) false post = true
          then some ⟨some hdl, symbol, tick.bid, tick.ask⟩ else none := by
  intro s
  have hmem : decide (symbol ∈ s.symSub) = lastVerdict (verdict symbol) false es :=
    mem_run .new es symbol
  have hhdl : s.hdl1 = (es.filterMap sender).getLast? := by
    rw [hdl1_run, WebSocketServer.new, Option.or_none]
  constructor
  · rw [WebSocketServer.sendJSONTick, ← hmem, hhdl]
    simp only [decide_eq_true_eq]
  · intro pre hdl post hes halone
    -- the run up to the moment the client has connected
    have hsplit : es.map ClientEvent.callback =
        pre.map ClientEvent.callback ++ .onOpen hdl :: post.map ClientEvent.callback := by
      rw [hes, List.map_append, List.map_cons]
      rfl
    unfold Orderly at h
    rw [hsplit] at h
    have hpost := h.append.2.2
    let l := (run (Lifecycle.step signal) (.new : Lifecycle η) (pre.map ClientEvent.callback)).after
      (.opens hdl)
    let s₀ := (run step .new (pre.map ClientEvent.callback)).onOpen hdl
    have hopened : hdl ∈ l.opened := Finset.mem_insert_self _ _
    have hlive : hdl ∈ l.live := Finset.mem_insert_self _ _
    have hopen : openAfter signal (es.map ClientEvent.callback) = (lifecycleRun l post).live := by
      rw [openAfter, hsplit, run_append]
      rfl
    have hs : s = run step s₀ (post.map ClientEvent.callback) := by
      unfold s
      rw [hsplit, run_append]
      rfl
    have hempty : decide (symbol ∈ s₀.symSub) = false := decide_eq_false Finmap.notMem_empty
    have hown := mem_run s₀ post symbol
    rw [hempty, lastVerdict_of_alone hopened hlive hpost halone symbol false, ← hs, ← hopen] at hown
    have hsent : symbol ∈ s.symSub → s.hdl1 = some hdl := by
      intro hsymbol
      rw [hs] at hsymbol ⊢
      refine hdl1_of_alone halone s₀ (fun hne => (hne rfl).elim) ?_
      intro hnone
      rw [hnone] at hsymbol
      exact Finmap.notMem_empty hsymbol
    have hiff : symbol ∈ s.symSub ↔ hdl ∈ openAfter signal (es.map ClientEvent.callback) ∧
        lastVerdict (ownVerdict hdl symbol) false post = true := by
      simpa only [decide_eq_true_eq, Bool.and_eq_true] using Bool.eq_iff_iff.mp hown
    by_cases hsymbol : symbol ∈ s.symSub
    · rw [WebSocketServer.sendJSONTick, if_pos hsymbol, if_pos (hiff.mp hsymbol), hsent hsymbol]
    · rw [WebSocketServer.sendJSONTick, if_neg hsymbol, if_neg fun hboth =>
        hsymbol (hiff.mpr hboth)]

theorem isSymbol_eurusd : IsSymbol "EURUSD".toList :=
  ⟨by decide, by simp, by intro word; cases word <;> decide⟩

theorem isSymbol_gbpusd : IsSymbol "GBPUSD".toList :=
  ⟨by decide, by simp, by intro word; cases word <;> decide⟩

def subscribeEurusd : Command :=
  ⟨.SUBSCRIBE, ["EURUSD".toList], List.forall_mem_singleton.mpr isSymbol_eurusd⟩

def subscribeGbpusd : Command :=
  ⟨.SUBSCRIBE, ["GBPUSD".toList], List.forall_mem_singleton.mpr isSymbol_gbpusd⟩

/-- One client, which subscribes to one symbol. -/
theorem quotes_follow_commands_run :
    let es : List (ClientEvent ℕ) := [.connects 1, .sends 1 subscribeEurusd]
    (run step .new (es.map ClientEvent.callback)).sendJSONTick "EURUSD".toList ⟨1, 2⟩ =
      some ⟨some 1, "EURUSD".toList, 1, 2⟩ := by
  intro es
  have horderly : Orderly signal (es.map ClientEvent.callback) := ⟨by decide, by decide, trivial⟩
  have hsent := (quotes_follow_commands es horderly "EURUSD".toList ⟨1, 2⟩).2 [] 1
    [.sends 1 subscribeEurusd] rfl (by simp [FromOther])
  rw [hsent]
  decide

/-- A client is connected and has subscribed to `EURUSD`. When another client connects, its
quotes stop; when the other one subscribes to `GBPUSD`, quotes the first one asks for go
to the other one. -/
theorem other_client_takes_quotes :
    let quiet : List (ClientEvent ℕ) := [.connects 1, .sends 1 subscribeEurusd, .connects 2]
    let taken : List (ClientEvent ℕ) :=
      [.connects 1, .connects 2, .sends 1 subscribeEurusd, .sends 2 subscribeGbpusd]
    (Orderly signal (quiet.map ClientEvent.callback) ∧
        Orderly signal (taken.map ClientEvent.callback)) ∧
      1 ∈ openAfter signal (quiet.map ClientEvent.callback) ∧
      lastVerdict (ownVerdict 1 "EURUSD".toList) false quiet = true ∧
      (run step .new (quiet.map ClientEvent.callback)).sendJSONTick "EURUSD".toList ⟨1, 2⟩ = none ∧
      (run step .new (taken.map ClientEvent.callback)).sendJSONTick "EURUSD".toList ⟨1, 2⟩ =
        some ⟨some 2, "EURUSD".toList, 1, 2⟩ := by
  intro quiet taken
  refine ⟨⟨⟨by decide, by decide, by decide, trivial⟩,
    ⟨by decide, by decide, by decide, by decide, trivial⟩⟩, by decide, by decide, by decide,
    by decide⟩

end ForexSuite.FeedSubscriptions
