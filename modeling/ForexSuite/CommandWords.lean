import ForexSuite.MapValues
import ForexSuite.PriceFeed
import Mathlib.Data.List.Induction

/-!
# Messages of several commands

A message lists command words and symbols, and a symbol is meant to follow the
latest command word before it. `isValidRequest` sets one flag for each of the two
commands and takes neither back: once an unsubscribe has been read, a symbol under
a later subscribe is added and removed again at once.

Tokens are what `std::getline` reads, so nothing follows a comma that ends the
message.
-/
namespace ForexSuite.CommandWords

open TextNumbers Getline MapValues PriceFeed

variable {η : Type*} {before tokens : List Text} {token symbol : Text} {symbols : Finset Text}
  {isSubscribe isUnSubscribe : Bool}

inductive CommandWord where
  | subscribe
  | unsubscribe
deriving Repr, DecidableEq

def commandOf (token : Text) : Option CommandWord :=
  if isSubscribeWord token then some .subscribe
  else if isUnSubscribeWord token then some .unsubscribe
  else none

/-- What a symbol does to the set under the latest command. -/
def applyCommand (symbol : Text) (symbols : Finset Text) : Option CommandWord → Finset Text
  | none => symbols
  | some .subscribe => insert symbol symbols
  | some .unsubscribe => symbols.erase symbol

/-- Reading the tokens from left to right under the latest command. -/
def readTokens : Option CommandWord → List Text → Finset Text → Finset Text
  | _, [], symbols => symbols
  | latest, token :: tokens, symbols =>
      match commandOf token with
      | some command => readTokens (some command) tokens symbols
      | none => readTokens latest tokens (applyCommand token symbols latest)

def latestCommand (before : List Text) : Option CommandWord := (before.filterMap commandOf).getLast?

/-- `before` are the tokens before the last mention of the symbol. -/
def LastMention (symbol : Text) (before tokens : List Text) : Prop :=
  ∃ after, tokens = before ++ symbol :: after ∧ symbol ∉ after

/-- The last mention of the symbol is under a subscribe, and an unsubscribe comes before that. -/
def LosesSubscription (tokens : List Text) (symbol : Text) : Prop :=
  commandOf symbol = none ∧ ∃ before, LastMention symbol before tokens ∧
    latestCommand before = some .subscribe ∧ some .unsubscribe ∈ before.map commandOf

/-! ### One more token -/

theorem latestCommand_cons (token : Text) (tokens : List Text) :
    latestCommand (token :: tokens) = (latestCommand tokens).or (commandOf token) := by
  unfold latestCommand
  cases h : commandOf token with
  | none => simp [h]
  | some command => simp [h, List.getLast?_cons]

theorem readTokens_concat (latest : Option CommandWord) (tokens : List Text) (token : Text)
    (symbols : Finset Text) :
    readTokens latest (tokens ++ [token]) symbols =
      match commandOf token with
      | some _ => readTokens latest tokens symbols
      | none => applyCommand token (readTokens latest tokens symbols)
          ((latestCommand tokens).or latest) := by
  induction tokens generalizing latest symbols with
  | nil => cases h : commandOf token <;> simp [readTokens, latestCommand, h]
  | cons t tokens ih =>
      rw [List.cons_append, readTokens, readTokens, latestCommand_cons]
      cases ht : commandOf t with
      | some command => simp only [ih, Option.or_assoc, Option.some_or]
      | none => simp only [ih, Option.or_none]

/-- What `isValidRequest` does with a symbol, by the two flags. -/
def applyFlags (isSubscribe isUnSubscribe : Bool) (symbol : Text)
    (symSub : Finmap fun _ : Text => Bool) : Finmap fun _ : Text => Bool :=
  let symSub := if isSubscribe then symSub.insert symbol true else symSub
  if isUnSubscribe then symSub.erase symbol else symSub

theorem actionLoop_cons (isSubscribe isUnSubscribe : Bool) (token : Text) (tokens : List Text)
    (symSub : Finmap fun _ : Text => Bool) :
    actionLoop isSubscribe isUnSubscribe (token :: tokens) symSub =
      match commandOf token with
      | some .subscribe => actionLoop true isUnSubscribe tokens symSub
      | some .unsubscribe => actionLoop isSubscribe true tokens symSub
      | none => actionLoop isSubscribe isUnSubscribe tokens
          (applyFlags isSubscribe isUnSubscribe token symSub) := by
  rw [actionLoop, commandOf]
  by_cases hsub : isSubscribeWord token = true
  · rw [if_pos hsub, if_pos hsub]
  · by_cases hunsub : isUnSubscribeWord token = true
    · rw [if_neg hsub, if_neg hsub, if_pos hunsub, if_pos hunsub]
    · rw [if_neg hsub, if_neg hsub, if_neg hunsub, if_neg hunsub]
      rfl

theorem actionLoop_concat (isSubscribe isUnSubscribe : Bool) (tokens : List Text) (token : Text)
    (symSub : Finmap fun _ : Text => Bool) :
    actionLoop isSubscribe isUnSubscribe (tokens ++ [token]) symSub =
      match commandOf token with
      | some _ => actionLoop isSubscribe isUnSubscribe tokens symSub
      | none => applyFlags (isSubscribe || decide (some .subscribe ∈ tokens.map commandOf))
          (isUnSubscribe || decide (some .unsubscribe ∈ tokens.map commandOf)) token
          (actionLoop isSubscribe isUnSubscribe tokens symSub) := by
  induction tokens generalizing isSubscribe isUnSubscribe symSub with
  | nil =>
      rw [List.nil_append, actionLoop_cons]
      cases commandOf token with
      | none => simp [actionLoop]
      | some command => cases command <;> rfl
  | cons t tokens ih =>
      rw [List.cons_append, actionLoop_cons, actionLoop_cons]
      cases ht : commandOf t with
      | none => simp [ih, ht]
      | some command => cases command <;> simp [ih, ht]

theorem mem_applyFlags {symSub : Finmap fun _ : Text => Bool} :
    symbol ∈ applyFlags isSubscribe isUnSubscribe symbol symSub ↔
      isUnSubscribe = false ∧ (isSubscribe = true ∨ symbol ∈ symSub) := by
  cases isSubscribe <;> cases isUnSubscribe <;> simp [applyFlags, Finmap.mem_erase]

theorem mem_applyFlags_of_ne {symSub : Finmap fun _ : Text => Bool} (h : token ≠ symbol) :
    symbol ∈ applyFlags isSubscribe isUnSubscribe token symSub ↔ symbol ∈ symSub := by
  cases isSubscribe <;> cases isUnSubscribe <;>
    simp [applyFlags, Finmap.mem_erase, Finmap.mem_insert, h.symm]

theorem mem_applyCommand_of_ne (h : token ≠ symbol) (latest : Option CommandWord) :
    symbol ∈ applyCommand token symbols latest ↔ symbol ∈ symbols := by
  cases latest with
  | none => rfl
  | some command => cases command <;> simp [applyCommand, h.symm]

theorem mem_of_latestCommand {command : CommandWord} (h : latestCommand tokens = some command) :
    some command ∈ tokens.map commandOf := by
  have ⟨token, hmem, htoken⟩ := List.mem_filterMap.mp (List.mem_of_getLast? h)
  exact List.mem_map.mpr ⟨token, hmem, htoken⟩

theorem latestCommand_eq_none :
    latestCommand tokens = none ↔ ∀ command, some command ∉ tokens.map commandOf := by
  unfold latestCommand
  rw [List.getLast?_eq_none_iff, List.eq_nil_iff_forall_not_mem]
  simp only [List.mem_filterMap, List.mem_map]

/-! ### The last mention of a symbol -/

theorem lastMention_concat :
    LastMention symbol before (tokens ++ [token]) ↔
      token = symbol ∧ before = tokens ∨ token ≠ symbol ∧ LastMention symbol before tokens := by
  constructor
  · intro h
    have ⟨after, heq, hnot⟩ := h
    cases after using List.reverseRecOn with
    | nil =>
        have ⟨htokens, htoken⟩ := List.append_inj' heq rfl
        exact Or.inl ⟨by simpa using htoken, htokens.symm⟩
    | append_singleton rest t =>
        rw [← List.cons_append, ← List.append_assoc] at heq
        have ⟨htokens, htoken⟩ := List.append_inj' heq rfl
        have ht : t = token := by simpa using htoken.symm
        rw [ht, List.mem_append, List.mem_singleton, not_or] at hnot
        exact Or.inr ⟨fun hsymbol => hnot.2 hsymbol.symm, rest, htokens, hnot.1⟩
  · intro h
    cases h with
    | inl h => exact ⟨[], by rw [h.1, h.2], List.not_mem_nil⟩
    | inr h =>
        have ⟨hne, rest, heq, hnot⟩ := h
        refine ⟨rest ++ [token], by rw [heq, List.append_assoc]; rfl, ?_⟩
        simp [hnot, hne.symm]

theorem losesSubscription_concat_self :
    LosesSubscription (tokens ++ [symbol]) symbol ↔
      commandOf symbol = none ∧ latestCommand tokens = some .subscribe ∧
        some .unsubscribe ∈ tokens.map commandOf := by
  simp [LosesSubscription, lastMention_concat]

theorem losesSubscription_concat_of_ne (h : token ≠ symbol) :
    LosesSubscription (tokens ++ [token]) symbol ↔ LosesSubscription tokens symbol := by
  simp [LosesSubscription, lastMention_concat, h]

theorem LosesSubscription.exists_unsubscribe (h : LosesSubscription tokens symbol) :
    some .unsubscribe ∈ tokens.map commandOf := by
  have ⟨_, before, ⟨after, heq, _⟩, _, hmem⟩ := h
  rw [heq, List.map_append]
  exact List.mem_append_left _ hmem

theorem LosesSubscription.not_commandWord (h : LosesSubscription tokens symbol)
    {command : CommandWord} (hcommand : commandOf symbol = some command) : False := by
  rw [h.1] at hcommand
  cases hcommand

/-- A command word is no symbol. -/
theorem losesSubscription_concat_command {command : CommandWord}
    (hcommand : commandOf token = some command) :
    LosesSubscription (tokens ++ [token]) symbol ↔ LosesSubscription tokens symbol := by
  by_cases hne : token = symbol
  · rw [hne] at hcommand
    exact iff_of_false (fun h => h.not_commandWord hcommand) (fun h => h.not_commandWord hcommand)
  · exact losesSubscription_concat_of_ne hne

/-- The two readings agree on a symbol as long as its last mention loses nothing. -/
theorem mem_actionLoop_iff (symSub : Finmap fun _ : Text => Bool) (symbol : Text)
    (tokens : List Text) :
    (symbol ∈ actionLoop false false tokens symSub ↔ symbol ∈ readTokens none tokens symSub.keys) ↔
      ¬ LosesSubscription tokens symbol := by
  induction tokens using List.reverseRecOn with
  | nil =>
      have hloses : ¬ LosesSubscription [] symbol := by
        intro h
        exact List.not_mem_nil h.exists_unsubscribe
      simp [actionLoop, readTokens, hloses, Finmap.mem_keys]
  | append_singleton tokens token ih =>
      rw [actionLoop_concat, readTokens_concat]
      cases hcommand : commandOf token with
      | some command =>
          rw [losesSubscription_concat_command hcommand]
          exact ih
      | none =>
          by_cases hne : token = symbol
          · rw [hne] at hcommand ⊢
            rw [losesSubscription_concat_self, mem_applyFlags, Option.or_none]
            simp only [Bool.false_or, decide_eq_true_eq, decide_eq_false_iff_not, hcommand,
              true_and]
            cases hlatest : latestCommand tokens with
            | none =>
                have hnone := latestCommand_eq_none.mp hlatest
                have hloses : ¬ LosesSubscription tokens symbol := by
                  intro h
                  exact hnone _ h.exists_unsubscribe
                have hsame := ih.mpr hloses
                simp [hnone, hsame, applyCommand]
            | some command =>
                have hseen := mem_of_latestCommand hlatest
                cases command with
                | subscribe => simp [hseen, applyCommand]
                | unsubscribe => simp [hseen, applyCommand]
          · rw [mem_applyFlags_of_ne hne, mem_applyCommand_of_ne hne,
              losesSubscription_concat_of_ne hne]
            exact ih

/-- The set of symbols is the one that the payload describes exactly when no symbol is mentioned
last under a subscribe with an unsubscribe before it. -/
theorem commands_are_read_iff (hdl : η) (msg : Text) (s : WebSocketServer η) :
    (s.isValidRequest hdl msg).symSub.keys = readTokens none (getlines ',' msg) s.symSub.keys ↔
      ∀ symbol, ¬ LosesSubscription (getlines ',' msg) symbol := by
  rw [Finset.ext_iff]
  apply forall_congr'
  intro symbol
  rw [Finmap.mem_keys]
  exact mem_actionLoop_iff s.symSub symbol (getlines ',' msg)

/-- GBPUSD is subscribed after the unsubscribe for EURUSD, and the set stays empty. -/
theorem subscribe_after_unsubscribe_is_lost :
    let msg := "UNSUBSCRIBE,EURUSD,SUBSCRIBE,GBPUSD".toList
    let s : WebSocketServer ℕ := .new
    (s.isValidRequest 1 msg).symSub.keys ≠ readTokens none (getlines ',' msg) s.symSub.keys := by
  decide

end ForexSuite.CommandWords
