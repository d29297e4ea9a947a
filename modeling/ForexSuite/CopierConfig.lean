import ForexSuite.IndexedList
import ForexSuite.TextNumbers

/-!
# The rules of the trade copier

A rule sends the deals of some accounts to one target account. Rules are grouped
by symbol mask and, below it, by group mask; a `SymbolConfig` holds the groups of
one symbol mask and a `GroupConfig` the login masks and targets of one group mask.
Routing takes the first group whose mask matches and, in it, the first login mask
that matches. Whether a text matches a mask is `CMTStr::CheckGroupMask`, the
parameter `check`.

Account numbers have 64 bits on the platform and 32 in a `long`. A `std::string`
and its widened form are the same text.
-/
namespace ForexSuite.CopierConfig

open TextNumbers IndexedList

/-- What the plugin asks of the server about accounts: the group of an account, when
`UserGet` succeeds. -/
abbrev UserGet := UInt64 → Option Text

/-- The group the plugin works with. A user that could not be read stays blank. -/
def userGroup (userGet : UserGet) (login : UInt64) : Text := (userGet login).getD []

theorem userGroup_of_userGet {userGet : UserGet} {login : UInt64} {group : Text}
    (h : userGet login = some group) : userGroup userGet login = group := by
  rw [userGroup, h, Option.getD_some]

/-- A 64-bit account number passed as a `long`. -/
def toLong (login : UInt64) : Int32 := login.toInt64.toInt32

def toUINT64 (login : Int32) : UInt64 := login.toInt64.toUInt64

theorem toLong_toUINT64 (login : Int32) : toLong (toUINT64 login) = login := by
  simp [toLong, toUINT64]

structure Logins where
  loginmask : Text
  targetlogin : Int32
deriving DecidableEq

structure GroupConfig where
  groupmask : Text
  loginconfig : List Logins
deriving DecidableEq

structure SymbolConfig where
  symbolmask : Text
  groupconfig : List GroupConfig
  groupIndexByGroupmask : Finmap (fun _ : Text => ℕ)
deriving DecidableEq

def GroupConfig.insertGroupConfig (loginmask : Text) (targetlogin : Int32) (g : GroupConfig) :
    GroupConfig :=
  { g with loginconfig := g.loginconfig ++ [⟨loginmask, targetlogin⟩] }

/-- The search through `_loginconfig`. -/
def searchLogins (check : Text → Text → Bool) (login : Text) : List Logins → Int32 × Bool
  | [] => (0, false)
  | i :: rest =>
      if check i.loginmask login then (i.targetlogin, true) else searchLogins check login rest

def GroupConfig.searchLogin (check : Text → Text → Bool) (g : GroupConfig) (login : Text) :
    Int32 × Bool :=
  searchLogins check login g.loginconfig

/-- The search through `_groupconfig`. A group that matches ends it, whatever it holds. -/
def searchGroups (check : Text → Text → Bool) (groupname : Text) (login : Int32) :
    List GroupConfig → Int32 × Bool
  | [] => (0, false)
  | i :: rest =>
      if check i.groupmask groupname then
        let x := i.searchLogin check (toText login.toInt)
        if x.2 = true then (x.1, true) else (0, false)
      else searchGroups check groupname login rest

/-- What `findGroupConfig` answers. For an unknown mask it reads through the iterator past
the end; what it reads there is not used. -/
inductive FoundGroup where
  | found (index : ℕ)
  | pastTheEnd
deriving Repr, DecidableEq

namespace SymbolConfig

def new (symbolmask : Text) : SymbolConfig := ⟨symbolmask, [], ∅⟩

def findGroupConfig (sc : SymbolConfig) (groupmask : Text) : FoundGroup :=
  match sc.groupIndexByGroupmask.lookup groupmask with
  | some index => .found index
  | none => .pastTheEnd

/-- Storing a rule that has passed the test. -/
def storeRule (groupmask loginmask : Text) (targetlogin : Int32) (sc : SymbolConfig) :
    SymbolConfig :=
  match sc.findGroupConfig groupmask with
  | .pastTheEnd =>
      { sc with
        groupconfig := sc.groupconfig ++ [⟨groupmask, [⟨loginmask, targetlogin⟩]⟩]
        groupIndexByGroupmask :=
          sc.groupIndexByGroupmask.insert groupmask sc.groupconfig.length }
  | .found index =>
      { sc with
        groupconfig := sc.groupconfig.modify index (·.insertGroupConfig loginmask targetlogin) }

def insertSymbolConfig (check : Text → Text → Bool) (userGet : UserGet)
    (groupmask loginmask : Text) (targetlogin : Int32) (sc : SymbolConfig) : SymbolConfig × Bool :=
  if check groupmask (userGroup userGet (toUINT64 targetlogin)) = true then
    if check loginmask (toText targetlogin.toInt) = true then (sc, false)
    else (sc.storeRule groupmask loginmask targetlogin, true)
  else
    if check loginmask (toText targetlogin.toInt) = false then (sc, false)
    else (sc.storeRule groupmask loginmask targetlogin, true)

def searchGroupConfig (check : Text → Text → Bool) (sc : SymbolConfig) (groupname : Text)
    (login : Int32) : Int32 × Bool :=
  searchGroups check groupname login sc.groupconfig

end SymbolConfig

/-! ### Rules -/

/-- A rule under some symbol mask. -/
structure Rule where
  groupmask : Text
  loginmask : Text
  targetlogin : Int32
deriving DecidableEq

namespace SymbolConfig

def rules (sc : SymbolConfig) : List Rule :=
  sc.groupconfig.flatMap fun g =>
    g.loginconfig.map fun l => ⟨g.groupmask, l.loginmask, l.targetlogin⟩

end SymbolConfig

variable {check : Text → Text → Bool} {userGet : UserGet}

def Rule.Matches (check : Text → Text → Bool) (r : Rule) (group : Text) (login : Int32) : Prop :=
  check r.groupmask group = true ∧ check r.loginmask (toText login.toInt) = true

/-- The test of `insertSymbolConfig`: exactly one of the two masks of the rule matches its
own target. -/
def Rule.Accepted (check : Text → Text → Bool) (userGet : UserGet) (r : Rule) : Prop :=
  check r.groupmask (userGroup userGet (toUINT64 r.targetlogin)) ≠
    check r.loginmask (toText r.targetlogin.toInt)

instance (r : Rule) : Decidable (r.Accepted check userGet) := inferInstanceAs (Decidable (_ ≠ _))

theorem mem_rules {sc : SymbolConfig} {r : Rule} :
    r ∈ sc.rules ↔
      ∃ g ∈ sc.groupconfig, g.groupmask = r.groupmask ∧
        ⟨r.loginmask, r.targetlogin⟩ ∈ g.loginconfig := by
  obtain ⟨groupmask, loginmask, targetlogin⟩ := r
  simp only [SymbolConfig.rules, List.mem_flatMap, List.mem_map, Rule.mk.injEq]
  constructor
  · intro h
    obtain ⟨g, hg, l, hl, hgroup, rfl, rfl⟩ := h
    exact ⟨g, hg, hgroup, hl⟩
  · intro h
    obtain ⟨g, hg, hgroup, hl⟩ := h
    exact ⟨g, hg, _, hl, hgroup, rfl, rfl⟩

def WellIndexed (sc : SymbolConfig) : Prop :=
  Indexes GroupConfig.groupmask sc.groupconfig sc.groupIndexByGroupmask

theorem wellIndexed_new (symbolmask : Text) : WellIndexed (.new symbolmask) := indexes_nil

theorem insertSymbolConfig_eq (r : Rule) (sc : SymbolConfig) :
    sc.insertSymbolConfig check userGet r.groupmask r.loginmask r.targetlogin =
      if r.Accepted check userGet then
        (sc.storeRule r.groupmask r.loginmask r.targetlogin, true)
      else (sc, false) := by
  unfold SymbolConfig.insertSymbolConfig
  split_ifs <;> simp_all [Rule.Accepted]

theorem storeRule_symbolmask (groupmask loginmask : Text) (targetlogin : Int32)
    (sc : SymbolConfig) :
    (sc.storeRule groupmask loginmask targetlogin).symbolmask = sc.symbolmask := by
  unfold SymbolConfig.storeRule
  split <;> rfl

theorem WellIndexed.storeRule {sc : SymbolConfig} (h : WellIndexed sc) (groupmask loginmask : Text)
    (targetlogin : Int32) : WellIndexed (sc.storeRule groupmask loginmask targetlogin) := by
  unfold SymbolConfig.storeRule SymbolConfig.findGroupConfig
  rcases hi : sc.groupIndexByGroupmask.lookup groupmask with _ | i
  · exact h.append (x := ⟨groupmask, [⟨loginmask, targetlogin⟩]⟩) hi
  · exact h.modify (f := (·.insertGroupConfig loginmask targetlogin)) (fun _ => rfl) i

/-! ### Routing -/

theorem searchLogins_eq (login : Text) (ls : List Logins) :
    searchLogins check login ls =
      match ls.find? fun l => check l.loginmask login with
      | some l => (l.targetlogin, true)
      | none => (0, false) := by
  induction ls with
  | nil => rfl
  | cons l ls ih =>
      by_cases hl : check l.loginmask login = true
      · simp [searchLogins, hl]
      · simp [searchLogins, hl, ih]

theorem searchLogins_isSome_iff {login : Text} {ls : List Logins} :
    (searchLogins check login ls).2 = true ↔ ∃ l ∈ ls, check l.loginmask login = true := by
  rw [searchLogins_eq, ← List.find?_isSome]
  cases ls.find? fun l => check l.loginmask login <;> simp

theorem searchLogins_target {login : Text} {ls : List Logins} {t : Int32}
    (h : searchLogins check login ls = (t, true)) :
    ∃ l ∈ ls, check l.loginmask login = true ∧ l.targetlogin = t := by
  rw [searchLogins_eq] at h
  cases hl : ls.find? fun l => check l.loginmask login with
  | none => simp [hl] at h
  | some l =>
      rw [hl] at h
      exact ⟨l, List.mem_of_find?_eq_some hl, by simpa using List.find?_some hl,
        congrArg Prod.fst h⟩

theorem searchLogins_of_isNone {login : Text} {ls : List Logins}
    (h : (searchLogins check login ls).2 = false) : searchLogins check login ls = (0, false) := by
  rw [searchLogins_eq] at h ⊢
  cases hl : ls.find? fun l => check l.loginmask login with
  | none => rfl
  | some l => simp [hl] at h

theorem searchGroups_eq (groupname : Text) (login : Int32) (gs : List GroupConfig) :
    searchGroups check groupname login gs =
      match gs.find? fun g => check g.groupmask groupname with
      | some g => g.searchLogin check (toText login.toInt)
      | none => (0, false) := by
  induction gs with
  | nil => rfl
  | cons g gs ih =>
      by_cases hg : check g.groupmask groupname = true
      · simp only [searchGroups, hg, if_true, List.find?_cons_of_pos]
        cases hx : (g.searchLogin check (toText login.toInt)).2 with
        | true => rw [if_pos rfl, ← hx]
        | false => exact (searchLogins_of_isNone hx).symm
      · rw [searchGroups, if_neg hg, List.find?_cons_of_neg (by exact hg)]
        exact ih

theorem searchGroupConfig_sound {sc : SymbolConfig} {groupname : Text} {login t : Int32}
    (h : sc.searchGroupConfig check groupname login = (t, true)) :
    ∃ r ∈ sc.rules, r.Matches check groupname login ∧ r.targetlogin = t := by
  rw [SymbolConfig.searchGroupConfig, searchGroups_eq] at h
  rcases hg : sc.groupconfig.find? fun g => check g.groupmask groupname with _ | g
  · simp [hg] at h
  · rw [hg] at h
    obtain ⟨l, hl, hmatch, rfl⟩ := searchLogins_target h
    refine ⟨⟨g.groupmask, l.loginmask, l.targetlogin⟩, ?_, ⟨?_, hmatch⟩, rfl⟩
    · exact mem_rules.mpr ⟨g, List.mem_of_find?_eq_some hg, rfl, hl⟩
    · simpa using List.find?_some hg

end ForexSuite.CopierConfig
