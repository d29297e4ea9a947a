import ForexSuite.JsonCallbacks

/-!
# Reading what was written

`read_json` undoes `write_json` on the trees that have a JSON, as long as the strings in
them have the structure of UTF-8. The writer does not look at this: it copies bytes above
0x7f and escapes what needs it below. The reader counts trailing bytes, and the first
string it finds at fault is a code sequence it does not take.
-/
namespace ForexSuite.JsonRoundTrip

open JsonWriter JsonReader JsonReader.Parser JsonCallbacks

/-! ### Strings with the structure of UTF-8 -/

/-- The bytes go on with so many trailing bytes, and each leading byte behind them has its own. -/
def structuredFrom : ℕ → Str → Bool
  | trailing, [] => trailing == 0
  | 0, c :: s =>
      if c ≤ 0x7f then structuredFrom 0 s
      else
        match trailTable c with
        | none => false
        | some trailing => structuredFrom trailing s
  | trailing + 1, c :: s => isTrail c && structuredFrom trailing s

def structured (s : Str) : Bool := structuredFrom 0 s

mutual

def treeStructured : Ptree → Bool
  | .node data children => structured data && childrenStructured children

def childrenStructured : List (Str × Ptree) → Bool
  | [] => true
  | (key, child) :: children =>
      structured key && treeStructured child && childrenStructured children

end

def IsAscii (s : Str) : Prop := ∀ c ∈ s, c ≤ 0x7f

theorem structured_of_isAscii {s : Str} (h : IsAscii s) : structured s = true := by
  induction s with
  | nil => rfl
  | cons c s ih =>
      obtain ⟨hc, hs⟩ := List.forall_mem_cons.mp h
      rw [structured, structuredFrom, if_pos hc]
      exact ih hs

theorem structuredFrom_append {k : ℕ} {s s' : Str} (hs : structuredFrom k s = true)
    (hs' : structured s' = true) : structuredFrom k (s ++ s') = true := by
  induction s generalizing k with
  | nil =>
      cases k with
      | zero => exact hs'
      | succ k => cases hs
  | cons c s ih =>
      cases k with
      | zero =>
          rw [structuredFrom] at hs
          rw [List.cons_append, structuredFrom]
          split_ifs at hs ⊢
          · exact ih hs
          · cases htable : trailTable c with
            | none =>
                rw [htable] at hs
                cases hs
            | some k =>
                rw [htable] at hs
                exact ih hs
      | succ k =>
          rw [structuredFrom, Bool.and_eq_true] at hs
          rw [List.cons_append, structuredFrom, Bool.and_eq_true]
          exact ⟨hs.1, ih hs.2⟩

theorem structured_leading {k : ℕ} {c : UInt8} {s : Str} (hc : ¬ c ≤ 0x7f)
    (htable : trailTable c = some k) (hs : structuredFrom k s = true) :
    structured (c :: s) = true := by
  rw [structured, structuredFrom, if_neg hc, htable]
  exact hs

theorem childrenStructured_iff (children : List (Str × Ptree)) :
    childrenStructured children = true ↔
      ∀ child ∈ children, structured child.1 = true ∧ treeStructured child.2 = true := by
  induction children with
  | nil => simp [childrenStructured]
  | cons child children ih => simp [childrenStructured, ih, and_assoc]

/-- What a part of the parser returns for a text with these strings. -/
def reply {α : Type} (line : ℕ) (valid : Bool) (a : α) : Except Failure α :=
  if valid then .ok a else .error (.jsonParserError "invalid code sequence" line)

theorem reply_bind {α β : Type} {f : α → Except Failure β} {line : ℕ} {a : α} {b : β}
    {valid : Bool} (hf : f a = reply line valid b) (valid' : Bool) :
    (reply line valid' a >>= f) = reply line (valid' && valid) b := by
  cases valid' with
  | true => exact hf
  | false => rfl

theorem reply_bind_ok {α β : Type} {f : α → Except Failure β} {line : ℕ} {a : α} {b : β}
    (hf : f a = .ok b) (valid : Bool) : (reply line valid a >>= f) = reply line valid b := by
  cases valid with
  | true => exact hf
  | false => rfl

variable {rest : Str} {line : ℕ} {calls : List Call}

/-! ### Escapes -/

theorem next_cons {c : UInt8} (h : isNl c = false) :
    Parser.next ⟨c :: rest, line, calls⟩ = ⟨rest, line, calls⟩ := by
  simp [Parser.next, h]

theorem decodeHexdigit_hexdigits :
    ∀ d < 16, decodeHexdigit (hexdigits.getD d 0) = some d ∧ isNl (hexdigits.getD d 0) = false := by
  decide

theorem parseHexQuad_cons {d : ℕ} (hd : d < 16) (n codepoint : ℕ) :
    parseHexQuad (n + 1) codepoint ⟨hexdigits.getD d 0 :: rest, line, calls⟩ =
      parseHexQuad n (codepoint * 16 + d) ⟨rest, line, calls⟩ := by
  obtain ⟨hdecode, hnl⟩ := decodeHexdigit_hexdigits d hd
  simp only [parseHexQuad, hdecode, next_cons hnl]

theorem not_surrogate : ∀ n < 0x20, isSurrogateLow n = false ∧ isSurrogateHigh n = false := by
  decide

variable (rest line calls) in
/-- A control character. -/
theorem parseCodepointRef_control {n : ℕ} (hn : n < 0x20) (d1 d2 d3 d4 : ℕ) (h1 : d1 < 16)
    (h2 : d2 < 16) (h3 : d3 < 16) (h4 : d4 < 16) (h : ((d1 * 16 + d2) * 16 + d3) * 16 + d4 = n) :
    parseCodepointRef ⟨hexdigits.getD d1 0 :: hexdigits.getD d2 0 :: hexdigits.getD d3 0 ::
        hexdigits.getD d4 0 :: rest, line, calls⟩ =
      .ok ⟨rest, line, calls ++ [.onCodeUnit n.toUInt8]⟩ := by
  obtain ⟨hlow, hhigh⟩ := not_surrogate n hn
  have hquad : parseHexQuad 4 0 ⟨hexdigits.getD d1 0 :: hexdigits.getD d2 0 ::
      hexdigits.getD d3 0 :: hexdigits.getD d4 0 :: rest, line, calls⟩ =
      .ok (n, ⟨rest, line, calls⟩) := by
    rw [parseHexQuad_cons h1, parseHexQuad_cons h2, parseHexQuad_cons h3, parseHexQuad_cons h4,
      Nat.zero_mul, Nat.zero_add, h]
    rfl
  have hfeed : feedCodepoint n = [n.toUInt8] := by
    rw [feedCodepoint, if_pos (by omega)]
  rw [parseCodepointRef, hquad]
  simp [bind, Except.bind, hlow, hhigh, feed, hfeed, pure, Except.pure]

theorem parseEscape_lookup {c : UInt8} {codepoint : ℕ} (h : escapes.lookup c = some codepoint)
    (hnl : isNl c = false) (hc : codepoint ≤ 0x7f) :
    parseEscape ⟨c :: rest, line, calls⟩ =
      .ok ⟨rest, line, calls ++ [.onCodeUnit codepoint.toUInt8]⟩ := by
  rw [parseEscape]
  simp only [h, next_cons hnl, feed, feedCodepoint, if_pos hc]
  rfl

/-- The characters that are written as themselves. -/
def IsRaw (c : UInt8) : Prop :=
  c = 0x20 ∨ c = 0x21 ∨ (0x23 ≤ c ∧ c ≤ 0x2e) ∨ (0x30 ≤ c ∧ c ≤ 0x5b) ∨ 0x5d ≤ c

theorem IsRaw.spec {c : UInt8} (h : IsRaw c) :
    createEscape c = [c] ∧ c ≠ quote ∧ c ≠ backslash ∧ 0x20 ≤ c := by
  refine ⟨if_pos h, ?_, ?_, ?_⟩
  · rintro rfl
    exact absurd h (by unfold IsRaw; decide)
  · rintro rfl
    exact absurd h (by unfold IsRaw; decide)
  · simp only [IsRaw, UInt8.le_iff_toNat_le, UInt8.ext_iff] at h ⊢
    simp at h ⊢
    omega

/-- The characters with an escape sequence of their own. -/
def IsNamed (c : UInt8) : Prop :=
  c = 0x08 ∨ c = 0x0c ∨ c = 0x0a ∨ c = 0x0d ∨ c = 0x09 ∨ c = '/'.toUInt8 ∨ c = quote ∨ c = backslash

/-- The escape sequence is read as the character. -/
def Escaped (c : UInt8) : Prop :=
  c ≤ 0x7f ∧ ∃ e, createEscape c = backslash :: e ∧ ∀ rest line calls,
    parseEscape ⟨e ++ rest, line, calls⟩ = .ok ⟨rest, line, calls ++ [.onCodeUnit c]⟩

theorem IsNamed.escaped {c : UInt8} (h : IsNamed c) : Escaped c := by
  rcases h with rfl | rfl | rfl | rfl | rfl | rfl | rfl | rfl <;>
    exact ⟨by decide, _, rfl, fun _ _ _ => parseEscape_lookup rfl rfl (by decide)⟩

theorem lt_of_not_named {c : UInt8} (hraw : ¬ IsRaw c) (hnamed : ¬ IsNamed c) :
    c.toNat < 0x20 := by
  have hslash : '/'.toUInt8.toNat = 0x2f := rfl
  simp only [IsRaw, IsNamed, UInt8.le_iff_toNat_le, UInt8.ext_iff] at hraw hnamed
  simp [quote, backslash] at hraw hnamed
  omega

theorem le_hexdigits : ∀ d < 16, 0x20 ≤ hexdigits.getD d 0 := by decide

theorem createEscape_control {c : UInt8} (hraw : ¬ IsRaw c) (hnamed : ¬ IsNamed c) :
    createEscape c = [backslash, 'u'.toUInt8, hexdigits.getD 0 0, hexdigits.getD 0 0,
      hexdigits.getD (c.toNat / 16) 0, hexdigits.getD (c.toNat % 16) 0] := by
  have hlt := lt_of_not_named hraw hnamed
  simp only [IsNamed, not_or] at hnamed
  obtain ⟨h1, h2, h3, h4, h5, h6, h7, h8⟩ := hnamed
  rw [IsRaw] at hraw
  rw [createEscape, if_neg hraw, if_neg h1, if_neg h2, if_neg h3, if_neg h4, if_neg h5, if_neg h6,
    if_neg h7, if_neg h8]
  have hmin : min c.toNat 0xffff = c.toNat := by omega
  have hd1 : c.toNat / 4096 = 0 := by omega
  have hd2 : c.toNat / 256 = 0 := by omega
  have hd4 : c.toNat - c.toNat / 16 * 16 = c.toNat % 16 := by omega
  simp only [hmin, hd1, hd2, hd4, Nat.zero_mul, Nat.sub_zero]

theorem escaped_control {c : UInt8} (hraw : ¬ IsRaw c) (hnamed : ¬ IsNamed c) : Escaped c := by
  have hlt := lt_of_not_named hraw hnamed
  refine ⟨?_, _, createEscape_control hraw hnamed, fun rest line calls => ?_⟩
  · rw [UInt8.le_iff_toNat_le]
    change c.toNat ≤ 127
    omega
  · have href := parseCodepointRef_control rest line calls hlt 0 0 (c.toNat / 16) (c.toNat % 16)
      (by omega) (by omega)
      (by omega) (by omega) (by omega)
    have hself : c.toNat.toUInt8 = c := UInt8.ofNat_toNat
    rw [hself] at href
    exact href

/-- Control characters are only written as escape sequences. -/
theorem le_of_mem_createEscape {b c : UInt8} (h : b ∈ createEscape c) : 0x20 ≤ b := by
  by_cases hraw : IsRaw c
  · rw [hraw.spec.1, List.mem_singleton] at h
    rw [h]
    exact hraw.spec.2.2.2
  by_cases hnamed : IsNamed c
  · have hall : (createEscape c).all (fun b => decide (0x20 ≤ b)) = true := by
      rcases hnamed with rfl | rfl | rfl | rfl | rfl | rfl | rfl | rfl <;> rfl
    exact of_decide_eq_true (List.all_eq_true.mp hall b h)
  · have hlt := lt_of_not_named hraw hnamed
    rw [createEscape_control hraw hnamed] at h
    simp only [List.mem_cons, List.not_mem_nil, or_false] at h
    rcases h with rfl | rfl | rfl | rfl | rfl | rfl
    · decide
    · decide
    · exact le_hexdigits 0 (by decide)
    · exact le_hexdigits 0 (by decide)
    · exact le_hexdigits _ (by omega)
    · exact le_hexdigits _ (by omega)

theorem raw_or_escaped (c : UInt8) :
    (createEscape c = [c] ∧ c ≠ quote ∧ c ≠ backslash ∧ 0x20 ≤ c) ∨ Escaped c := by
  by_cases hraw : IsRaw c
  · exact Or.inl hraw.spec
  · right
    by_cases hnamed : IsNamed c
    · exact hnamed.escaped
    · exact escaped_control hraw hnamed

/-! ### Strings -/

theorem lt_of_isTrail {c : UInt8} (h : isTrail c = true) : ¬ c ≤ 0x7f := by
  have hand : c &&& 0xc0 = 0x80 := of_decide_eq_true h
  have hnat : (c &&& 0xc0).toNat = 0x80 := by
    rw [hand]
    rfl
  rw [UInt8.toNat_and] at hnat
  have hle : c.toNat &&& (0xc0 : UInt8).toNat ≤ c.toNat := Nat.and_le_left
  rw [UInt8.le_iff_toNat_le]
  change ¬ c.toNat ≤ 127
  omega

theorem createEscape_trail {c : UInt8} (h : isTrail c = true) : createEscape c = [c] := by
  rcases raw_or_escaped c with hraw | hescaped
  · exact hraw.1
  · exact absurd hescaped.1 (lt_of_isTrail h)

/-- What the writer puts for a character that does not trail does not trail. -/
theorem createEscape_head {c : UInt8} (h : isTrail c = false) :
    ∃ b e, createEscape c = b :: e ∧ isTrail b = false := by
  rcases raw_or_escaped c with hraw | ⟨-, e, he, -⟩
  · exact ⟨c, [], hraw.1, h⟩
  · exact ⟨backslash, e, he, rfl⟩

theorem transcodeTrail_stop {b : UInt8} (h : isTrail b = false) (k : ℕ) :
    transcodeTrail (k + 1) ⟨b :: rest, line, calls⟩ =
      .error (.jsonParserError "invalid code sequence" line) := by
  simp only [transcodeTrail, h]
  rfl

theorem createEscapes_cons (c : UInt8) (s : Str) :
    createEscapes (c :: s) = createEscape c ++ createEscapes s :=
  List.flatMap_cons

theorem parseChars_raw {c : UInt8} (hquote : c ≠ quote) (hback : c ≠ backslash) (n : ℕ) :
    parseChars (n + 1) ⟨c :: rest, line, calls⟩ =
      (transcodeCodepoint c rest ⟨c :: rest, line, calls⟩ >>= parseChars n) := by
  simp [parseChars, isQuote, isBackslash, hquote, hback]

theorem parseChars_backslash (n : ℕ) :
    parseChars (n + 1) ⟨backslash :: rest, line, calls⟩ =
      (parseEscape ⟨rest, line, calls⟩ >>= parseChars n) :=
  rfl

variable (rest line) in
/-- The induction over the string, with the trailing bytes that are due. -/
theorem parseChars_spec (s : Str) (k n : ℕ) (hn : s.length < n) (calls : List Call) :
    (transcodeTrail k ⟨createEscapes s ++ quote :: rest, line, calls⟩ >>= parseChars n) =
      reply line (structuredFrom k s) ⟨quote :: rest, line, calls ++ s.map .onCodeUnit⟩ := by
  induction s generalizing k n calls with
  | nil =>
      cases k with
      | zero =>
          obtain ⟨n, rfl⟩ : ∃ m, n = m + 1 := ⟨n - 1, by simp at hn; omega⟩
          simp [createEscapes, transcodeTrail, parseChars, isQuote, structuredFrom, reply, bind,
            Except.bind]
      | succ k =>
          rw [createEscapes, List.flatMap_nil, List.nil_append, transcodeTrail_stop rfl]
          rfl
  | cons c s ih =>
      rw [createEscapes_cons, List.append_assoc]
      cases k with
      | succ k =>
          cases htrail : isTrail c with
          | true =>
              rw [createEscape_trail htrail, List.singleton_append, transcodeTrail]
              simp only [htrail, if_true, Parser.call]
              rw [ih k n (by simp at hn; omega), List.map_cons, structuredFrom, htrail,
                Bool.true_and, List.append_assoc]
              rfl
          | false =>
              obtain ⟨b, e, he, hb⟩ := createEscape_head htrail
              rw [he, List.cons_append, transcodeTrail_stop hb, structuredFrom, htrail]
              rfl
      | zero =>
          obtain ⟨n, rfl⟩ : ∃ m, n = m + 1 := ⟨n - 1, by simp at hn; omega⟩
          have hs : s.length < n := by simpa using hn
          change parseChars (n + 1) _ = _
          rcases raw_or_escaped c with ⟨hraw, hquote, hback, hge⟩ | ⟨hle, e, he, hescape⟩
          · rw [hraw, List.singleton_append, parseChars_raw hquote hback, structuredFrom,
              transcodeCodepoint]
            split_ifs with hle hlt
            · exact absurd hlt (by rw [UInt8.not_lt]; exact hge)
            · exact (ih 0 n hs _).trans (by rw [List.append_assoc]; rfl)
            · cases htable : trailTable c with
              | none => rfl
              | some k => exact (ih k n hs _).trans (by rw [List.append_assoc]; rfl)
          · rw [he, List.cons_append, parseChars_backslash, hescape, structuredFrom, if_pos hle]
            exact (ih 0 n hs _).trans (by rw [List.append_assoc]; rfl)

theorem skipWs_cons {c : UInt8} (h : isWs c = false) :
    Parser.skipWs ⟨c :: rest, line, calls⟩ = ⟨c :: rest, line, calls⟩ := by
  simp [Parser.skipWs, whileHave, Parser.have_, h]

theorem have_self {c : UInt8} {is : UInt8 → Bool} (h : is c = true) (hnl : isNl c = false) :
    Parser.have_ is doNothing ⟨c :: rest, line, calls⟩ = (true, ⟨rest, line, calls⟩) := by
  simp [Parser.have_, h, Parser.next, hnl, doNothing]

theorem have_other {c : UInt8} {is : UInt8 → Bool} (h : is c = false)
    (action : UInt8 → List Call) :
    Parser.have_ is action ⟨c :: rest, line, calls⟩ = (false, ⟨c :: rest, line, calls⟩) := by
  simp [Parser.have_, h]

theorem length_le_length_createEscapes (s : Str) : s.length ≤ (createEscapes s).length := by
  induction s with
  | nil => exact Nat.zero_le _
  | cons c s ih =>
      have hpos : 0 < (createEscape c).length := by
        rcases raw_or_escaped c with ⟨hraw, -⟩ | ⟨-, e, he, -⟩
        · simp [hraw]
        · simp [he]
      rw [createEscapes_cons, List.length_append, List.length_cons]
      omega

theorem parseString_spec (s : Str) :
    parseString ⟨writeString s ++ rest, line, calls⟩ =
      reply line (structured s) (true, ⟨rest, line, calls ++ stringCalls s⟩) := by
  have hlen := length_le_length_createEscapes s
  rw [writeString, List.cons_append, List.cons_append, List.append_assoc, List.singleton_append,
    parseString, skipWs_cons rfl, have_self rfl rfl]
  have hchars := parseChars_spec rest line s 0
    ((createEscapes s ++ quote :: rest).length + 1) (by simp; omega) (calls ++ [.onBeginString])
  change parseChars _ _ = _ at hchars
  simp only [Parser.call, hchars]
  rw [reply_bind_ok (b := (true, ⟨rest, line, calls ++ stringCalls s⟩))]
  · rfl
  · simp [Parser.next, isNl, stringCalls, pure, Except.pure]
    decide

/-! ### Values -/

mutual

/-- The calls for a tree, by the cases of the writer. -/
def spell : Ptree → ℕ → List Call
  | .node data children, indent =>
      if 0 < indent ∧ children.isEmpty then stringCalls data
      else if 0 < indent ∧ children.countP (fun child => child.1 = []) = children.length then
        .onBeginArray :: spellItems children (indent + 1) ++ [.onEndArray]
      else .onBeginObject :: spellMembers children (indent + 1) ++ [.onEndObject]

def spellItems : List (Str × Ptree) → ℕ → List Call
  | [], _ => []
  | (_, child) :: children, indent => spell child indent ++ spellItems children indent

def spellMembers : List (Str × Ptree) → ℕ → List Call
  | [], _ => []
  | (key, child) :: children, indent =>
      stringCalls key ++ spell child indent ++ spellMembers children indent

end

/-- A part of the parser reads every text of the tree. -/
def ReadsTree (parse : Parser → Except Failure Parser) (indent : ℕ) (pt : Ptree) : Prop :=
  ∀ rest line calls, parse ⟨writeJsonHelper pt indent ++ rest, line, calls⟩ =
    reply line (treeStructured pt) ⟨rest, line, calls ++ spell pt indent⟩

variable (rest line) in
/-- What follows an item is a comma and more of them, or the end. -/
theorem parseItems_spec {parse : Parser → Except Failure Parser} {indent : ℕ}
    {children : List (Str × Ptree)} (hne : children ≠ [])
    (hkeys : ∀ child ∈ children, child.1 = [])
    (h : ∀ child ∈ children, ReadsTree parse indent child.2) (n : ℕ) (hn : children.length ≤ n)
    (calls : List Call) :
    parseItems parse n ⟨writeItems children indent ++ ']'.toUInt8 :: rest, line, calls⟩ =
      reply line (childrenStructured children)
        ⟨']'.toUInt8 :: rest, line, calls ++ spellItems children indent⟩ := by
  induction children generalizing n calls with
  | nil => exact absurd rfl hne
  | cons child children ih =>
      obtain ⟨key, child⟩ := child
      obtain ⟨hkey, hempty⟩ := List.forall_mem_cons.mp hkeys
      obtain ⟨hchild, hchildren⟩ := List.forall_mem_cons.mp h
      obtain ⟨n, rfl⟩ : ∃ m, n = m + 1 := ⟨n - 1, by simp at hn; omega⟩
      obtain rfl : key = [] := hkey
      rw [writeItems, parseItems, List.append_assoc, List.append_assoc, hchild, childrenStructured]
      rw [show structured [] = true from rfl, Bool.true_and]
      cases children with
      | nil =>
          rw [childrenStructured, Bool.and_true, spellItems, spellItems, List.append_nil]
          apply reply_bind_ok
          simp only [List.isEmpty_nil, if_true, writeItems, List.nil_append]
          rw [skipWs_cons rfl, have_other rfl]
          rfl
      | cons next children =>
          apply reply_bind
          simp only [List.isEmpty_cons, Bool.false_eq_true, if_false, List.singleton_append]
          rw [skipWs_cons rfl, have_self rfl rfl, spellItems, ← List.append_assoc]
          exact ih (List.cons_ne_nil _ _) hempty hchildren n (by simpa using hn) _

variable (rest line) in
theorem parseMembers_spec {parse : Parser → Except Failure Parser} {indent : ℕ}
    {children : List (Str × Ptree)} (hne : children ≠ [])
    (h : ∀ child ∈ children, ReadsTree parse indent child.2) (n : ℕ) (hn : children.length ≤ n)
    (calls : List Call) :
    parseMembers parse n ⟨writeMembers children indent ++ '\x7d'.toUInt8 :: rest, line, calls⟩ =
      reply line (childrenStructured children)
        ⟨'\x7d'.toUInt8 :: rest, line, calls ++ spellMembers children indent⟩ := by
  induction children generalizing n calls with
  | nil => exact absurd rfl hne
  | cons child children ih =>
      obtain ⟨key, child⟩ := child
      obtain ⟨hchild, hchildren⟩ := List.forall_mem_cons.mp h
      obtain ⟨n, rfl⟩ : ∃ m, n = m + 1 := ⟨n - 1, by simp at hn; omega⟩
      rw [writeMembers, parseMembers, List.append_assoc, List.append_assoc, List.append_assoc,
        parseString_spec, childrenStructured, Bool.and_assoc]
      apply reply_bind
      simp only [if_true, List.cons_append]
      rw [skipWs_cons rfl, Parser.expect, have_self rfl rfl]
      change (parse _ >>= _) = _
      rw [hchild]
      cases children with
      | nil =>
          rw [childrenStructured, Bool.and_true, spellMembers, spellMembers, List.append_nil,
            ← List.append_assoc calls]
          apply reply_bind_ok
          simp only [List.isEmpty_nil, if_true, writeMembers, List.nil_append]
          rw [skipWs_cons rfl, have_other rfl]
          rfl
      | cons next children =>
          apply reply_bind
          simp only [List.isEmpty_cons, Bool.false_eq_true, if_false, List.singleton_append]
          rw [skipWs_cons rfl, have_self rfl rfl, spellMembers, ← List.append_assoc calls,
            ← List.append_assoc calls]
          exact ih (List.cons_ne_nil _ _) hchildren n (by simpa using hn) _

/-- The characters that a written value begins with. -/
def BeginsValue (c : UInt8) : Prop := c = quote ∨ c = '['.toUInt8 ∨ c = '\x7b'.toUInt8

theorem BeginsValue.spec {c : UInt8} (h : BeginsValue c) :
    isWs c = false ∧ isChar ']' c = false ∧ isChar '\x7d' c = false := by
  rcases h with rfl | rfl | rfl <;> decide

theorem writeJsonHelper_begins (pt : Ptree) (indent : ℕ) :
    ∃ c text, writeJsonHelper pt indent = c :: text ∧ BeginsValue c := by
  cases pt with
  | node data children =>
      rw [writeJsonHelper]
      split_ifs
      · exact ⟨_, _, rfl, Or.inl rfl⟩
      · exact ⟨_, _, rfl, Or.inr (Or.inl rfl)⟩
      · exact ⟨_, _, rfl, Or.inr (Or.inr rfl)⟩

theorem writeItems_begins {children : List (Str × Ptree)} (hne : children ≠ []) (indent : ℕ) :
    ∃ c text, writeItems children indent = c :: text ∧ BeginsValue c := by
  cases children with
  | nil => exact absurd rfl hne
  | cons child children =>
      obtain ⟨c, text, htext, hc⟩ := writeJsonHelper_begins child.2 indent
      refine ⟨c, text ++ ((if children.isEmpty then [] else [','.toUInt8]) ++
        writeItems children indent), ?_, hc⟩
      rw [writeItems, htext, List.append_assoc, List.cons_append]

theorem writeMembers_begins {children : List (Str × Ptree)} (hne : children ≠ []) (indent : ℕ) :
    ∃ text, writeMembers children indent = quote :: text := by
  cases children with
  | nil => exact absurd rfl hne
  | cons child children => exact ⟨_, rfl⟩

/-- Each child takes a part of the text. -/
theorem length_writeItems (children : List (Str × Ptree)) (indent : ℕ) :
    children.length ≤ (writeItems children indent).length ∧ ∀ child ∈ children,
      (writeJsonHelper child.2 indent).length ≤ (writeItems children indent).length := by
  induction children with
  | nil => simp
  | cons child children ih =>
      obtain ⟨c, text, htext, -⟩ := writeJsonHelper_begins child.2 indent
      have hlen := congrArg List.length htext
      simp only [writeItems, List.length_append, List.length_cons, List.forall_mem_cons] at hlen ⊢
      refine ⟨by omega, by omega, fun other hother => ?_⟩
      have hle := ih.2 other hother
      omega

theorem length_writeMembers (children : List (Str × Ptree)) (indent : ℕ) :
    children.length ≤ (writeMembers children indent).length ∧ ∀ child ∈ children,
      (writeJsonHelper child.2 indent).length ≤ (writeMembers children indent).length := by
  induction children with
  | nil => simp
  | cons child children ih =>
      simp only [writeMembers, List.length_append, List.length_cons, List.forall_mem_cons]
      refine ⟨by omega, by omega, fun other hother => ?_⟩
      have hle := ih.2 other hother
      omega

theorem parseArray_spec {parse : Parser → Except Failure Parser} {indent : ℕ}
    {children : List (Str × Ptree)} (hne : children ≠ [])
    (hkeys : ∀ child ∈ children, child.1 = [])
    (h : ∀ child ∈ children, ReadsTree parse indent child.2) :
    parseArray parse
        ⟨'['.toUInt8 :: writeItems children indent ++ ']'.toUInt8 :: rest, line, calls⟩ =
      reply line (childrenStructured children) (true, ⟨rest, line,
        calls ++ (.onBeginArray :: spellItems children indent ++ [.onEndArray])⟩) := by
  obtain ⟨c, text, htext, hc⟩ := writeItems_begins hne indent
  obtain ⟨hws, hclose, -⟩ := hc.spec
  have hlen := (length_writeItems children indent).1
  rw [List.cons_append, parseArray, skipWs_cons rfl, have_self rfl rfl]
  have hitems := parseItems_spec rest line hne hkeys h
    ((writeItems children indent ++ ']'.toUInt8 :: rest).length + 1) (by simp; omega)
    (calls ++ [.onBeginArray])
  simp only [Parser.call]
  rw [htext, List.cons_append] at hitems ⊢
  rw [skipWs_cons hws, have_other hclose]
  simp only [hitems]
  apply reply_bind_ok
  rw [Parser.expect, have_self rfl rfl]
  simp [bind, Except.bind, pure, Except.pure]

theorem parseObject_spec {parse : Parser → Except Failure Parser} {indent : ℕ}
    {children : List (Str × Ptree)} (h : ∀ child ∈ children, ReadsTree parse indent child.2) :
    parseObject parse
        ⟨'\x7b'.toUInt8 :: writeMembers children indent ++ '\x7d'.toUInt8 :: rest, line, calls⟩ =
      reply line (childrenStructured children) (true, ⟨rest, line,
        calls ++ (.onBeginObject :: spellMembers children indent ++ [.onEndObject])⟩) := by
  rw [List.cons_append, parseObject, skipWs_cons rfl, have_self rfl rfl]
  by_cases hne : children = []
  · subst hne
    simp only [Parser.call, writeMembers, List.nil_append]
    rw [skipWs_cons rfl, have_self rfl rfl]
    simp [reply, childrenStructured, spellMembers]
  obtain ⟨text, htext⟩ := writeMembers_begins hne indent
  have hlen := (length_writeMembers children indent).1
  have hmembers := parseMembers_spec rest line hne h
    ((writeMembers children indent ++ '\x7d'.toUInt8 :: rest).length + 1) (by simp; omega)
    (calls ++ [.onBeginObject])
  simp only [Parser.call]
  rw [htext, List.cons_append] at hmembers ⊢
  rw [skipWs_cons rfl, have_other rfl]
  simp only [hmembers]
  apply reply_bind_ok
  rw [Parser.expect, have_self rfl rfl]
  simp [bind, Except.bind, pure, Except.pure]

/-! ### The alternatives of a value -/

theorem parseFirst_found {parse : Parser → Except Failure (Bool × Parser)}
    {parses : List (Parser → Except Failure (Bool × Parser))} {p p' : Parser} {valid : Bool}
    (h : parse p = reply line valid (true, p')) :
    parseFirst (parse :: parses) p = reply line valid p' := by
  rw [parseFirst, h]
  apply reply_bind_ok
  rfl

theorem parseFirst_other {parse : Parser → Except Failure (Bool × Parser)}
    {parses : List (Parser → Except Failure (Bool × Parser))} {p : Parser}
    (h : parse p = .ok (false, p)) : parseFirst (parse :: parses) p = parseFirst parses p := by
  rw [parseFirst, h]
  rfl

theorem parseObject_other {parse : Parser → Except Failure Parser} {c : UInt8}
    (hws : isWs c = false) (hc : isChar '\x7b' c = false) :
    parseObject parse ⟨c :: rest, line, calls⟩ = .ok (false, ⟨c :: rest, line, calls⟩) := by
  rw [parseObject, skipWs_cons hws, have_other hc]

theorem parseArray_other {parse : Parser → Except Failure Parser} {c : UInt8}
    (hws : isWs c = false) (hc : isChar '[' c = false) :
    parseArray parse ⟨c :: rest, line, calls⟩ = .ok (false, ⟨c :: rest, line, calls⟩) := by
  rw [parseArray, skipWs_cons hws, have_other hc]

theorem verifyChildren_iff (children : List (Str × Ptree)) (depth : ℕ) :
    verifyChildren children depth = true ↔ ∀ child ∈ children, verifyJson child.2 depth = true := by
  induction children with
  | nil => simp [verifyChildren]
  | cons child children ih => simp [verifyChildren, ih]

/-- What `verify_json` has checked. -/
structure Verified (data : Str) (children : List (Str × Ptree)) (depth : ℕ) : Prop where
  root : depth = 0 → data = []
  data : children ≠ [] → data = []
  children : ∀ child ∈ children, verifyJson child.2 (depth + 1) = true

theorem verified_of_verifyJson {data : Str} {children : List (Str × Ptree)} {depth : ℕ}
    (h : verifyJson (.node data children) depth = true) : Verified data children depth := by
  rw [verifyJson] at h
  split_ifs at h with hroot hdata
  refine ⟨?_, ?_, (verifyChildren_iff children _).mp h⟩
  · intro hdepth
    by_contra hne
    exact hroot ⟨hdepth, hne⟩
  · intro hchildren
    by_contra hne
    exact hdata ⟨hne, by simpa using hchildren⟩

/-- The induction over the tree: with more fuel than the text has characters, the parser reads
it. -/
theorem parseValue_spec (pt : Ptree) : ∀ indent n, verifyJson pt indent = true →
    (writeJsonHelper pt indent).length < n → ReadsTree (parseValue n) indent pt := by
  induction pt using Ptree.induction with
  | node data children ih =>
      intro indent n hverify hn rest line calls
      obtain ⟨hroot, hdata, hchildren⟩ := verified_of_verifyJson hverify
      obtain ⟨n, rfl⟩ : ∃ m, n = m + 1 := ⟨n - 1, by omega⟩
      rw [writeJsonHelper] at hn ⊢
      rw [parseValue, spell, treeStructured]
      have hread : ∀ child ∈ children, (writeJsonHelper child.2 (indent + 1)).length < n →
          ReadsTree (parseValue n) (indent + 1) child.2 := fun child hchild hlen =>
        ih child hchild (indent + 1) n (hchildren child hchild) hlen
      split_ifs at hn ⊢ with hempty hkeys
      · have hnil : children = [] := by simpa using hempty.2
        subst hnil
        rw [childrenStructured, Bool.and_true]
        refine (parseFirst_other (parseObject_other rfl rfl)).trans ?_
        refine (parseFirst_other (parseArray_other rfl rfl)).trans ?_
        exact parseFirst_found (parseString_spec data)
      · have hne : children ≠ [] := fun hnil => hempty ⟨hkeys.1, by simp [hnil]⟩
        have hlen := (length_writeItems children (indent + 1)).2
        rw [hdata hne, show structured [] = true from rfl, Bool.true_and]
        rw [List.append_assoc, List.singleton_append, List.cons_append,
          parseFirst_other (parseObject_other rfl rfl)]
        apply parseFirst_found
        apply parseArray_spec hne
        · simpa using hkeys.2
        · intro child hchild
          have hle := hlen child hchild
          simp only [List.length_append, List.length_cons] at hn
          exact hread child hchild (by omega)
      · have hnil : data = [] := by
          rcases Nat.eq_zero_or_pos indent with hzero | hpos
          · exact hroot hzero
          · exact hdata fun hnil => hempty ⟨hpos, by simp [hnil]⟩
        have hlen := (length_writeMembers children (indent + 1)).2
        rw [hnil, show structured [] = true from rfl, Bool.true_and]
        apply parseFirst_found
        rw [List.append_assoc, List.singleton_append]
        apply parseObject_spec
        intro child hchild
        have hle := hlen child hchild
        simp only [List.length_append, List.length_cons] at hn
        exact hread child hchild (by omega)

/-! ### One line -/

theorem le_of_mem_writeString {b : UInt8} {s : Str} (h : b ∈ writeString s) : 0x20 ≤ b := by
  simp only [writeString, List.cons_append, List.mem_cons, List.mem_append, List.not_mem_nil,
    or_false] at h
  rcases h with rfl | h | rfl
  · decide
  · obtain ⟨c, -, hc⟩ := List.mem_flatMap.mp h
    exact le_of_mem_createEscape hc
  · decide

theorem le_of_mem_comma {b : UInt8} {children : List (Str × Ptree)}
    (h : b ∈ (if children.isEmpty then [] else [','.toUInt8] : Str)) : 0x20 ≤ b := by
  split_ifs at h
  · cases h
  · rw [List.mem_singleton.mp h]
    decide

theorem le_of_mem_writeItems {children : List (Str × Ptree)} {indent : ℕ}
    (h : ∀ child ∈ children, ∀ b ∈ writeJsonHelper child.2 indent, 0x20 ≤ b) :
    ∀ b ∈ writeItems children indent, 0x20 ≤ b := by
  induction children with
  | nil => simp [writeItems]
  | cons child children ih =>
      obtain ⟨hchild, hchildren⟩ := List.forall_mem_cons.mp h
      simp only [writeItems, List.mem_append]
      rintro b ((hb | hb) | hb)
      · exact hchild b hb
      · exact le_of_mem_comma hb
      · exact ih hchildren b hb

theorem le_of_mem_writeMembers {children : List (Str × Ptree)} {indent : ℕ}
    (h : ∀ child ∈ children, ∀ b ∈ writeJsonHelper child.2 indent, 0x20 ≤ b) :
    ∀ b ∈ writeMembers children indent, 0x20 ≤ b := by
  induction children with
  | nil => simp [writeMembers]
  | cons child children ih =>
      obtain ⟨hchild, hchildren⟩ := List.forall_mem_cons.mp h
      simp only [writeMembers, List.mem_append, List.mem_cons]
      rintro b (((hb | rfl | hb) | hb) | hb)
      · exact le_of_mem_writeString hb
      · decide
      · exact hchild b hb
      · exact le_of_mem_comma hb
      · exact ih hchildren b hb

/-- Nothing that is written for a tree is a control character, whatever its strings are. -/
theorem le_of_mem_writeJsonHelper (pt : Ptree) :
    ∀ indent, ∀ b ∈ writeJsonHelper pt indent, 0x20 ≤ b := by
  induction pt using Ptree.induction with
  | node data children ih =>
      intro indent b
      have hchildren : ∀ child ∈ children, ∀ b ∈ writeJsonHelper child.2 (indent + 1), 0x20 ≤ b :=
        fun child hchild => ih child hchild (indent + 1)
      rw [writeJsonHelper]
      split_ifs
      · exact le_of_mem_writeString
      · simp only [List.cons_append, List.mem_cons, List.mem_append, List.not_mem_nil, or_false]
        rintro (rfl | hb | rfl)
        · decide
        · exact le_of_mem_writeItems hchildren b hb
        · decide
      · simp only [List.cons_append, List.mem_cons, List.mem_append, List.not_mem_nil, or_false]
        rintro (rfl | hb | rfl)
        · decide
        · exact le_of_mem_writeMembers hchildren b hb
        · decide

/-! ### The round trip -/

theorem spellItems_eq (children : List (Str × Ptree)) (indent : ℕ) :
    spellItems children indent =
      (children.map fun child => (spell child.2 indent, child.2)).flatMap Prod.fst := by
  induction children with
  | nil => rfl
  | cons child children ih =>
      rw [spellItems, ih]
      rfl

theorem spellMembers_eq (children : List (Str × Ptree)) (indent : ℕ) :
    spellMembers children indent =
      (children.map fun child => (child.1, spell child.2 indent, child.2)).flatMap
        fun member => stringCalls member.1 ++ member.2.1 := by
  induction children with
  | nil => rfl
  | cons child children ih =>
      rw [spellMembers, ih]
      rfl

/-- The calls for a tree spell this tree. -/
theorem spells_spell (pt : Ptree) :
    ∀ indent, verifyJson pt indent = true → Spells (spell pt indent) pt := by
  induction pt using Ptree.induction with
  | node data children ih =>
      intro indent hverify
      obtain ⟨hroot, hdata, hchildren⟩ := verified_of_verifyJson hverify
      have hspells : ∀ child ∈ children, Spells (spell child.2 (indent + 1)) child.2 :=
        fun child hchild => ih child hchild (indent + 1) (hchildren child hchild)
      rw [spell]
      split_ifs with hempty hkeys
      · have hnil : children = [] := by simpa using hempty.2
        rw [hnil]
        exact Spells.string data
      · have hne : children ≠ [] := fun hnil => hempty ⟨hkeys.1, by simp [hnil]⟩
        have hkeys' : ∀ child ∈ children, child.1 = [] := by simpa using hkeys.2
        have hself : children.map (fun child => (([] : Str), child.2)) = children := by
          conv_rhs => rw [← List.map_id children]
          exact List.map_congr_left fun child hchild => Prod.ext (hkeys' child hchild).symm rfl
        have harray := Spells.array
          (children.map fun child => (spell child.2 (indent + 1), child.2))
          (List.forall_mem_map.mpr hspells)
        rw [List.map_map, Function.comp_def, hself] at harray
        rw [hdata hne, spellItems_eq]
        exact harray
      · have hnil : data = [] := by
          rcases Nat.eq_zero_or_pos indent with hzero | hpos
          · exact hroot hzero
          · exact hdata fun hnil => hempty ⟨hpos, by simp [hnil]⟩
        have hobject := Spells.object
          (children.map fun child => (child.1, spell child.2 (indent + 1), child.2))
          (List.forall_mem_map.mpr hspells)
        rw [List.map_map, Function.comp_def, List.map_id'] at hobject
        rw [hnil, spellMembers_eq]
        exact hobject

theorem readJson_writeJsonHelper {pt : Ptree} (hverify : verifyJson pt 0 = true) :
    readJson (writeJsonHelper pt 0 ++ ['\n'.toUInt8]) = reply 1 (treeStructured pt) pt := by
  obtain ⟨c, text, htext, hc⟩ := writeJsonHelper_begins pt 0
  have hintro : skipIntroduction (writeJsonHelper pt 0 ++ ['\n'.toUInt8]) =
      writeJsonHelper pt 0 ++ ['\n'.toUInt8] := by
    rw [htext, List.cons_append, skipIntroduction, if_neg]
    rcases hc with rfl | rfl | rfl <;> decide
  have hvalue := parseValue_spec pt 0 ((writeJsonHelper pt 0 ++ ['\n'.toUInt8]).length + 1) hverify
    (by rw [List.length_append]; omega) ['\n'.toUInt8] 1 []
  rw [readJson, hintro]
  simp only [hvalue]
  apply reply_bind_ok
  rw [List.nil_append, root_of_spells (spells_spell pt 0 hverify)]
  rfl

/-- A tree that is written and read again is the same tree, exactly when each of its keys and data
has the structure of UTF-8. Otherwise the reader finds an invalid code sequence. -/
theorem readJson_writeJson (pt : Ptree) :
    (writeJson pt >>= readJson) =
      if verifyJson pt 0 then
        if treeStructured pt then .ok pt else .error (.jsonParserError "invalid code sequence" 1)
      else .error (.jsonParserError
        "ptree contains data that cannot be represented in JSON format" 0) := by
  rw [writeJson]
  cases hverify : verifyJson pt 0 with
  | true => exact readJson_writeJsonHelper hverify
  | false => rfl

end ForexSuite.JsonRoundTrip
