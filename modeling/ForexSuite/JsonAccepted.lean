import Mathlib.Data.Nat.Basic
import Mathlib.Order.Basic
import ForexSuite.Exceptions
import ForexSuite.JsonRoundTrip

/-!
# What `read_json` accepts

On every text the reader ends, with a tree or with an error in a line of the text. The
calls that the parser makes on an accepted text spell a tree, its strings have the
structure of UTF-8, and no node has both a datum and children. So the tree can be written
again, unless the text was a single value, and reading it back gives the same tree.
-/
namespace ForexSuite.JsonAccepted

open Exceptions JsonWriter JsonReader JsonReader.Parser JsonCallbacks JsonRoundTrip

/-- The line that the end of the text is in. -/
def lines (p : Parser) : ℕ := p.line + p.cur.count '\n'.toUInt8

/-- An error in a line from `p` on. -/
def Fair (p : Parser) (f : Failure) : Prop :=
  ∃ message line, f = .jsonParserError message line ∧ p.line ≤ line ∧ line ≤ lines p

/-- From `p` the parser came to `p'`, without going back, and made these calls. -/
structure Emits (p p' : Parser) (calls : List Call) : Prop where
  length : p'.cur.length ≤ p.cur.length
  line : p.line ≤ p'.line
  lines : lines p' ≤ lines p
  calls : p'.calls = p.calls ++ calls

/-- The same, and it has taken a character at least. -/
structure Takes (p p' : Parser) (calls : List Call) : Prop extends Emits p p' calls where
  lt : p'.cur.length < p.cur.length

variable {p p' p'' : Parser} {calls calls' : List Call} {is : UInt8 → Bool}
  {action : UInt8 → List Call}

theorem Emits.refl (p : Parser) : Emits p p [] :=
  ⟨le_rfl, le_rfl, le_rfl, (List.append_nil _).symm⟩

theorem Emits.trans (h : Emits p p' calls) (h' : Emits p' p'' calls') :
    Emits p p'' (calls ++ calls') :=
  ⟨h'.length.trans h.length, h.line.trans h'.line, h'.lines.trans h.lines,
    by rw [h'.calls, h.calls, List.append_assoc]⟩

theorem Takes.emits (h : Takes p p' calls) (h' : Emits p' p'' calls') :
    Takes p p'' (calls ++ calls') :=
  ⟨h.toEmits.trans h', h'.length.trans_lt h.lt⟩

theorem Emits.takes (h : Emits p p' calls) (h' : Takes p' p'' calls') :
    Takes p p'' (calls ++ calls') :=
  ⟨h.trans h'.toEmits, h'.lt.trans_le h.length⟩

theorem Emits.call (h : Emits p p' calls) (c : Call) : Emits p (p'.call c) (calls ++ [c]) :=
  ⟨h.length, h.line, h.lines, by rw [Parser.call, h.calls, List.append_assoc]⟩

theorem Fair.of_emits {f : Failure} (h : Fair p' f) (hp : Emits p p' calls) : Fair p f := by
  obtain ⟨message, line, hf, hfirst, hlast⟩ := h
  exact ⟨message, line, hf, hp.line.trans hfirst, hlast.trans hp.lines⟩

/-- What happens after a part of the parser happens after it started. -/
theorem ends_of_emits {α : Type} {R : α → Prop} {x : Except Failure α}
    (h : Ends (Fair p') R x) (hp : Emits p p' calls) : Ends (Fair p) R x :=
  h.mono (fun _ hf => hf.of_emits hp) fun _ ha => ha

theorem parseError_ends {α : Type} {R : α → Prop} (msg : String) (p : Parser) :
    Ends (Fair p) R (p.parseError msg : Except Failure α) :=
  ⟨msg, p.line, rfl, le_rfl, Nat.le_add_right _ _⟩

/-! ### The source -/

theorem next_takes {c : UInt8} {cur : Str} (h : p.cur = c :: cur) :
    Takes p p.next [] ∧ p.next.cur = cur := by
  have hnext : p.next = { p with cur, line := if isNl c then p.line + 1 else p.line } := by
    rw [Parser.next, h]
  rw [hnext]
  refine ⟨⟨⟨?_, ?_, ?_, (List.append_nil _).symm⟩, ?_⟩, rfl⟩
  · simp [h]
  · simp only
    split_ifs <;> omega
  · rw [lines, lines, h, List.count_cons]
    simp only [isNl, beq_iff_eq, decide_eq_true_eq]
    split_ifs <;> omega
  · simp [h]

theorem have_cases (is : UInt8 → Bool) (action : UInt8 → List Call) (p : Parser) :
    (∃ c p', p.have_ is action = (true, p') ∧ is c = true ∧ Takes p p' (action c)) ∨
      p.have_ is action = (false, p) := by
  rw [Parser.have_]
  cases hcur : p.cur with
  | nil => exact Or.inr rfl
  | cons c cur =>
      simp only
      cases his : is c with
      | false => exact Or.inr rfl
      | true =>
          left
          refine ⟨c, _, rfl, his, ?_⟩
          have hcalls : Emits p { p with calls := p.calls ++ action c } (action c) :=
            ⟨le_rfl, le_rfl, le_rfl, rfl⟩
          have hnext := (next_takes (p := { p with calls := p.calls ++ action c }) hcur).1
          have htakes := hcalls.takes hnext
          rw [List.append_nil] at htakes
          rw [← hcur]
          exact htakes

theorem expect_ends (is : UInt8 → Bool) (msg : String) (action : UInt8 → List Call) (p : Parser) :
    Ends (Fair p) (fun p' => ∃ c, is c = true ∧ Takes p p' (action c))
      (p.expect is msg action) := by
  rw [Parser.expect]
  rcases have_cases is action p with ⟨c, p', hhave, hc, htakes⟩ | hhave
  · rw [hhave]
    exact ⟨c, hc, htakes⟩
  · rw [hhave]
    exact parseError_ends msg p

theorem whileHave_emits (is : UInt8 → Bool) (action : UInt8 → List Call) (n : ℕ) (p : Parser) :
    ∃ cs : Str, (∀ c ∈ cs, is c = true) ∧
      Emits p (whileHave is action n p) (cs.flatMap action) := by
  induction n generalizing p with
  | zero => exact ⟨[], by simp, Emits.refl p⟩
  | succ n ih =>
      rw [whileHave]
      rcases have_cases is action p with ⟨c, p', hhave, hc, htakes⟩ | hhave
      · obtain ⟨cs, hcs, hemits⟩ := ih p'
        rw [hhave]
        exact ⟨c :: cs, List.forall_mem_cons.mpr ⟨hc, hcs⟩, htakes.toEmits.trans hemits⟩
      · rw [hhave]
        exact ⟨[], by simp, Emits.refl p⟩

theorem skipWs_emits (p : Parser) : Emits p p.skipWs [] := by
  obtain ⟨cs, -, hemits⟩ := whileHave_emits isWs doNothing p.cur.length p
  have hnone : cs.flatMap doNothing = [] := List.flatMap_eq_nil_iff.mpr fun _ _ => rfl
  rw [hnone] at hemits
  exact hemits

/-! ### Values that have been read -/

/-- A tree that can be written below the root and read again. -/
def Good (pt : Ptree) : Prop :=
  treeStructured pt = true ∧ ∀ depth, verifyJson pt (depth + 1) = true

/-- From `p` to `p'` the parser has read a value. -/
def Valued (p p' : Parser) : Prop := ∃ calls pt, Spells calls pt ∧ Good pt ∧ Takes p p' calls

/-- The parser has read a value of some kind, or there is none of this kind. -/
def Tried (p : Parser) (r : Bool × Parser) : Prop :=
  if r.1 then Valued p r.2 else Emits p r.2 []

theorem good_leaf {s : Str} (h : structured s = true) : Good (.node s []) :=
  ⟨by simp [treeStructured, h, childrenStructured],
    fun depth => by simp [verifyJson, verifyChildren]⟩

theorem good_node {children : List (Str × Ptree)}
    (h : ∀ child ∈ children, structured child.1 = true ∧ Good child.2) :
    Good (.node [] children) := by
  constructor
  · rw [treeStructured, show structured [] = true from rfl, Bool.true_and, childrenStructured_iff]
    exact fun child hchild => ⟨(h child hchild).1, (h child hchild).2.1⟩
  · intro depth
    rw [verifyJson, if_neg (by simp), if_neg (by simp), verifyChildren_iff]
    exact fun child hchild => (h child hchild).2.2 (depth + 1)

/-! ### Literals and numbers -/

theorem expectAll_ends (msg : String) (chs : List Char) (p : Parser) :
    Ends (Fair p) (fun p' => Emits p p' []) (p.expectAll msg chs) := by
  induction chs generalizing p with
  | nil => exact Emits.refl p
  | cons ch chs ih =>
      rw [expectAll]
      apply (expect_ends (isChar ch) msg doNothing p).bind
      rintro p' ⟨c, -, htakes⟩
      refine (ends_of_emits (ih p') htakes.toEmits).mono (fun _ hf => hf) ?_
      exact fun p'' hemits => htakes.toEmits.trans hemits

/-- A literal that begins with this character. -/
theorem literal_tried {msg : String} {chs : List Char} {call : Call} {pt : Ptree}
    (hspells : Spells [call] pt) (hgood : Good pt) {p p' : Parser} (htakes : Takes p p' []) :
    Ends (Fair p) (Tried p) (do
      let p ← p'.expectAll msg chs
      return (true, p.call call)) := by
  apply (ends_of_emits (expectAll_ends msg chs p') htakes.toEmits).bind
  intro p'' hemits
  exact ⟨[call], pt, hspells, hgood, htakes.emits (hemits.call call)⟩

theorem parseNull_tried (p : Parser) : Ends (Fair p) (Tried p) p.parseNull := by
  have hskip := skipWs_emits p
  rw [parseNull]
  rcases have_cases (isChar 'n') doNothing p.skipWs with ⟨c, p', hhave, -, htakes⟩ | hhave
  · rw [hhave]
    exact literal_tried Spells.null (good_leaf (by decide)) (hskip.takes htakes)
  · rw [hhave]
    exact hskip

theorem parseBoolean_tried (p : Parser) : Ends (Fair p) (Tried p) p.parseBoolean := by
  have hskip := skipWs_emits p
  rw [parseBoolean]
  rcases have_cases (isChar 't') doNothing p.skipWs with ⟨c, p', hhave, -, htakes⟩ | hhave
  · rw [hhave]
    exact literal_tried (Spells.boolean true) (good_leaf (by decide)) (hskip.takes htakes)
  rw [hhave]
  simp only
  rcases have_cases (isChar 'f') doNothing p.skipWs with ⟨c, p', hhave, -, htakes⟩ | hhave
  · rw [hhave]
    exact literal_tried (Spells.boolean false) (good_leaf (by decide)) (hskip.takes htakes)
  · rw [hhave]
    exact hskip

/-- What the number adapter calls for the digits. -/
def digitCalls (first : Bool) (ds : Str) : List Call :=
  if first then .onBeginNumber :: ds.map .onDigit else ds.map .onDigit

theorem le_of_isDigit {c : UInt8} (h : isDigit c = true) : c ≤ 0x7f := by
  simp only [isDigit, decide_eq_true_eq] at h
  exact UInt8.le_trans h.2 (by decide)

theorem parseDigits_emits (p : Parser) :
    ∃ ds : Str, IsAscii ds ∧ Emits p p.parseDigits (ds.map .onDigit) := by
  obtain ⟨ds, hds, hemits⟩ := whileHave_emits isDigit (digit false) p.cur.length p
  have hcalls : ds.flatMap (digit false) = ds.map .onDigit := by
    rw [List.map_eq_flatMap]
    rfl
  rw [hcalls] at hemits
  exact ⟨ds, fun c hc => le_of_isDigit (hds c hc), hemits⟩

theorem digit_append (first : Bool) (c : UInt8) (ds : Str) :
    digit first c ++ ds.map .onDigit = digitCalls first (c :: ds) := by
  cases first <;> rfl

theorem digitCalls_append (first : Bool) (ds ds' : Str) :
    digitCalls first ds ++ ds'.map .onDigit = digitCalls first (ds ++ ds') := by
  cases first <;> simp [digitCalls]

theorem parseFracPart_ends (p : Parser) :
    Ends (Fair p) (fun p' => ∃ ds : Str, IsAscii ds ∧ Emits p p' (ds.map .onDigit))
      p.parseFracPart := by
  rw [parseFracPart]
  rcases have_cases (isChar '.') (digit false) p with ⟨c, p', hhave, hc, htakes⟩ | hhave
  · rw [hhave]
    apply (ends_of_emits (expect_ends isDigit _ (digit false) p') htakes.toEmits).bind
    rintro p'' ⟨d, hd, htakes'⟩
    obtain ⟨ds, hds, hemits⟩ := parseDigits_emits p''
    refine ⟨c :: d :: ds, ?_, (htakes.toEmits.trans htakes'.toEmits).trans hemits⟩
    have hdot : c = '.'.toUInt8 := of_decide_eq_true hc
    exact List.forall_mem_cons.mpr ⟨by rw [hdot]; decide,
      List.forall_mem_cons.mpr ⟨le_of_isDigit hd, hds⟩⟩
  · rw [hhave]
    exact ⟨[], by simp [IsAscii], Emits.refl p⟩

theorem parseExpPart_ends (p : Parser) :
    Ends (Fair p) (fun p' => ∃ ds : Str, IsAscii ds ∧ Emits p p' (ds.map .onDigit))
      p.parseExpPart := by
  have hsign (p : Parser) : ∃ ds : Str, IsAscii ds ∧
      Emits p (p.have_ isPlusminus (digit false)).2 (ds.map .onDigit) := by
    rcases have_cases isPlusminus (digit false) p with ⟨c, p', hhave, hc, htakes⟩ | hhave
    · rw [hhave]
      refine ⟨[c], List.forall_mem_singleton.mpr ?_, htakes.toEmits⟩
      rcases of_decide_eq_true hc with rfl | rfl <;> decide
    · rw [hhave]
      exact ⟨[], by simp [IsAscii], Emits.refl p⟩
  rw [parseExpPart]
  rcases have_cases isEE (digit false) p with ⟨c, p', hhave, hc, htakes⟩ | hhave
  · rw [hhave]
    obtain ⟨sign, hascii, hemits⟩ := hsign p'
    have hfirst := htakes.toEmits.trans hemits
    apply (ends_of_emits (expect_ends isDigit _ (digit false) _) hfirst).bind
    rintro p'' ⟨d, hd, htakes'⟩
    obtain ⟨ds, hds, hemits'⟩ := parseDigits_emits p''
    refine ⟨c :: (sign ++ d :: ds), ?_, ?_⟩
    · have hc7 : c ≤ 0x7f := by
        rcases of_decide_eq_true hc with rfl | rfl <;> decide
      refine List.forall_mem_cons.mpr ⟨hc7, List.forall_mem_append.mpr ⟨hascii, ?_⟩⟩
      exact List.forall_mem_cons.mpr ⟨le_of_isDigit hd, hds⟩
    · have hall := (hfirst.trans htakes'.toEmits).trans hemits'
      simpa [digit] using hall
  · rw [hhave]
    exact ⟨[], by simp [IsAscii], Emits.refl p⟩

/-- The digits in front of a fraction and an exponent. -/
theorem parseIntPart_cases (first : Bool) (p : Parser) :
    (∃ ds p', p.parseIntPart first = (true, p') ∧ IsAscii ds ∧ Takes p p' (digitCalls first ds)) ∨
      p.parseIntPart first = (false, p) := by
  rw [parseIntPart]
  rcases have_cases isDigit0 (digit first) p with ⟨c, p', hhave, hc, htakes⟩ | hhave
  · left
    obtain ⟨ds, hds, hemits⟩ := parseDigits_emits p'
    rw [hhave]
    refine ⟨c :: ds, _, rfl, List.forall_mem_cons.mpr ⟨?_, hds⟩, ?_⟩
    · simp only [isDigit0, decide_eq_true_eq] at hc
      exact UInt8.le_trans hc.2 (by decide)
    · rw [← digit_append]
      exact htakes.emits hemits
  · rw [hhave]
    exact Or.inr rfl

theorem parseZeroOrInt_cases (first : Bool) (p : Parser) :
    (∃ ds p', p.parseZeroOrInt first = (true, p') ∧ IsAscii ds ∧
        Takes p p' (digitCalls first ds)) ∨
      p.parseZeroOrInt first = (false, p) := by
  rw [parseZeroOrInt]
  rcases have_cases (isChar '0') (digit first) p with ⟨c, p', hhave, hc, htakes⟩ | hhave
  · left
    have hzero : c = '0'.toUInt8 := of_decide_eq_true hc
    rw [hhave]
    refine ⟨[c], p', rfl, List.forall_mem_singleton.mpr (by rw [hzero]; decide), ?_⟩
    have hdigit := digit_append first c []
    rw [List.map_nil, List.append_nil] at hdigit
    rw [← hdigit]
    exact htakes
  · rw [hhave]
    exact parseIntPart_cases first p

/-- The rest of a number whose first digits have been read. -/
theorem number_tried {p p' : Parser} {ds : Str} (hds : IsAscii ds)
    (htakes : Takes p p' (digitCalls true ds)) :
    Ends (Fair p) (Tried p) (do
      let p ← p'.parseFracPart
      let p ← p.parseExpPart
      return (true, p.call .onEndNumber)) := by
  apply (ends_of_emits (parseFracPart_ends p') htakes.toEmits).bind
  rintro p'' ⟨frac, hfrac, hemits⟩
  have htakes' := htakes.emits hemits
  rw [digitCalls_append] at htakes'
  apply (ends_of_emits (parseExpPart_ends p'') htakes'.toEmits).bind
  rintro q ⟨exp, hexp, hemits'⟩
  have hq := htakes'.emits (hemits'.call .onEndNumber)
  rw [← List.append_assoc, digitCalls_append] at hq
  have hall : IsAscii (ds ++ frac ++ exp) :=
    List.forall_mem_append.mpr ⟨List.forall_mem_append.mpr ⟨hds, hfrac⟩, hexp⟩
  exact ⟨_, _, Spells.number _, good_leaf (structured_of_isAscii hall), hq⟩

theorem parseNumber_tried (p : Parser) : Ends (Fair p) (Tried p) p.parseNumber := by
  have hskip := skipWs_emits p
  rw [parseNumber]
  rcases have_cases (isChar '-') (digit true) p.skipWs with ⟨c, p', hhave, hc, htakes⟩ | hhave
  · rw [hhave]
    have hminus : c = '-'.toUInt8 := of_decide_eq_true hc
    simp only [Bool.not_true]
    rcases parseZeroOrInt_cases false p' with ⟨ds, p'', hint, hds, htakes'⟩ | hint
    · rw [hint]
      have hall := (hskip.takes htakes).emits htakes'.toEmits
      have hcalls : digit true c ++ digitCalls false ds = digitCalls true (c :: ds) := rfl
      rw [List.nil_append, hcalls] at hall
      apply number_tried (List.forall_mem_cons.mpr ⟨by rw [hminus]; decide, hds⟩) hall
    · rw [hint]
      exact ends_of_emits (parseError_ends _ p') (hskip.trans htakes.toEmits)
  · rw [hhave]
    simp only [Bool.not_false]
    rcases parseZeroOrInt_cases true p.skipWs with ⟨ds, p'', hint, hds, htakes'⟩ | hint
    · rw [hint]
      exact number_tried hds (hskip.takes htakes')
    · rw [hint]
      exact hskip

/-! ### Strings -/

/-- The parser has read characters with the structure of UTF-8. -/
def Feeds (p p' : Parser) : Prop :=
  ∃ s : Str, structured s = true ∧ Takes p p' (s.map .onCodeUnit)

theorem transcodeTrail_ends (k : ℕ) (p : Parser) :
    Ends (Fair p) (fun p' => ∃ s : Str, structuredFrom k s = true ∧
      Emits p p' (s.map .onCodeUnit)) (transcodeTrail k p) := by
  induction k generalizing p with
  | zero => exact ⟨[], rfl, Emits.refl p⟩
  | succ k ih =>
      rw [transcodeTrail]
      cases hcur : p.cur with
      | nil => exact parseError_ends _ p
      | cons c cur =>
          simp only
          split_ifs with htrail
          · have hemits : Emits p ({ p with cur }.call (.onCodeUnit c)) [.onCodeUnit c] := by
              refine ⟨by simp [hcur, Parser.call], le_rfl, ?_, rfl⟩
              simp only [lines, Parser.call, hcur, List.count_cons]
              omega
            refine (ends_of_emits (ih _) hemits).mono (fun _ hf => hf) ?_
            rintro p' ⟨s, hs, hrest⟩
            refine ⟨c :: s, ?_, hemits.trans hrest⟩
            rw [structuredFrom, htrail, hs]
            rfl
          · exact parseError_ends _ p

theorem transcodeCodepoint_ends {c : UInt8} {cur : Str} (hcur : p.cur = c :: cur) :
    Ends (Fair p) (Feeds p) (p.transcodeCodepoint c cur) := by
  have htakes : Takes p ({ p with cur }.call (.onCodeUnit c)) [.onCodeUnit c] := by
    refine ⟨⟨by simp [hcur, Parser.call], le_rfl, ?_, rfl⟩, by simp [hcur, Parser.call]⟩
    simp only [lines, Parser.call, hcur, List.count_cons]
    omega
  rw [transcodeCodepoint]
  split_ifs with hle hlt
  · exact parseError_ends _ p
  · exact ⟨[c], structured_of_isAscii (List.forall_mem_singleton.mpr hle), htakes⟩
  · cases htable : trailTable c with
    | none => exact parseError_ends _ p
    | some k =>
        refine (ends_of_emits (transcodeTrail_ends k _) htakes.toEmits).mono (fun _ hf => hf) ?_
        rintro p' ⟨s, hs, hemits⟩
        refine ⟨c :: s, ?_, htakes.emits hemits⟩
        rw [structured, structuredFrom, if_neg hle, htable]
        exact hs

theorem isTrail_trail (n : ℕ) : isTrail (trail n) = true := by
  have hall : ∀ m < 0x40, isTrail (0x80 ||| m).toUInt8 = true := by decide
  exact hall _ (Nat.and_lt_two_pow n (by decide : 0x3f < 2 ^ 6))

/-- A code point is encoded with the structure of UTF-8. -/
theorem structured_feedCodepoint (n : ℕ) : structured (feedCodepoint n) = true := by
  have htwo : ∀ m < 0x20, ¬ (0xc0 ||| m).toUInt8 ≤ 0x7f ∧
      trailTable (0xc0 ||| m).toUInt8 = some 1 := by decide
  have hthree : ∀ m < 0x10, ¬ (0xe0 ||| m).toUInt8 ≤ 0x7f ∧
      trailTable (0xe0 ||| m).toUInt8 = some 2 := by decide
  have hfour : ∀ m < 5, ¬ (0xf0 ||| m).toUInt8 ≤ 0x7f ∧
      trailTable (0xf0 ||| m).toUInt8 = some 3 := by decide
  rw [feedCodepoint]
  split_ifs with h1 h2 h3 h4
  · refine structured_of_isAscii (List.forall_mem_singleton.mpr ?_)
    rw [UInt8.le_iff_toNat_le]
    simp
    omega
  · obtain ⟨hc, htable⟩ := htwo (n >>> 6) (by rw [Nat.shiftRight_eq_div_pow]; omega)
    exact structured_leading hc htable (by simp [structuredFrom, isTrail_trail])
  · obtain ⟨hc, htable⟩ := hthree (n >>> 12) (by rw [Nat.shiftRight_eq_div_pow]; omega)
    exact structured_leading hc htable (by simp [structuredFrom, isTrail_trail])
  · obtain ⟨hc, htable⟩ := hfour (n >>> 18) (by rw [Nat.shiftRight_eq_div_pow]; omega)
    exact structured_leading hc htable (by simp [structuredFrom, isTrail_trail])
  · rfl

theorem Takes.feed (h : Takes p p' []) (codepoint : ℕ) : Feeds p (p'.feed codepoint) :=
  ⟨feedCodepoint codepoint, structured_feedCodepoint codepoint,
    ⟨h.length, h.line, h.lines, by rw [Parser.feed, h.calls, List.append_nil]⟩, h.lt⟩

theorem parseHexQuad_ends (n codepoint : ℕ) (p : Parser) :
    Ends (Fair p) (fun r => Emits p r.2 []) (parseHexQuad n codepoint p) := by
  induction n generalizing codepoint p with
  | zero => exact Emits.refl p
  | succ n ih =>
      rw [parseHexQuad]
      cases hcur : p.cur with
      | nil => exact parseError_ends _ p
      | cons c cur =>
          simp only
          cases hvalue : decodeHexdigit c with
          | none => exact parseError_ends _ p
          | some value =>
              have hnext := (next_takes hcur).1.toEmits
              refine (ends_of_emits (ih _ p.next) hnext).mono (fun _ hf => hf) ?_
              exact fun r hemits => hnext.trans hemits

theorem parseCodepointRef_ends {p p' : Parser} (htakes : Takes p p' []) :
    Ends (Fair p) (Feeds p) p'.parseCodepointRef := by
  rw [parseCodepointRef]
  apply (ends_of_emits (parseHexQuad_ends 4 0 p') htakes.toEmits).bind
  rintro ⟨codepoint, q⟩ hemits
  have hq := htakes.emits hemits
  simp only
  split_ifs with hlow hhigh
  · exact ends_of_emits (parseError_ends _ q) hq.toEmits
  · apply (ends_of_emits (expect_ends isBackslash _ doNothing q) hq.toEmits).bind
    rintro q' ⟨c, -, hback⟩
    have hq' := hq.emits hback.toEmits
    apply (ends_of_emits (expect_ends (isChar 'u') _ doNothing q') hq'.toEmits).bind
    rintro q'' ⟨c', -, hu⟩
    have hq'' := hq'.emits hu.toEmits
    apply (ends_of_emits (parseHexQuad_ends 4 0 q'') hq''.toEmits).bind
    rintro ⟨low, r⟩ hemits'
    have hr := hq''.emits hemits'
    simp only
    split_ifs
    · exact hr.feed _
    · exact ends_of_emits (parseError_ends _ r) hr.toEmits
  · exact hq.feed codepoint

theorem parseEscape_ends {p p' : Parser} (htakes : Takes p p' []) :
    Ends (Fair p) (Feeds p) p'.parseEscape := by
  rw [parseEscape]
  cases hcur : p'.cur with
  | nil => exact ends_of_emits (parseError_ends _ p') htakes.toEmits
  | cons c cur =>
      have hnext := htakes.emits (next_takes hcur).1.toEmits
      simp only
      cases hescape : escapes.lookup c with
      | some codepoint => exact hnext.feed codepoint
      | none =>
          simp only
          split_ifs
          · exact parseCodepointRef_ends hnext
          · exact ends_of_emits (parseError_ends _ p') htakes.toEmits

/-- With more fuel than characters the loop comes to the quote that ends the string. -/
theorem parseChars_ends (n : ℕ) (p : Parser) (hn : p.cur.length < n) :
    Ends (Fair p) (fun p' => ∃ s : Str, structured s = true ∧ Emits p p' (s.map .onCodeUnit) ∧
      ∃ c cur, p'.cur = c :: cur) (parseChars n p) := by
  induction n generalizing p with
  | zero => omega
  | succ n ih =>
      have hgo {p' : Parser} (hfeeds : Feeds p p') :
          Ends (Fair p) (fun p' => ∃ s : Str, structured s = true ∧
            Emits p p' (s.map .onCodeUnit) ∧ ∃ c cur, p'.cur = c :: cur) (parseChars n p') := by
        obtain ⟨s, hs, htakes⟩ := hfeeds
        have hlt := htakes.lt
        refine (ends_of_emits (ih p' (by omega)) htakes.toEmits).mono (fun _ hf => hf) ?_
        rintro p'' ⟨s', hs', hemits, hcur⟩
        refine ⟨s ++ s', structuredFrom_append hs hs', ?_, hcur⟩
        rw [List.map_append]
        exact htakes.toEmits.trans hemits
      rw [parseChars]
      cases hcur : p.cur with
      | nil => exact parseError_ends _ p
      | cons c cur =>
          simp only
          split_ifs
          · exact ⟨[], rfl, Emits.refl p, c, cur, hcur⟩
          · exact (parseEscape_ends (next_takes hcur).1).bind fun p' hfeeds => hgo hfeeds
          · exact (transcodeCodepoint_ends hcur).bind fun p' hfeeds => hgo hfeeds

/-- A string, as a value or as a key. -/
theorem parseString_ends (p : Parser) :
    Ends (Fair p) (fun r => if r.1 then ∃ s, structured s = true ∧ Takes p r.2 (stringCalls s)
      else Emits p r.2 []) p.parseString := by
  have hskip := skipWs_emits p
  rw [parseString]
  rcases have_cases isQuote doNothing p.skipWs with ⟨c, p', hhave, -, htakes⟩ | hhave
  · rw [hhave]
    have hbegin := (hskip.takes htakes).emits ((Emits.refl p').call .onBeginString)
    apply (ends_of_emits (parseChars_ends (p'.cur.length + 1) (p'.call .onBeginString)
      (Nat.lt_succ_self _)) hbegin.toEmits).bind
    rintro q ⟨s, hs, hemits, c, cur, hcur⟩
    have hnext := (next_takes (p := q.call .onEndString) hcur).1
    have hq := (hbegin.emits (hemits.call .onEndString)).emits hnext.toEmits
    refine ⟨s, hs, ?_⟩
    simpa [doNothing, stringCalls] using hq
  · rw [hhave]
    exact hskip

theorem parseString_tried (p : Parser) : Ends (Fair p) (Tried p) p.parseString := by
  apply (parseString_ends p).mono (fun _ hf => hf)
  rintro ⟨found, p'⟩ h
  cases found with
  | true =>
      obtain ⟨s, hs, htakes⟩ := h
      exact ⟨_, _, Spells.string s, good_leaf hs, htakes⟩
  | false => exact h

/-! ### Arrays and objects -/

/-- Reads a value from every place with fewer characters left. -/
def ReadsBelow (parse : Parser → Except Failure Parser) (n : ℕ) : Prop :=
  ∀ p, p.cur.length < n → Ends (Fair p) (Valued p) (parse p)

theorem parseItems_ends {parse : Parser → Except Failure Parser} {bound : ℕ}
    (h : ReadsBelow parse bound) (n : ℕ) (p : Parser) (hp : p.cur.length < bound)
    (hn : p.cur.length < n) :
    Ends (Fair p) (fun p' => ∃ items : List (List Call × Ptree),
      (∀ item ∈ items, Spells item.1 item.2 ∧ Good item.2) ∧
        Emits p p' (items.flatMap Prod.fst)) (parseItems parse n p) := by
  induction n generalizing p with
  | zero => omega
  | succ n ih =>
      rw [parseItems]
      apply (h p hp).bind
      rintro p' ⟨calls, pt, hspells, hgood, htakes⟩
      have hskip := htakes.emits (skipWs_emits p')
      rw [List.append_nil] at hskip
      rcases have_cases (isChar ',') doNothing p'.skipWs with ⟨c, q, hhave, -, hcomma⟩ | hhave
      · rw [hhave]
        have hq := hskip.emits hcomma.toEmits
        have hlt := hq.lt
        refine (ends_of_emits (ih q (by omega) (by omega)) hq.toEmits).mono (fun _ hf => hf) ?_
        rintro p'' ⟨items, hitems, hemits⟩
        refine ⟨(calls, pt) :: items, List.forall_mem_cons.mpr ⟨⟨hspells, hgood⟩, hitems⟩, ?_⟩
        have hall := hq.toEmits.trans hemits
        simpa [doNothing] using hall
      · rw [hhave]
        refine ⟨[(calls, pt)], List.forall_mem_singleton.mpr ⟨hspells, hgood⟩, ?_⟩
        simpa using hskip.toEmits

theorem parseMembers_ends {parse : Parser → Except Failure Parser} {bound : ℕ}
    (h : ReadsBelow parse bound) (n : ℕ) (p : Parser) (hp : p.cur.length < bound)
    (hn : p.cur.length < n) :
    Ends (Fair p) (fun p' => ∃ members : List (Str × List Call × Ptree),
      (∀ m ∈ members, structured m.1 = true ∧ Spells m.2.1 m.2.2 ∧ Good m.2.2) ∧
        Emits p p' (members.flatMap fun m => stringCalls m.1 ++ m.2.1))
      (parseMembers parse n p) := by
  induction n generalizing p with
  | zero => omega
  | succ n ih =>
      rw [parseMembers]
      apply (parseString_ends p).bind
      rintro ⟨found, p₁⟩ hkey
      cases found with
      | false => exact ends_of_emits (parseError_ends _ p₁) hkey
      | true =>
          obtain ⟨key, hkey, htakes⟩ := hkey
          simp only [if_true]
          have hskip := htakes.emits (skipWs_emits p₁)
          apply (ends_of_emits (expect_ends (isChar ':') _ doNothing p₁.skipWs) hskip.toEmits).bind
          rintro p₂ ⟨c, -, hcolon⟩
          have hcolon := hskip.emits hcolon.toEmits
          have hlt := hcolon.lt
          apply (ends_of_emits (h p₂ (by omega)) hcolon.toEmits).bind
          rintro p₃ ⟨calls, pt, hspells, hgood, hvalue⟩
          have hmember := (hcolon.emits hvalue.toEmits).emits (skipWs_emits p₃)
          rcases have_cases (isChar ',') doNothing p₃.skipWs with ⟨c', q, hhave, -, hcomma⟩ | hhave
          · rw [hhave]
            have hq := hmember.emits hcomma.toEmits
            have hlt := hq.lt
            refine (ends_of_emits (ih q (by omega) (by omega)) hq.toEmits).mono (fun _ hf => hf) ?_
            rintro p' ⟨members, hmembers, hemits⟩
            refine ⟨(key, calls, pt) :: members,
              List.forall_mem_cons.mpr ⟨⟨hkey, hspells, hgood⟩, hmembers⟩, ?_⟩
            have hall := hq.toEmits.trans hemits
            simpa [doNothing] using hall
          · rw [hhave]
            refine ⟨[(key, calls, pt)], List.forall_mem_singleton.mpr ⟨hkey, hspells, hgood⟩, ?_⟩
            simpa [doNothing] using hmember.toEmits

theorem good_items (items : List (List Call × Ptree))
    (h : ∀ item ∈ items, Spells item.1 item.2 ∧ Good item.2) :
    Good (.node [] (items.map fun item => ([], item.2))) :=
  good_node (List.forall_mem_map.mpr fun item hitem => ⟨rfl, (h item hitem).2⟩)

theorem good_members (members : List (Str × List Call × Ptree))
    (h : ∀ m ∈ members, structured m.1 = true ∧ Spells m.2.1 m.2.2 ∧ Good m.2.2) :
    Good (.node [] (members.map fun m => (m.1, m.2.2))) :=
  good_node (List.forall_mem_map.mpr fun m hm => ⟨(h m hm).1, (h m hm).2.2⟩)

theorem parseArray_tried {parse : Parser → Except Failure Parser} {p : Parser}
    (h : ReadsBelow parse p.cur.length) : Ends (Fair p) (Tried p) (parseArray parse p) := by
  have hskip := skipWs_emits p
  rw [parseArray]
  rcases have_cases (isChar '[') doNothing p.skipWs with ⟨c, p', hhave, -, htakes⟩ | hhave
  · rw [hhave]
    have hbegin := ((hskip.takes htakes).emits ((Emits.refl p').call .onBeginArray)).emits
      (skipWs_emits _)
    have hlt := hbegin.lt
    simp only
    rcases have_cases (isChar ']') doNothing (p'.call .onBeginArray).skipWs with
      ⟨c', q, hhave, -, hclose⟩ | hhave
    · rw [hhave]
      have hend := hbegin.emits (hclose.toEmits.call .onEndArray)
      exact ⟨_, _, Spells.array [] (by simp), good_items [] (by simp),
        by simpa [doNothing] using hend⟩
    · rw [hhave]
      apply (ends_of_emits (parseItems_ends h _ _ hlt (Nat.lt_succ_self _)) hbegin.toEmits).bind
      rintro q ⟨items, hitems, hemits⟩
      have hq := hbegin.emits hemits
      apply (ends_of_emits (expect_ends (isChar ']') _ doNothing q) hq.toEmits).bind
      rintro q' ⟨c', -, hclose⟩
      have hend := hq.emits (hclose.toEmits.call .onEndArray)
      exact ⟨_, _, Spells.array items fun item hitem => (hitems item hitem).1,
        good_items items hitems, by simpa [doNothing] using hend⟩
  · rw [hhave]
    exact hskip

theorem parseObject_tried {parse : Parser → Except Failure Parser} {p : Parser}
    (h : ReadsBelow parse p.cur.length) : Ends (Fair p) (Tried p) (parseObject parse p) := by
  have hskip := skipWs_emits p
  rw [parseObject]
  rcases have_cases (isChar '\x7b') doNothing p.skipWs with ⟨c, p', hhave, -, htakes⟩ | hhave
  · rw [hhave]
    have hbegin := ((hskip.takes htakes).emits ((Emits.refl p').call .onBeginObject)).emits
      (skipWs_emits _)
    have hlt := hbegin.lt
    simp only
    rcases have_cases (isChar '\x7d') doNothing (p'.call .onBeginObject).skipWs with
      ⟨c', q, hhave, -, hclose⟩ | hhave
    · rw [hhave]
      have hend := hbegin.emits (hclose.toEmits.call .onEndObject)
      exact ⟨_, _, Spells.object [] (by simp), good_members [] (by simp),
        by simpa [doNothing] using hend⟩
    · rw [hhave]
      apply (ends_of_emits (parseMembers_ends h _ _ hlt (Nat.lt_succ_self _)) hbegin.toEmits).bind
      rintro q ⟨members, hmembers, hemits⟩
      have hq := hbegin.emits hemits
      apply (ends_of_emits (expect_ends (isChar '\x7d') _ doNothing q) hq.toEmits).bind
      rintro q' ⟨c', -, hclose⟩
      have hend := hq.emits (hclose.toEmits.call .onEndObject)
      exact ⟨_, _, Spells.object members fun m hm => (hmembers m hm).2.1,
        good_members members hmembers, by simpa [doNothing] using hend⟩
  · rw [hhave]
    exact hskip

/-! ### Values -/

theorem parseFirst_ends {parses : List (Parser → Except Failure (Bool × Parser))} (bound : ℕ)
    (h : ∀ parse ∈ parses, ∀ p, p.cur.length ≤ bound → Ends (Fair p) (Tried p) (parse p))
    (p : Parser) (hp : p.cur.length ≤ bound) : Ends (Fair p) (Valued p) (parseFirst parses p) := by
  induction parses generalizing p with
  | nil => exact parseError_ends _ p
  | cons parse parses ih =>
      obtain ⟨hparse, hparses⟩ := List.forall_mem_cons.mp h
      rw [parseFirst]
      apply (hparse p hp).bind
      rintro ⟨found, p'⟩ htried
      cases found with
      | true => exact htried
      | false =>
          have hemits : Emits p p' [] := htried
          refine (ends_of_emits (ih hparses p' (hemits.length.trans hp)) hemits).mono
            (fun _ hf => hf) ?_
          rintro p'' ⟨calls, pt, hspells, hgood, htakes⟩
          exact ⟨calls, pt, hspells, hgood, hemits.takes htakes⟩

/-- More fuel than characters is enough for the values that are nested in a value. -/
theorem parseValue_ends (n : ℕ) : ReadsBelow (parseValue n) n := by
  induction n with
  | zero =>
      intro p hp
      omega
  | succ n ih =>
      have hbelow {p : Parser} (hp : p.cur.length ≤ n) :
          ReadsBelow (parseValue n) p.cur.length := fun q hq => ih q (by omega)
      intro p hp
      rw [parseValue]
      apply parseFirst_ends n _ p (by omega)
      intro parse hparse q hq
      simp only [List.mem_cons, List.not_mem_nil, or_false] at hparse
      rcases hparse with rfl | rfl | rfl | rfl | rfl | rfl
      · exact parseObject_tried (hbelow hq)
      · exact parseArray_tried (hbelow hq)
      · exact parseString_tried q
      · exact parseBoolean_tried q
      · exact parseNull_tried q
      · exact parseNumber_tried q

theorem finish_ends (p : Parser) : Ends (Fair p) (fun _ => True) p.finish := by
  rw [Parser.finish]
  split_ifs
  · trivial
  · exact ends_of_emits (parseError_ends _ _) (skipWs_emits p)

theorem count_skipIntroduction (text : Str) (c : UInt8) :
    (skipIntroduction text).count c ≤ text.count c := by
  cases text with
  | nil => exact le_rfl
  | cons b text =>
      rw [skipIntroduction]
      split_ifs
      · exact (List.drop_sublist 3 (b :: text)).count_le c
      · exact le_rfl

/-- An error in one of the lines of a text. -/
def InText (text : Str) (f : Failure) : Prop :=
  ∃ message line, f = .jsonParserError message line ∧ 1 ≤ line ∧
    line ≤ 1 + text.count '\n'.toUInt8

theorem readJson_ends (text : Str) : Ends (InText text) Good (readJson text) := by
  have hcount := count_skipIntroduction text '\n'.toUInt8
  have hfair (f : Failure) (hf : Fair ⟨skipIntroduction text, 1, []⟩ f) : InText text f := by
    obtain ⟨message, line, hf, hfirst, hlast⟩ := hf
    rw [lines] at hlast
    exact ⟨message, line, hf, hfirst, by simp only at hlast; omega⟩
  rw [readJson]
  refine Ends.mono ?_ hfair fun _ h => h
  apply (parseValue_ends _ ⟨skipIntroduction text, 1, []⟩ (Nat.lt_succ_self _)).bind
  rintro p ⟨calls, pt, hspells, hgood, htakes⟩
  apply (ends_of_emits (finish_ends p) htakes.toEmits).bind
  intro _ _
  have hroot := root_of_spells hspells
  have hcalls : p.calls = calls := htakes.calls
  rw [hcalls]
  rw [← hroot] at hgood
  exact hgood

/-- The reader ends on every text, with a tree or with an error in one of its lines. -/
theorem readJson_total (text : Str) :
    (∃ pt, readJson text = .ok pt) ∨
      ∃ message line, readJson text = .error (.jsonParserError message line) ∧ 1 ≤ line ∧
        line ≤ 1 + text.count '\n'.toUInt8 := by
  rcases (readJson_ends text).ok_or_error with ⟨pt, hpt, -⟩ | ⟨f, hf, message, line, rfl, hline⟩
  · exact Or.inl ⟨pt, hpt⟩
  · exact Or.inr ⟨message, line, hf, hline⟩

/-- Below the root the depth does not matter. -/
theorem verifyJson_below (pt : Ptree) :
    ∀ depth, verifyJson pt (depth + 2) = true → verifyJson pt (depth + 1) = true := by
  induction pt using Ptree.induction with
  | node data children ih =>
      intro depth h
      obtain ⟨-, hdata, hchildren⟩ := verified_of_verifyJson h
      rw [verifyJson, if_neg (by simp),
        if_neg fun hboth => hboth.1 (hdata (by simpa using hboth.2)), verifyChildren_iff]
      exact fun child hchild => ih child hchild (depth + 1) (hchildren child hchild)

/-- What was read from a text, whatever its layout, its escapes and its kinds of values were, can be
written, unless it is a single value; and what is written then is read as the same tree. -/
theorem reread (text : Str) {children : List (Str × Ptree)}
    (h : readJson text = .ok (.node [] children)) :
    ∃ text', writeJson (.node [] children) = .ok text' ∧
      readJson text' = .ok (.node [] children) := by
  have hgood : Good (.node [] children) := by
    have hends := readJson_ends text
    rw [h] at hends
    exact hends
  have hverify : verifyJson (.node [] children) 0 = true := by
    rw [verifyJson, if_neg (by simp), if_neg (by simp), verifyChildren_iff]
    have hchildren := (verified_of_verifyJson (hgood.2 0)).children
    exact fun child hchild => verifyJson_below child.2 0 (hchildren child hchild)
  have hread := readJson_writeJsonHelper hverify
  rw [hgood.1] at hread
  exact ⟨_, if_pos hverify, hread⟩

/-- `[ 1.5, "A" ]` comes back as `["1.5","A"]`. -/
theorem reread_twoItems :
    ∃ text', writeJson (.node [] [([], .node [0x31, 0x2e, 0x35] []), ([], .node [0x41] [])]) =
        .ok text' ∧
      readJson text' = .ok (.node [] [([], .node [0x31, 0x2e, 0x35] []), ([], .node [0x41] [])]) :=
  reread [0x5b, 0x20, 0x31, 0x2e, 0x35, 0x2c, 0x20, 0x22, 0x5c, 0x75, 0x30, 0x30, 0x34, 0x31, 0x22,
    0x20, 0x5d] rfl

end ForexSuite.JsonAccepted
