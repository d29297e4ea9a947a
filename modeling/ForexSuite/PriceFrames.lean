import ForexSuite.CodePages
import ForexSuite.JsonRoundTrip
import ForexSuite.PriceFeed

/-!
# The frames of the price feed

`sendJSONTick` puts the symbol and the prices of a tick into a tree and sends what
`write_json` makes of it. The symbol comes from the manager as a wide string and is
narrowed to UTF-8. So every frame is a line of its own, and a client that reads it has
the symbol and the texts of the prices. How a price is written is a parameter.
-/
namespace ForexSuite.PriceFrames

open JsonWriter JsonReader JsonReader.Parser JsonRoundTrip
open CodePages (narrow)
open PriceServer (ascii MTTickShort Price)

/-! ### Children by their keys -/

def putChild (key value : Str) : List (Str × Ptree) → List (Str × Ptree)
  | [] => [(key, .node value [])]
  | (k, child) :: children =>
      if k = key then (k, modifyData (fun _ => value) child) :: children
      else (k, child) :: putChild key value children

/-- `put`, for a path of one key: the first child with this key gets the datum, or a new one. -/
def put (key value : Str) : Ptree → Ptree
  | .node data children => .node data (putChild key value children)

/-- The datum of the first child with a key. -/
def get (key : Str) : Ptree → Option Str
  | .node _ children =>
      (children.find? fun child => child.1 = key).map fun child =>
        match child.2 with
        | .node data _ => data

theorem get_cons (key k data : Str) (grandchildren children : List (Str × Ptree)) (d : Str) :
    get key (.node d ((k, .node data grandchildren) :: children)) =
      if k = key then some data else get key (.node d children) := by
  rw [get, get, List.find?_cons]
  split_ifs with h
  · simp [h]
  · simp [h]

theorem get_put (key key' value : Str) (pt : Ptree) :
    get key' (put key value pt) = if key' = key then some value else get key' pt := by
  obtain ⟨d, children⟩ := pt
  rw [put]
  induction children with
  | nil =>
      rw [putChild, get_cons]
      simp [get, eq_comm]
  | cons child children ih =>
      obtain ⟨k, data, grandchildren⟩ := child
      rw [putChild]
      split_ifs with hkey hk hk
      · rw [modifyData, get_cons, hkey, hk, if_pos rfl]
      · rw [modifyData, get_cons, get_cons, hkey, if_neg (Ne.symm hk), if_neg (Ne.symm hk)]
      · rw [get_cons, ih, hk, if_neg hkey, if_pos rfl]
      · rw [get_cons, get_cons, ih, if_neg hk]

/-! ### Narrowed symbols -/

theorem structured_utf8EncodeChar (c : Char) : structured (String.utf8EncodeChar c) = true := by
  have htrail : ∀ m < 0x40, isTrail (UInt8.ofNat (m + 0x80)) = true := by decide
  have htwo : ∀ m < 0x20, ¬ UInt8.ofNat (m + 0xc0) ≤ 0x7f ∧
      trailTable (UInt8.ofNat (m + 0xc0)) = some 1 := by decide
  have hthree : ∀ m < 0x10, ¬ UInt8.ofNat (m + 0xe0) ≤ 0x7f ∧
      trailTable (UInt8.ofNat (m + 0xe0)) = some 2 := by decide
  have hfour : ∀ m < 0x08, ¬ UInt8.ofNat (m + 0xf0) ≤ 0x7f ∧
      trailTable (UInt8.ofNat (m + 0xf0)) = some 3 := by decide
  have hrest (n : ℕ) : isTrail (UInt8.ofNat (n % 0x40 + 0x80)) = true :=
    htrail _ (Nat.mod_lt _ (by decide))
  unfold String.utf8EncodeChar
  generalize c.val.toNat = v
  simp only
  split_ifs with h1 h2 h3
  · refine structured_of_isAscii (List.forall_mem_singleton.mpr ?_)
    rw [UInt8.le_iff_toNat_le]
    simp
    omega
  · obtain ⟨hc, htable⟩ := htwo (v / 64 % 0x20) (Nat.mod_lt _ (by decide))
    exact structured_leading hc htable (by simp only [structuredFrom, hrest]; rfl)
  · obtain ⟨hc, htable⟩ := hthree (v / 4096 % 0x10) (Nat.mod_lt _ (by decide))
    exact structured_leading hc htable (by simp only [structuredFrom, hrest]; rfl)
  · obtain ⟨hc, htable⟩ := hfour (v / 262144 % 0x08) (Nat.mod_lt _ (by decide))
    exact structured_leading hc htable (by simp only [structuredFrom, hrest]; rfl)

theorem structured_narrow (t : List Char) : structured (narrow t) = true := by
  induction t with
  | nil => rfl
  | cons c t ih =>
      rw [narrow, List.flatMap_cons]
      exact structuredFrom_append (structured_utf8EncodeChar c) ih

/-! ### Quotes -/

/-- The tree of `sendJSONTick`. `toStr` writes a price as the stream does. -/
def quoteTree (toStr : Price → Str) (symbol : Str) (tick : MTTickShort) : Ptree :=
  put (ascii "askPx") (toStr tick.ask)
    (put (ascii "bidPx") (toStr tick.bid) (put (ascii "symbol") symbol .empty))

theorem quoteTree_eq (toStr : Price → Str) (symbol : Str) (tick : MTTickShort) :
    quoteTree toStr symbol tick =
      .node [] [(ascii "symbol", .node symbol []), (ascii "bidPx", .node (toStr tick.bid) []),
        (ascii "askPx", .node (toStr tick.ask) [])] :=
  rfl

/-- Every quote is sent as one line of JSON, whatever its symbol is, and read as its symbol and the
texts of its prices. -/
theorem quote_frame (toStr : Price → Str) (hascii : ∀ price, IsAscii (toStr price))
    (symbol : List Char) (tick : MTTickShort) :
    ∃ line, writeJson (quoteTree toStr (narrow symbol) tick) = .ok (line ++ ['\n'.toUInt8]) ∧
      (∀ c ∈ line, 0x20 ≤ c) ∧
      ∃ pt, readJson (line ++ ['\n'.toUInt8]) = .ok pt ∧
        get (ascii "symbol") pt = some (narrow symbol) ∧
        get (ascii "bidPx") pt = some (toStr tick.bid) ∧
        get (ascii "askPx") pt = some (toStr tick.ask) := by
  have hverify : verifyJson (quoteTree toStr (narrow symbol) tick) 0 = true := by
    simp [quoteTree_eq, verifyJson, verifyChildren]
  have hstructured : treeStructured (quoteTree toStr (narrow symbol) tick) = true := by
    have hprice (price : Price) : structured (toStr price) = true :=
      structured_of_isAscii (hascii price)
    have hkey : structured (ascii "symbol") = true ∧ structured (ascii "bidPx") = true ∧
        structured (ascii "askPx") = true := by decide +kernel
    simp [quoteTree_eq, treeStructured, childrenStructured, hprice, hkey, structured_narrow,
      show structured [] = true from rfl]
  have hread := readJson_writeJsonHelper hverify
  rw [hstructured] at hread
  refine ⟨_, if_pos hverify, le_of_mem_writeJsonHelper _ 0, _, hread, ?_, ?_, ?_⟩
  · rw [quoteTree, get_put, get_put, get_put]
    rfl
  · rw [quoteTree, get_put, get_put, get_put]
    rfl
  · rw [quoteTree, get_put, get_put, get_put]
    rfl

/-- The two prices of a tick of EURUSD. -/
def onePrice (price : Price) : Str := if price = 1 then ascii "1" else ascii "2"

theorem quote_frame_eurusd :
    ∃ line, writeJson (quoteTree onePrice (narrow "EURUSD".toList) ⟨1, 2⟩) =
        .ok (line ++ ['\n'.toUInt8]) ∧
      (∀ c ∈ line, 0x20 ≤ c) ∧
      ∃ pt, readJson (line ++ ['\n'.toUInt8]) = .ok pt ∧
        get (ascii "symbol") pt = some (narrow "EURUSD".toList) ∧
        get (ascii "bidPx") pt = some (onePrice 1) ∧
        get (ascii "askPx") pt = some (onePrice 2) := by
  apply quote_frame onePrice _ "EURUSD".toList ⟨1, 2⟩
  intro price
  unfold onePrice
  split_ifs
  · exact List.forall_mem_singleton.mpr (by decide)
  · exact List.forall_mem_singleton.mpr (by decide)

end ForexSuite.PriceFrames
