import ForexSuite.Exceptions
import ForexSuite.Getline
import ForexSuite.OrderBook
import ForexSuite.TextDoubles
import ForexSuite.TextNumbers

/-!
# The log of the order book

The constructor of `MarketData` reads a file line by line and splits each line at
the spaces. The second field says whether an order is inserted or erased, and lines
that say something else are skipped. Nothing asks how many fields a line has, and no
exception of a conversion is caught.

The book holds rational prices. Which one stands for an infinity or a NaN is left open,
since no line is read differently for it.
-/
namespace ForexSuite.OrderLog

open TextNumbers TextDoubles Exceptions Getline EventMachine OrderBook

/-- What ends the constructor early: an index past the end of a vector, or an exception. -/
inductive IngestFault where
  | pastEnd (index : ℕ)
  | thrown (e : NumberError)
deriving Repr, DecidableEq

def subscript (splittedStrings : List Text) (i : ℕ) : Except IngestFault Text :=
  match splittedStrings[i]? with
  | some item => .ok item
  | none => .error (.pastEnd i)

/-- A conversion of the field with the given number. -/
def convert {α : Type} (conversion : Text → Except NumberError α) (splittedStrings : List Text)
    (i : ℕ) : Except IngestFault α := do
  let item ← subscript splittedStrings i
  (conversion item).mapError .thrown

def insertKind : Text := "I".toList
def eraseKind : Text := "E".toList

variable (underflows : ℚ → Bool) (stand : Double → ℚ)

def priceOf : Double → ℚ
  | .finite q => q
  | d => stand d

/-- The body of the loop over the lines, up to the call that it makes. C++ leaves the order open in
which the arguments of the call are converted. Here it is from left to right, which decides only
which fault comes first where several arguments have one. -/
def readLine (str : Text) : Except IngestFault (Option Entry) := do
  let splittedStrings := getlines ' ' str
  let kind ← subscript splittedStrings 1
  if kind = insertKind then
    let timestamp ← convert stoi splittedStrings 0
    let id ← convert stoi splittedStrings 2
    let price ← convert (stod underflows) splittedStrings 3
    return some (.insert timestamp id (priceOf stand price))
  else if kind = eraseKind then
    let timestamp ← convert stoi splittedStrings 0
    let id ← convert stoi splittedStrings 2
    return some (.erase timestamp id)
  else return none

def readLines : List Text → MarketData → Except IngestFault MarketData
  | [], s => .ok s
  | str :: lines, s => do
      match ← readLine underflows stand str with
      | some e => readLines lines (step s e).1
      | none => readLines lines s

/-- A file that cannot be opened has no lines. -/
def linesOf : Option Text → List Text
  | some file => getlines '\n' file
  | none => []

/-- The constructor, from the text of the file. -/
def marketData (inputfile : Option Text) : Except IngestFault MarketData :=
  readLines underflows stand (linesOf inputfile) .new

/-! ### What a line says -/

/-- The field with this number starts with an integer in the range of `int`. -/
def IntAt (fields : List Text) (i : ℕ) (n : ℤ) : Prop :=
  ∃ field, fields[i]? = some field ∧ StartsWithInteger field n ∧ InInt n

/-- The field with this number starts with a double in range. -/
def PriceAt (fields : List Text) (i : ℕ) (price : ℚ) : Prop :=
  ∃ field d, fields[i]? = some field ∧ stod underflows field = .ok d ∧ price = priceOf stand d

/-- A line with these fields is an insert, an erase, or a line to be skipped. -/
inductive Says (fields : List Text) : Option Entry → Prop
  | insert {timestamp id : ℤ} {price : ℚ} :
      fields[1]? = some insertKind → IntAt fields 0 timestamp → IntAt fields 2 id →
      PriceAt underflows stand fields 3 price → Says fields (some (.insert timestamp id price))
  | erase {timestamp id : ℤ} :
      fields[1]? = some eraseKind → IntAt fields 0 timestamp → IntAt fields 2 id →
      Says fields (some (.erase timestamp id))
  | skip {kind : Text} :
      fields[1]? = some kind → kind ≠ insertKind → kind ≠ eraseKind → Says fields none

variable {underflows stand}

theorem subscript_eq_ok_iff {fields : List Text} {i : ℕ} {field : Text} :
    subscript fields i = .ok field ↔ fields[i]? = some field := by
  unfold subscript
  cases fields[i]? <;> simp

theorem convert_eq_ok_iff {α : Type} {conversion : Text → Except NumberError α}
    {fields : List Text} {i : ℕ} {a : α} :
    convert conversion fields i = .ok a ↔
      ∃ field, fields[i]? = some field ∧ conversion field = .ok a := by
  simp only [convert, bind_eq_ok_iff, subscript_eq_ok_iff, mapError_eq_ok_iff]

theorem convert_stoi_eq_ok_iff {fields : List Text} {i : ℕ} {n : ℤ} :
    convert stoi fields i = .ok n ↔ IntAt fields i n := by
  simp only [convert_eq_ok_iff, stoi_eq_ok_iff, IntAt]

/-- Whether a field is a price is decided by how it starts and by the range. -/
theorem exists_priceAt_iff {fields : List Text} {i : ℕ} :
    (∃ price, PriceAt underflows stand fields i price) ↔
      ∃ field, fields[i]? = some field ∧ StartsWithDouble field ∧
        ∀ d, scanDouble field = some d → d.InRange underflows := by
  constructor
  · rintro ⟨-, field, d, hfield, hd, -⟩
    exact ⟨field, hfield, exists_stod_iff.mp ⟨d, hd⟩⟩
  · rintro ⟨field, hfield, hstarts⟩
    obtain ⟨d, hd⟩ := exists_stod_iff.mpr hstarts
    exact ⟨_, field, d, hfield, hd, rfl⟩

theorem eraseKind_ne_insertKind : eraseKind ≠ insertKind := by decide

theorem readLine_eq_ok_iff {str : Text} {r : Option Entry} :
    readLine underflows stand str = .ok r ↔ Says underflows stand (getlines ' ' str) r := by
  unfold readLine
  simp only [bind_eq_ok_iff, subscript_eq_ok_iff]
  constructor
  · rintro ⟨kind, hkind, h⟩
    split_ifs at h with hinsert herase
    · subst hinsert
      simp only [bind_eq_ok_iff] at h
      obtain ⟨timestamp, ht, id, hid, d, hd, h⟩ := h
      cases h
      obtain ⟨field, hfield, hd⟩ := convert_eq_ok_iff.mp hd
      exact .insert hkind (convert_stoi_eq_ok_iff.mp ht) (convert_stoi_eq_ok_iff.mp hid)
        ⟨field, d, hfield, hd, rfl⟩
    · subst herase
      simp only [bind_eq_ok_iff] at h
      obtain ⟨timestamp, ht, id, hid, h⟩ := h
      cases h
      exact .erase hkind (convert_stoi_eq_ok_iff.mp ht) (convert_stoi_eq_ok_iff.mp hid)
    · cases h
      exact .skip hkind hinsert herase
  · intro h
    cases h with
    | insert hkind ht hid hprice =>
        obtain ⟨field, d, hfield, hd, rfl⟩ := hprice
        refine ⟨insertKind, hkind, ?_⟩
        rw [if_pos rfl, convert_stoi_eq_ok_iff.mpr ht, ok_bind, convert_stoi_eq_ok_iff.mpr hid,
          ok_bind, convert_eq_ok_iff.mpr ⟨field, hfield, hd⟩]
        rfl
    | erase hkind ht hid =>
        refine ⟨eraseKind, hkind, ?_⟩
        rw [if_neg eraseKind_ne_insertKind, if_pos rfl, convert_stoi_eq_ok_iff.mpr ht, ok_bind,
          convert_stoi_eq_ok_iff.mpr hid]
        rfl
    | skip hkind hinsert herase =>
        refine ⟨_, hkind, ?_⟩
        rw [if_neg hinsert, if_neg herase]
        rfl

/-- What the lines say is applied to the book in order. -/
theorem readLines_eq_ok_iff {lines : List Text} {s s' : MarketData} :
    readLines underflows stand lines s = .ok s' ↔
      ∃ results, List.Forall₂ (fun str r => Says underflows stand (getlines ' ' str) r) lines
          results ∧ s' = run step s results.reduceOption := by
  induction lines generalizing s with
  | nil =>
      rw [readLines, Except.ok.injEq]
      constructor
      · rintro rfl
        exact ⟨[], .nil, rfl⟩
      · rintro ⟨results, hresults, rfl⟩
        cases hresults
        rfl
  | cons str lines ih =>
      rw [readLines, bind_eq_ok_iff]
      constructor
      · rintro ⟨r, hr, hrest⟩
        rw [readLine_eq_ok_iff] at hr
        cases r with
        | none =>
            obtain ⟨results, hresults, rfl⟩ := ih.mp hrest
            exact ⟨none :: results, .cons hr hresults, rfl⟩
        | some e =>
            obtain ⟨results, hresults, rfl⟩ := ih.mp hrest
            exact ⟨some e :: results, .cons hr hresults, rfl⟩
      · rintro ⟨results, hresults, rfl⟩
        cases hresults with
        | @cons _ r _ results hr hresults =>
            refine ⟨r, readLine_eq_ok_iff.mpr hr, ?_⟩
            cases r with
            | none => exact ih.mpr ⟨results, hresults, rfl⟩
            | some e => exact ih.mpr ⟨results, hresults, rfl⟩

theorem exists_forall₂_iff {α β : Type} {R : α → β → Prop} {as : List α} :
    (∃ bs, List.Forall₂ R as bs) ↔ ∀ a ∈ as, ∃ b, R a b := by
  induction as with
  | nil => simp
  | cons a as ih =>
      rw [List.forall_mem_cons, ← ih]
      constructor
      · rintro ⟨bs, hbs⟩
        cases hbs with
        | @cons _ b _ bs hb hbs => exact ⟨⟨b, hb⟩, bs, hbs⟩
      · rintro ⟨⟨b, hb⟩, bs, hbs⟩
        exact ⟨b :: bs, .cons hb hbs⟩

/-- For every file, and whatever the C library reports of tiny numbers: the constructor returns
exactly if every line is an insert, an erase or a line to be skipped, and then the book is the one
after these inserts and erases. -/
theorem ingestion_is_total_iff (underflows : ℚ → Bool) (stand : Double → ℚ)
    (inputfile : Option Text) :
    ((∃ s, marketData underflows stand inputfile = .ok s) ↔
      ∀ str ∈ linesOf inputfile, ∃ r, Says underflows stand (getlines ' ' str) r) ∧
    ∀ s, marketData underflows stand inputfile = .ok s →
      ∃ results, List.Forall₂ (fun str r => Says underflows stand (getlines ' ' str) r)
          (linesOf inputfile) results ∧ s = run step .new results.reduceOption := by
  constructor
  · rw [← exists_forall₂_iff]
    constructor
    · rintro ⟨s, hs⟩
      obtain ⟨results, hresults, -⟩ := readLines_eq_ok_iff.mp hs
      exact ⟨results, hresults⟩
    · rintro ⟨results, hresults⟩
      exact ⟨_, readLines_eq_ok_iff.mpr ⟨results, hresults, rfl⟩⟩
  · intro s hs
    exact readLines_eq_ok_iff.mp hs

/-- The price "10" is read, whatever the C library reports of tiny numbers. -/
theorem ten_is_read (underflows : ℚ → Bool) : ∃ d, stod underflows "10".toList = .ok d := by
  refine exists_stod_iff.mpr ⟨Or.inl ⟨'1', ['0'], rfl, Or.inl rfl⟩, fun e he => ?_⟩
  rw [scanDouble_digits (by decide) (List.all_eq_true.mp rfl)] at he
  rw [← Option.some.inj he]
  exact natCast_inRange (by decide)

/-- An empty line behind an insert, an erase without an id, and a timestamp that is no number. -/
theorem short_lines_are_indexed :
    let ingest (file : String) : Except IngestFault MarketData :=
      marketData (fun _ => false) (fun _ => 0) (some file.toList)
    ingest "1000 I 100 10\n\n2000 E 100" = .error (.pastEnd 1) ∧
      ingest "4000 E" = .error (.pastEnd 2) ∧
      ingest "now E 100" = .error (.thrown .invalidArgument) := by
  obtain ⟨d, hd⟩ := ten_is_read fun _ => false
  have hinsert : readLine (fun _ => false) (fun _ => 0) "1000 I 100 10".toList =
      .ok (some (.insert 1000 100 (priceOf (fun _ => 0) d))) :=
    readLine_eq_ok_iff.mpr (.insert rfl (convert_stoi_eq_ok_iff.mp rfl)
      (convert_stoi_eq_ok_iff.mp rfl) ⟨_, d, rfl, hd, rfl⟩)
  intro ingest
  refine ⟨?_, rfl, rfl⟩
  change readLines _ _ ["1000 I 100 10".toList, [], "2000 E 100".toList] .new = _
  rw [readLines, hinsert]
  rfl

end ForexSuite.OrderLog
