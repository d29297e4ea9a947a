import ForexSuite.CopierLoading
import ForexSuite.StringSearch

/-!
# The string helpers of the trade copier

`Helper::split` goes through a text with `find`, from separator to separator;
`Split` and `Manager::split` take the items of a stream. They differ in an empty
last token, which the helper returns and the streams do not. `GetExeFolder` relies
on that token: it joins all tokens but the last.
-/
namespace ForexSuite.CopierHelper

open TextNumbers Exceptions Getline StringSearch

namespace Helper

def splitLoop (text : Text) (sep : Char) (tokens : List Text) (start : ℕ) :
    Except StringException (List Text) :=
  match _hfind : find text sep start with
  | some stop => do
      let token ← substr text start (some (stop - start))
      splitLoop text sep (tokens ++ [token]) (stop + 1)
  | none => do
      let token ← substr text start none
      .ok (tokens ++ [token])
termination_by text.length - start
decreasing_by
  have hbounds := find_bounds _hfind
  omega

def split (text : Text) (sep : Char) : Except StringException (List Text) :=
  splitLoop text sep [] 0

/-- `i < size() - 1`, where the size is unsigned: with no tokens it would hold of every `i`. -/
def belowLast (i : ℕ) : ℕ → Bool
  | 0 => true
  | last + 1 => i < last

/-- The loop of `GetExeFolder`, with the exception of `at`. -/
def joinLoop (res0Splited : List Text) (i : ℕ) (res : Text) : Except StringException Text :=
  if belowLast i res0Splited.length then
    match _htoken : res0Splited[i]? with
    | some token => joinLoop res0Splited (i + 1) (res ++ (token ++ ['\\']))
    | none => .error .outOfRange
  else .ok res
termination_by res0Splited.length - i
decreasing_by
  have hlt := (List.getElem?_eq_some_iff.mp _htoken).1
  omega

def getExeFolder (inStr : Text) : Except StringException Text := do
  let lastPos := findLastOf inStr '\\'
  let res0 ← substr inStr 0 (some (behind lastPos))
  let res0Splited ← split res0 '\\'
  joinLoop res0Splited 0 []

end Helper

/-- `Manager::split` of the history manager, the same loop as `Split`. -/
def Manager.split (strToSplit : Text) (delimeter : Char) : List Text :=
  getlines delimeter strToSplit

/-- The loop, from behind a separator: it adds the pieces of what is left. -/
theorem splitLoop_eq (sep : Char) (before rest : Text) (tokens : List Text) :
    Helper.splitLoop (before ++ rest) sep tokens before.length =
      .ok (tokens ++ rest.splitOn sep) := by
  induction rest using split_induction sep generalizing before tokens with
  | last rest hnone =>
      rw [Helper.splitLoop]
      split
      · next hfind =>
          rw [find_of_notMem before hnone] at hfind
          cases hfind
      · rw [substr_end, ok_bind, List.splitOn_eq_singleton hnone]
  | split item rest hitem ih =>
      rw [Helper.splitLoop]
      split
      · next stop hfind =>
          rw [find_append before rest hitem] at hfind
          cases hfind
          have hbefore : before ++ (item ++ sep :: rest) = before ++ (item ++ [sep]) ++ rest := by
            simp
          have hstart : before.length + item.length + 1 = (before ++ (item ++ [sep])).length := by
            simp [Nat.add_assoc]
          rw [Nat.add_sub_cancel_left, substr_append, ok_bind, hbefore, hstart,
            ih rest le_rfl, List.splitOn_append_cons_self_of_not_mem hitem]
          simp
      · next hfind =>
          rw [find_append before rest hitem] at hfind
          cases hfind

theorem split_eq (text : Text) (sep : Char) : Helper.split text sep = .ok (text.splitOn sep) :=
  splitLoop_eq sep [] text []

/-- For every text and separator: the helper returns, its tokens joined by the separator are the
text, none of them contains it, and there is one more than separators. Of these tokens the two
other splitters return all but an empty last one. -/
theorem splitters_agree (s : Text) (c : Char) :
    ∃ tokens, Helper.split s c = .ok tokens ∧ [c].intercalate tokens = s ∧
      (∀ token ∈ tokens, c ∉ token) ∧ tokens.length = s.count c + 1 ∧
      CopierPlugin.split s c = withoutEmptyEnd tokens ∧
      Manager.split s c = withoutEmptyEnd tokens := by
  have hgetlines : getlines c s = withoutEmptyEnd (s.splitOn c) := getlines_eq c s
  refine ⟨s.splitOn c, split_eq s c, List.intercalate_splitOn c, ?_, length_splitOn c s, ?_,
    hgetlines⟩
  · intro token htoken
    exact notMem_of_mem_splitOn htoken
  · rw [CopierPlugin.split, CopierLoading.splitLoop_eq]
    exact hgetlines

/-! ### The folder of a path -/

/-- The loop adds the tokens that are left but the last one, each with a backslash. -/
theorem joinLoop_eq (done rest : List Text) (last res : Text) :
    Helper.joinLoop (done ++ (rest ++ [last])) done.length res =
      .ok (res ++ rest.flatMap fun token => token ++ ['\\']) := by
  induction rest generalizing done res with
  | nil =>
      rw [Helper.joinLoop]
      simp [Helper.belowLast]
  | cons token rest ih =>
      have hbelow :
          Helper.belowLast done.length (done ++ (token :: rest ++ [last])).length = true := by
        simp [Helper.belowLast]
      have htokens : done ++ (token :: rest ++ [last]) = (done ++ [token]) ++ (rest ++ [last]) := by
        simp
      have hnext : done.length + 1 = (done ++ [token]).length := by simp
      rw [Helper.joinLoop, if_pos hbelow]
      split
      · next found hfound =>
          obtain rfl : token = found := by simpa using hfound
          rw [htokens, hnext, ih, List.flatMap_cons, List.append_assoc]
      · next hfound => simp at hfound

/-- A text whose tokens end with an empty one is joined to itself. -/
theorem joinLoop_splitOn {s : Text} {tokens : List Text} (h : s.splitOn '\\' = tokens ++ [[]]) :
    Helper.joinLoop (s.splitOn '\\') 0 [] = .ok s := by
  have hjoin := joinLoop_eq [] tokens [] []
  rw [List.nil_append, List.nil_append, ← intercalate_append_nil, ← h,
    List.intercalate_splitOn] at hjoin
  exact hjoin

theorem getExeFolder_of_prefix {folder rest : Text} {tokens : List Text}
    (hlast : behind (findLastOf (folder ++ rest) '\\') = folder.length)
    (htokens : folder.splitOn '\\' = tokens ++ [[]]) :
    Helper.getExeFolder (folder ++ rest) = .ok folder := by
  have hsubstr : substr (folder ++ rest) 0 (some folder.length) = .ok folder :=
    substr_append [] folder rest
  rw [Helper.getExeFolder, hlast, hsubstr, ok_bind, split_eq, ok_bind, joinLoop_splitOn htokens]

/-- For every text: the folder is its beginning up to and with the last backslash, and empty if
there is none. -/
theorem getExeFolder_is_folder (s : Text) :
    ∃ folder rest, Helper.getExeFolder s = .ok folder ∧ s = folder ++ rest ∧ '\\' ∉ rest ∧
      (folder.getLast? = some '\\' ∨ folder = [] ∧ '\\' ∉ s) := by
  by_cases hmem : '\\' ∈ s
  · -- the last backslash is the first one from behind
    obtain ⟨rest, before, hs, hrest⟩ := List.eq_append_cons_of_mem (List.mem_reverse.mpr hmem)
    have hnot : '\\' ∉ rest.reverse := by rwa [List.mem_reverse]
    have hsplit : s = (before.reverse ++ ['\\']) ++ rest.reverse := by
      rw [← List.reverse_reverse s, hs]
      simp
    have hfind : behind (findLastOf ((before.reverse ++ ['\\']) ++ rest.reverse) '\\') =
        (before.reverse ++ ['\\']).length := by
      rw [List.append_assoc, List.singleton_append, findLastOf_append _ hnot, List.length_append]
      rfl
    have htokens : (before.reverse ++ ['\\']).splitOn '\\' =
        before.reverse.splitOn '\\' ++ [[]] :=
      List.splitOn_append_cons_self before.reverse []
    refine ⟨before.reverse ++ ['\\'], rest.reverse, ?_, hsplit, hnot, Or.inl (by simp)⟩
    rw [hsplit]
    exact getExeFolder_of_prefix hfind htokens
  · have hfind : behind (findLastOf ([] ++ s) '\\') = ([] : Text).length := by
      rw [List.nil_append, findLastOf_of_notMem hmem]
      rfl
    have htokens : ([] : Text).splitOn '\\' = [] ++ [[]] := rfl
    exact ⟨[], s, getExeFolder_of_prefix hfind htokens, rfl, hmem, Or.inr ⟨rfl, hmem⟩⟩

end ForexSuite.CopierHelper
