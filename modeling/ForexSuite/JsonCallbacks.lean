import Mathlib.Data.List.ModifyLast
import ForexSuite.JsonReader

/-!
# What the callbacks build

The parser and its callbacks agree on a language: the sequences of calls that spell a
tree. Wherever in a tree such a sequence begins, the callbacks have put the tree that it
spells there when it ends, and go on behind it.
-/
namespace ForexSuite.JsonCallbacks

open JsonWriter JsonReader

/-- The calls for a string, which is a value or a key. -/
def stringCalls (s : Str) : List Call := .onBeginString :: s.map .onCodeUnit ++ [.onEndString]

/-- The calls that the parser makes for a value, and the tree of the value. -/
inductive Spells : List Call → Ptree → Prop
  | null : Spells [.onNull] (.node ("null".toList.map Char.toUInt8) [])
  | boolean (b : Bool) :
      Spells [.onBoolean b]
        (.node ((if b then "true" else "false").toList.map Char.toUInt8) [])
  | number (ds : Str) :
      Spells (.onBeginNumber :: ds.map .onDigit ++ [.onEndNumber]) (.node ds [])
  | string (s : Str) : Spells (stringCalls s) (.node s [])
  | array (items : List (List Call × Ptree)) (h : ∀ item ∈ items, Spells item.1 item.2) :
      Spells (.onBeginArray :: items.flatMap Prod.fst ++ [.onEndArray])
        (.node [] (items.map fun item => ([], item.2)))
  | object (members : List (Str × List Call × Ptree))
      (h : ∀ member ∈ members, Spells member.2.1 member.2.2) :
      Spells (.onBeginObject :: members.flatMap (fun m => stringCalls m.1 ++ m.2.1) ++
          [.onEndObject])
        (.node [] (members.map fun m => (m.1, m.2.2)))

variable {c : Callbacks} {ins : Ptree → Ptree} {stack : List Kind} {data keyBuffer : Str}
  {children : List (Str × Ptree)}

theorem run_append (c : Callbacks) (calls calls' : List Call) :
    c.run (calls ++ calls') = (c.run calls).run calls' :=
  List.foldl_append ..

theorem run_nil (c : Callbacks) : c.run [] = c := rfl

theorem run_cons (c : Callbacks) (call : Call) (calls : List Call) :
    c.run (call :: calls) = (c.step call).run calls :=
  rfl

/-! ### The tree a layer points to -/

theorem atBack_succ (depth : ℕ) (f : Ptree → Ptree) (pt : Ptree) :
    atBack (depth + 1) f pt = atBack depth (atBack 1 f) pt := by
  induction depth generalizing pt with
  | zero => rfl
  | succ depth ih =>
      cases pt with
      | node data children =>
          rw [atBack, atBack]
          congr 2
          funext child
          rw [ih]

theorem atBack_one_append (f : Ptree → Ptree) (data key : Str) (child : Ptree)
    (children : List (Str × Ptree)) :
    atBack 1 f (.node data (children ++ [(key, child)])) =
      .node data (children ++ [(key, f child)]) := by
  rw [atBack, List.modifyLast_concat]
  rfl

/-- The layer at this depth points to the tree that was put in. -/
def PointsTo (depth : ℕ) (ins : Ptree → Ptree) : Prop :=
  ∀ f pt, atBack depth f (ins pt) = ins (f pt)

/-- The last child of the tree in a layer is the tree of a layer above it. -/
theorem PointsTo.child (h : PointsTo stack.length ins) (kind : Kind) (data key : Str)
    (children : List (Str × Ptree)) :
    PointsTo (kind :: stack).length fun pt => ins (.node data (children ++ [(key, pt)])) := by
  intro f pt
  rw [List.length_cons, atBack_succ, h]
  exact congrArg ins (atBack_one_append f data key pt children)

/-! ### The place where a tree is put -/

theorem newTree_settle (c : Callbacks) :
    Callbacks.newTree c.settle.root c.settle.keyBuffer c.settle.stack =
      Callbacks.newTree c.root c.keyBuffer c.stack := by
  obtain ⟨root, keyBuffer, stack⟩ := c
  cases stack with
  | nil => rfl
  | cons kind stack => cases kind <;> rfl

theorem newValue_settle (c : Callbacks) :
    Callbacks.newValue c.settle.root c.settle.keyBuffer c.settle.stack =
      Callbacks.newValue c.root c.keyBuffer c.stack := by
  obtain ⟨root, keyBuffer, stack⟩ := c
  cases stack with
  | nil => rfl
  | cons kind stack => cases kind <;> rfl

/-- A value that begins now is put in by `ins`, and behind it the layers are those of `stack`. -/
structure Place (c : Callbacks) (ins : Ptree → Ptree) (stack : List Kind) : Prop where
  newTree : ∃ keyBuffer, Callbacks.newTree c.root c.keyBuffer c.stack =
    ⟨ins .empty, keyBuffer, .leaf :: stack⟩
  newValue : Callbacks.newValue c.root c.keyBuffer c.stack =
    Callbacks.newTree c.root c.keyBuffer c.stack
  pointsTo : PointsTo stack.length ins
  top : stack.head? ≠ some .leaf

theorem place_new : Place .new id [] :=
  ⟨⟨[], rfl⟩, rfl, fun _ _ => rfl, by simp⟩

theorem Place.of_settle (h : Place c.settle ins stack) : Place c ins stack := by
  obtain ⟨htree, hvalue, hpoints, htop⟩ := h
  rw [newTree_settle] at htree
  rw [newValue_settle, newTree_settle] at hvalue
  exact ⟨htree, hvalue, hpoints, htop⟩

theorem place_item (hpoints : PointsTo stack.length ins)
    (hc : c.settle = ⟨ins (.node data children), keyBuffer, .array :: stack⟩) :
    Place c (fun pt => ins (.node data (children ++ [([], pt)]))) (.array :: stack) := by
  apply Place.of_settle
  rw [hc]
  refine ⟨⟨keyBuffer, ?_⟩, rfl, hpoints.child .array data [] children, by simp⟩
  rw [Callbacks.newTree, hpoints]
  rfl

theorem place_member (hpoints : PointsTo stack.length ins) :
    Place ⟨ins (.node data children), keyBuffer, .key :: stack⟩
      (fun pt => ins (.node data (children ++ [(keyBuffer, pt)]))) (.object :: stack) := by
  refine ⟨⟨keyBuffer, ?_⟩, rfl, hpoints.child .object data keyBuffer children, by simp⟩
  rw [Callbacks.newTree, hpoints]
  rfl

/-! ### Each kind of value -/

/-- Wherever the calls begin, they put in the tree. -/
def Builds (calls : List Call) (pt : Ptree) : Prop :=
  ∀ c ins stack, Place c ins stack → ∃ keyBuffer, (c.run calls).settle = ⟨ins pt, keyBuffer, stack⟩

theorem run_current_tree (hpoints : PointsTo stack.length ins) (f : UInt8 → Call)
    (hf : ∀ c d, Callbacks.step c (f d) = c.modifyCurrent (· ++ [d])) (s : Str) :
    Callbacks.run ⟨ins (.node data children), keyBuffer, .leaf :: stack⟩ (s.map f) =
      ⟨ins (.node (data ++ s) children), keyBuffer, .leaf :: stack⟩ := by
  induction s generalizing data with
  | nil => simp [Callbacks.run]
  | cons d s ih =>
      have hstep : Callbacks.modifyCurrent (· ++ [d])
          ⟨ins (.node data children), keyBuffer, .leaf :: stack⟩ =
          ⟨ins (.node (data ++ [d]) children), keyBuffer, .leaf :: stack⟩ := by
        simp only [Callbacks.modifyCurrent, List.length_cons, Nat.add_sub_cancel]
        rw [hpoints]
        rfl
      rw [List.map_cons, run_cons, hf, hstep, ih, List.append_assoc]
      rfl

theorem run_current_key (root : Ptree) (s : Str) :
    Callbacks.run ⟨root, keyBuffer, .key :: stack⟩ (s.map .onCodeUnit) =
      ⟨root, keyBuffer ++ s, .key :: stack⟩ := by
  induction s generalizing keyBuffer with
  | nil => simp [Callbacks.run]
  | cons d s ih =>
      rw [List.map_cons, run_cons, List.append_cons]
      exact ih

/-- A string or a number. -/
theorem builds_units {first last : Call} {f : UInt8 → Call}
    (hfirst : ∀ c, Callbacks.step c first = Callbacks.newValue c.root c.keyBuffer c.stack)
    (hf : ∀ c d, Callbacks.step c (f d) = c.modifyCurrent (· ++ [d]))
    (hlast : ∀ c, Callbacks.step c last = c) (s : Str) :
    Builds (first :: s.map f ++ [last]) (.node s []) := by
  intro c ins stack h
  obtain ⟨keyBuffer, htree⟩ := h.newTree
  refine ⟨keyBuffer, ?_⟩
  rw [List.cons_append, run_cons, hfirst, h.newValue, htree, run_append, Ptree.empty,
    run_current_tree h.pointsTo f hf, run_cons, hlast]
  rfl

theorem builds_assign {call : Call} {s : String}
    (hcall : ∀ c, Callbacks.step c call = c.assign s) :
    Builds [call] (.node (s.toList.map Char.toUInt8) []) := by
  intro c ins stack h
  obtain ⟨keyBuffer, htree⟩ := h.newTree
  refine ⟨keyBuffer, ?_⟩
  rw [run_cons, hcall, Callbacks.assign, h.newValue, htree]
  simp only [Callbacks.modifyCurrent, List.length_cons, Nat.add_sub_cancel]
  rw [h.pointsTo]
  rfl

theorem builds_items (items : List (List Call × Ptree)) (h : ∀ item ∈ items, Builds item.1 item.2)
    (hpoints : PointsTo stack.length ins)
    (hc : c.settle = ⟨ins (.node data children), keyBuffer, .array :: stack⟩) :
    ∃ keyBuffer, (c.run (items.flatMap Prod.fst)).settle =
      ⟨ins (.node data (children ++ items.map fun item => ([], item.2))), keyBuffer,
        .array :: stack⟩ := by
  induction items generalizing c children keyBuffer with
  | nil => exact ⟨keyBuffer, by simpa [run_nil] using hc⟩
  | cons item items ih =>
      obtain ⟨hitem, hitems⟩ := List.forall_mem_cons.mp h
      obtain ⟨keyBuffer', hput⟩ := hitem c _ _ (place_item hpoints hc)
      rw [List.flatMap_cons, run_append, List.map_cons, List.append_cons]
      exact ih hitems hput

theorem run_key (key : Str) (hc : c.settle = ⟨ins (.node data children), keyBuffer,
    .object :: stack⟩) :
    c.run (stringCalls key) = ⟨ins (.node data children), key, .key :: stack⟩ := by
  have hbegin : c.step .onBeginString = ⟨ins (.node data children), [], .key :: stack⟩ := by
    rw [Callbacks.step, ← newValue_settle, hc]
    rfl
  rw [stringCalls, List.cons_append, run_cons, hbegin, run_append, run_current_key]
  rfl

theorem builds_members (members : List (Str × List Call × Ptree))
    (h : ∀ m ∈ members, Builds m.2.1 m.2.2) (hpoints : PointsTo stack.length ins)
    (hc : c.settle = ⟨ins (.node data children), keyBuffer, .object :: stack⟩) :
    ∃ keyBuffer, (c.run (members.flatMap fun m => stringCalls m.1 ++ m.2.1)).settle =
      ⟨ins (.node data (children ++ members.map fun m => (m.1, m.2.2))), keyBuffer,
        .object :: stack⟩ := by
  induction members generalizing c children keyBuffer with
  | nil => exact ⟨keyBuffer, by simpa [run_nil] using hc⟩
  | cons m members ih =>
      obtain ⟨hmember, hmembers⟩ := List.forall_mem_cons.mp h
      obtain ⟨keyBuffer', hput⟩ := hmember _ _ _ (place_member hpoints)
      rw [List.flatMap_cons, run_append, run_append, run_key m.1 hc, List.map_cons,
        List.append_cons]
      exact ih hmembers hput

/-- An array or an object that was begun is ended. -/
theorem run_finish {call : Call} (hcall : ∀ c, Callbacks.step c call = c.finish) {kind : Kind}
    {pt : Ptree} (hc : c.settle = ⟨pt, keyBuffer, kind :: stack⟩)
    (htop : stack.head? ≠ some .leaf) : (c.run [call]).settle = ⟨pt, keyBuffer, stack⟩ := by
  rw [run_cons, run_nil, hcall, Callbacks.finish, hc, List.tail_cons]
  cases stack with
  | nil => rfl
  | cons kind stack =>
      cases kind with
      | leaf => exact absurd rfl htop
      | array | object | key => rfl

theorem step_begin (h : Place c ins stack) (call : Call) (kind : Kind)
    (hcall : ∀ c, Callbacks.step c call = c.begin kind) :
    ∃ keyBuffer, c.step call = ⟨ins .empty, keyBuffer, kind :: stack⟩ := by
  obtain ⟨keyBuffer, htree⟩ := h.newTree
  refine ⟨keyBuffer, ?_⟩
  rw [hcall, Callbacks.begin, htree]
  rfl

theorem builds_of_spells {calls : List Call} {pt : Ptree} (h : Spells calls pt) :
    Builds calls pt := by
  induction h with
  | null => exact builds_assign fun _ => rfl
  | boolean b => exact builds_assign fun _ => rfl
  | number ds => exact builds_units (fun _ => rfl) (fun _ _ => rfl) (fun _ => rfl) ds
  | string s => exact builds_units (fun _ => rfl) (fun _ _ => rfl) (fun _ => rfl) s
  | array items _ ih =>
      intro c ins stack h
      obtain ⟨keyBuffer, hbegin⟩ := step_begin h .onBeginArray .array fun _ => rfl
      have hc :
          (c.step .onBeginArray).settle = ⟨ins (.node [] []), keyBuffer, .array :: stack⟩ := by
        rw [hbegin]
        rfl
      obtain ⟨keyBuffer', hitems⟩ := builds_items items ih h.pointsTo hc
      refine ⟨keyBuffer', ?_⟩
      rw [List.cons_append, run_cons, run_append]
      exact run_finish (fun _ => rfl) hitems h.top
  | object members _ ih =>
      intro c ins stack h
      obtain ⟨keyBuffer, hbegin⟩ := step_begin h .onBeginObject .object fun _ => rfl
      have hc : (c.step .onBeginObject).settle =
          ⟨ins (.node [] []), keyBuffer, .object :: stack⟩ := by
        rw [hbegin]
        rfl
      obtain ⟨keyBuffer', hmembers⟩ := builds_members members ih h.pointsTo hc
      refine ⟨keyBuffer', ?_⟩
      rw [List.cons_append, run_cons, run_append]
      exact run_finish (fun _ => rfl) hmembers h.top

theorem settle_root (c : Callbacks) : c.settle.root = c.root := by
  obtain ⟨root, keyBuffer, stack⟩ := c
  cases stack with
  | nil => rfl
  | cons kind stack => cases kind <;> rfl

/-- Calls that spell a tree build this tree. -/
theorem root_of_spells {calls : List Call} {pt : Ptree} (h : Spells calls pt) :
    (Callbacks.new.run calls).root = pt := by
  obtain ⟨keyBuffer, hput⟩ := builds_of_spells h .new id [] place_new
  rw [← settle_root, hput]
  rfl

end ForexSuite.JsonCallbacks
