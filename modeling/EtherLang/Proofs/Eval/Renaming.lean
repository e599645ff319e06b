import Mathlib.Order.Monotone.Basic
import EtherLang.Proofs.Eval.Comparison

/-!
# Renaming frames

The number of a frame has no meaning of its own. If the frames of one state are those of another
under a renaming that keeps their order, then evaluation does the same in both states: it ends in
values that differ by the renaming or in the same fault, writes the same text and leaves states that
correspond again. Frames made along the way are numbered in the order in which they are made, so
the renaming is one that also matches the numbers to come.
-/

namespace EtherLang

variable {ρ : FrameId → FrameId}

namespace Value

mutual

/-- A value with the frames of its closures renamed. -/
def rename (ρ : FrameId → FrameId) : Value → Value
  | null => null
  | int n => int n
  | bool b => bool b
  | array elements => array (renameList ρ elements)
  | closure params body captured => closure params body (ρ captured)
  | builtin b => builtin b

/-- Values with the frames of their closures renamed. -/
def renameList (ρ : FrameId → FrameId) : List Value → List Value
  | [] => []
  | first :: others => first.rename ρ :: renameList ρ others

end

/-- The members of a list are renamed one by one. -/
theorem renameList_eq_map (values : List Value) : renameList ρ values = values.map (rename ρ) := by
  induction values with
  | nil => rfl
  | cons first others ih => rw [renameList, ih, List.map_cons]

/-- The values that belong together if the frames do that have the new numbers. -/
abbrev Renamed (ρ : FrameId → FrameId) : Value → Value → Prop :=
  Related (fun c d => d = ρ c) fun _ => True

mutual

/-- A value belongs together with the renamed value. -/
theorem related_rename (ρ : FrameId → FrameId) (v : Value) : Renamed ρ v (v.rename ρ) := by
  match v with
  | null => exact .null
  | int n => exact .int n
  | bool b => exact .bool b
  | builtin b => exact .builtin b
  | closure params body captured => exact .closure rfl fun _ _ => trivial
  | array elements => exact .array (forall₂_rename ρ elements)
termination_by structural v

/-- Values belong together with the renamed values. -/
theorem forall₂_rename (ρ : FrameId → FrameId) (vs : List Value) :
    List.Forall₂ (Renamed ρ) vs (renameList ρ vs) := by
  match vs with
  | [] => exact .nil
  | first :: others => exact .cons (related_rename ρ first) (forall₂_rename ρ others)
termination_by structural vs

end

mutual

/-- No other value belongs together with a value. -/
theorem Related.eq_rename {v w : Value} (h : Renamed ρ v w) : w = v.rename ρ := by
  match v, w, h with
  | _, _, .null | _, _, .int _ | _, _, .bool _ | _, _, .builtin _ => rfl
  | _, _, .closure hcd _ => rw [hcd, rename]
  | .array xs, .array ys, .array hxs => rw [rename, eq_renameList_of_forall₂ hxs]
termination_by structural v

/-- No other values belong together with values. -/
theorem eq_renameList_of_forall₂ {xs ys : List Value} (h : List.Forall₂ (Renamed ρ) xs ys) :
    ys = renameList ρ xs := by
  match xs, ys, h with
  | [], [], .nil => rfl
  | x :: xs, y :: ys, .cons hx hxs =>
    rw [renameList, hx.eq_rename, eq_renameList_of_forall₂ hxs]
termination_by structural xs

end

/-- A renamed value is displayed as the value is. -/
theorem display_rename (ρ : FrameId → FrameId) (v : Value) : (v.rename ρ).display = v.display :=
  (related_rename ρ v).display_eq.symm

end Value

namespace Frame

/-- A frame with its parent and the frames of its values renamed. -/
def rename (ρ : FrameId → FrameId) (f : Frame) : Frame :=
  ⟨f.parent.map ρ, f.bindings.map fun (name, value) => (name, value.rename ρ)⟩

/-- A renamed frame binds the names of the frame. -/
theorem get?_rename (f : Frame) (name : String) :
    (f.rename ρ).get? name = (f.get? name).map (Value.rename ρ) := by
  obtain ⟨parent, bindings⟩ := f
  change (bindings.map fun (name, value) => (name, value.rename ρ)).lookup name =
    (bindings.lookup name).map (Value.rename ρ)
  induction bindings with
  | nil => rfl
  | cons binding rest ih =>
    obtain ⟨other, value⟩ := binding
    rw [List.map_cons, List.lookup_cons, List.lookup_cons]
    split
    · rfl
    · exact ih

/-- Binding a name and renaming can change places. -/
theorem rename_set (f : Frame) (name : String) (value : Value) :
    (f.set name value).rename ρ = (f.rename ρ).set name (value.rename ρ) := by
  obtain ⟨parent, bindings⟩ := f
  have hinsert : (insert name value bindings).map (fun (n, v) => (n, v.rename ρ)) =
      insert name (value.rename ρ) (bindings.map fun (n, v) => (n, v.rename ρ)) := by
    induction bindings with
    | nil => rfl
    | cons binding rest ih =>
      obtain ⟨other, old⟩ := binding
      by_cases hother : other = name
      · simp [insert, hother]
      · simp only [insert, if_neg hother, List.map_cons, ih]
  exact congrArg (Frame.mk (parent.map ρ)) hinsert

end Frame

/-- The frames of the second state are those of the first one renamed, new frames will be numbered
alike, and the texts written since the given outputs are the same. -/
structure Corresponds (ρ : FrameId → FrameId) (before before' : String) (a b : Machine) : Prop where
  frames : ∀ id, b.store.frame? (ρ id) = (a.store.frame? id).map (Frame.rename ρ)
  fresh : ∀ k, ρ (a.store.frames.size + k) = b.store.frames.size + k
  written : ∃ text, a.output = before ++ text ∧ b.output = before' ++ text

section Corresponds

variable {before before' : String} {a b : Machine}

/-- Corresponding states give a name corresponding values. -/
theorem Corresponds.get? (h : Corresponds ρ before before' a b) (hρ : StrictMono ρ)
    (name : String) (id : FrameId) :
    b.store.get? name (ρ id) = (a.store.get? name id).map (Value.rename ρ) := by
  rw [Store.get?, Store.get?, h.frames id]
  cases hf : a.store.frame? id with
  | none => rfl
  | some f =>
    simp only [Option.map_some, Frame.get?_rename]
    cases hv : f.get? name with
    | some value => rfl
    | none =>
      simp only [Option.map_none, Frame.rename]
      cases hp : f.parent with
      | none => rfl
      | some parent =>
        simp only [Option.map_some, hρ.lt_iff_lt]
        split
        · next hlt => exact h.get? hρ name parent
        · rfl
termination_by id

/-- Corresponding assignments keep states in correspondence. -/
theorem Corresponds.set (h : Corresponds ρ before before' a b) (hρ : StrictMono ρ)
    (frame : FrameId) (name : String) (value : Value) :
    Corresponds ρ before before' { a with store := a.store.set frame name value }
      { b with store := b.store.set (ρ frame) name (value.rename ρ) } := by
  refine ⟨fun id => ?_, ?_, h.written⟩
  · by_cases hid : id = frame
    · subst hid
      rw [Store.frame?_set_self, Store.frame?_set_self, h.frames id]
      cases a.store.frame? id with
      | none => rfl
      | some f => exact congrArg some (Frame.rename_set f name value).symm
    · have hne : ρ id ≠ ρ frame := fun heq => hid (hρ.injective heq)
      rw [Store.frame?_set_of_ne _ hne, Store.frame?_set_of_ne _ hid, h.frames id]
  · intro k
    simp only [Store.set, Array.size_modify]
    exact h.fresh k

/-- Corresponding new frames keep states in correspondence. -/
theorem Corresponds.push (h : Corresponds ρ before before' a b) (hρ : StrictMono ρ) (f : Frame) :
    (b.store.push (f.rename ρ)).1 = ρ (a.store.push f).1 ∧
      Corresponds ρ before before' { a with store := (a.store.push f).2 }
        { b with store := (b.store.push (f.rename ρ)).2 } := by
  have hnew : ρ a.store.frames.size = b.store.frames.size := h.fresh 0
  refine ⟨hnew.symm, ?_, ?_, h.written⟩
  · intro id
    simp only [Store.push, Store.frame?, Array.getElem?_push]
    by_cases hid : id = a.store.frames.size
    · simp [hid, hnew]
    · have hne : ρ id ≠ b.store.frames.size := fun heq => hid (hρ.injective (heq.trans hnew.symm))
      rw [if_neg hid, if_neg hne]
      exact h.frames id
  · intro k
    have hk := h.fresh (1 + k)
    simp only [Store.push, Array.size_push]
    rw [Nat.add_assoc, hk, Nat.add_assoc]

/-- The same text written keeps states in correspondence. -/
theorem Corresponds.write (h : Corresponds ρ before before' a b) (text : String) :
    Corresponds ρ before before' { a with output := a.output ++ text }
      { b with output := b.output ++ text } := by
  obtain ⟨written, ha, hb⟩ := h.written
  refine ⟨h.frames, h.fresh, written ++ text, ?_, ?_⟩
  · rw [ha, String.append_assoc]
  · rw [hb, String.append_assoc]

end Corresponds

/-- How a statement ends, with the frames of its value renamed. -/
def Completion.rename (ρ : FrameId → FrameId) : Completion → Completion
  | .normal value => .normal (value.rename ρ)
  | .returning value => .returning (value.rename ρ)

/-- The comparison of two runs whose frames have other numbers; `records` says which records of
closures belong together. -/
def Comparison.renaming (hρ : StrictMono ρ) (before before' : String)
    (records : List (Int × Frame) → List (Int × Frame) → Prop)
    (hrecords : ∀ {made made' : List (Int × Frame)} (line : Int) (f : Frame), records made made' →
      records ((line, f) :: made) ((line, f.rename ρ) :: made')) : Comparison where
  lenient := False
  readable _ := True
  frames c d := d = ρ c
  states a b := Corresponds ρ before before' a b ∧ records a.closures b.closures
  get? := by
    rintro a b c _ name ⟨hab, -⟩ rfl -
    rw [hab.get? hρ name c]
    cases a.store.get? name c with
    | none => exact .none
    | some v => exact .some (Value.related_rename ρ v)
  set := by
    rintro a b c _ v w name ⟨hab, hmade⟩ rfl hvw
    rw [hvw.eq_rename]
    exact ⟨hab.set hρ c name v, hmade⟩
  enclose := by
    rintro a b c _ ⟨hab, hmade⟩ rfl
    obtain ⟨hnew, hstates⟩ := hab.push hρ ⟨some c, []⟩
    exact ⟨hnew, hstates, hmade⟩
  write := by
    rintro a b text ⟨hab, hmade⟩
    exact ⟨hab.write text, hmade⟩
  closure := by
    rintro a b c _ line ⟨hab, hmade⟩ rfl
    refine ⟨⟨hab.frames, hab.fresh, hab.written⟩, ?_⟩
    have hframe : (b.store.frame? (ρ c)).getD ⟨none, []⟩ =
        ((a.store.frame? c).getD ⟨none, []⟩).rename ρ := by
      rw [hab.frames c]
      cases a.store.frame? c <;> rfl
    rw [hframe]
    exact hrecords line _ hmade

namespace Eval

/-- In corresponding states the second computation ends as the first one does, with its value
changed by `f`, and leaves a corresponding state. -/
def Simulates {α β : Type} (ρ : FrameId → FrameId) (before before' : String) (f : α → β)
    (x : Eval α) (y : Eval β) : Prop :=
  ∀ a b, Corresponds ρ before before' a b →
    (runIn b y).1 = (runIn a x).1.map f ∧
      Corresponds ρ before before' (runIn a x).2 (runIn b y).2

/-- Evaluation at a depth does the same in corresponding states. -/
structure SimulatesAt (table : BuiltinTable) (depth : Nat) (ρ : FrameId → FrameId)
    (before before' : String) : Prop where
  expr : ∀ frame e, Simulates ρ before before' (Value.rename ρ) (expr table depth frame e)
    (expr table depth (ρ frame) e)
  stmt : ∀ frame s, Simulates ρ before before' (Completion.rename ρ) (stmt table depth frame s)
    (stmt table depth (ρ frame) s)
  apply : ∀ line function args, Simulates ρ before before' (Value.rename ρ)
    (apply table depth line function args)
    (apply table depth line (function.rename ρ) (args.map (Value.rename ρ)))

section Simulation

variable {α β : Type} {before before' : String} {hρ : StrictMono ρ}

/-- The comparison of two runs whose frames have other numbers and whose records do not matter. -/
abbrev renumbering (hρ : StrictMono ρ) (before before' : String) : Comparison :=
  .renaming hρ before before' (fun _ _ => True) fun _ _ _ => trivial

/-- Computations that agree up to the numbers of frames do the same in corresponding states. -/
theorem simulates_of_agree {values : α → β → Prop} {f : α → β} {x : Eval α} {y : Eval β}
    (h : (renumbering hρ before before').Agree values x y) (hf : ∀ v w, values v w → w = f v) :
    Simulates ρ before before' f x y := by
  intro a b hab
  match runIn a x, runIn b y, h a b ⟨hab, trivial⟩ with
  | _, _, .inl (.ok hvalue hstates) => exact ⟨congrArg Except.ok (hf _ _ hvalue), hstates.1⟩
  | _, _, .inl (.error hstates) => exact ⟨rfl, hstates.1⟩

/-- Ends of statements that belong together differ by the numbers of frames. -/
theorem eq_rename_of_completions {c c' : Completion}
    (h : (renumbering hρ before before').Completions c c') : c' = c.rename ρ := by
  cases h with
  | normal hvalue => rw [hvalue.eq_rename, Completion.rename]
  | returning hvalue => rw [hvalue.eq_rename, Completion.rename]

/-- At every depth evaluation does the same in corresponding states. -/
theorem simulatesAt (table : BuiltinTable) (depth : Nat) (hρ : StrictMono ρ)
    (before before' : String) : SimulatesAt table depth ρ before before' := by
  have h := (renumbering hρ before before').at_of_depths table (.inl (rfl : depth = depth))
  refine ⟨fun frame e => ?_, fun frame s => ?_, fun line function args => ?_⟩
  · have hagree := h.expr (rfl : ρ frame = ρ frame) (e := e) fun _ _ => trivial
    exact simulates_of_agree hagree fun _ _ hvalue => hvalue.eq_rename
  · have hagree := h.stmt (rfl : ρ frame = ρ frame) (s := s) fun _ _ => trivial
    exact simulates_of_agree hagree fun _ _ hends => eq_rename_of_completions hends
  · have hargs := Value.forall₂_rename ρ args
    rw [Value.renameList_eq_map] at hargs
    have hagree := h.apply line (Value.related_rename ρ function) hargs
    exact simulates_of_agree hagree fun _ _ hvalue => hvalue.eq_rename

/-- Statements do the same in corresponding states. -/
theorem simulates_statements (table : BuiltinTable) (depth : Nat) (hρ : StrictMono ρ)
    (before before' : String) (frame : FrameId) (ss : List Ast.Stmt) :
    Simulates ρ before before' (Completion.rename ρ) (statements (stmt table depth frame) ss)
      (statements (stmt table depth (ρ frame)) ss) := by
  have h := (renumbering hρ before before').at_of_depths table (.inl (rfl : depth = depth))
  have heach : ∀ s ∈ ss, (renumbering hρ before before').Agree _ (stmt table depth frame s)
      (stmt table depth (ρ frame) s) := h.each rfl fun _ _ => trivial
  exact simulates_of_agree (Comparison.agree_statements heach)
    fun _ _ hends => eq_rename_of_completions hends

end Simulation

end Eval

end EtherLang
