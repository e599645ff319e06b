import EtherLang.Value

/-!
# Frames of variables

Variables live in frames. A frame may have a parent, in which names are looked up that the frame
itself does not bind. The store holds all frames that were ever made; a frame is known by its
number, and its parent was made before it. Assigning a variable always changes the frame it is
assigned in and never a parent.
-/

namespace EtherLang

/-- A frame: its parent and the names it binds, in the order of their first binding. -/
structure Frame where
  parent : Option FrameId
  bindings : List (String × Value)
  deriving Repr

namespace Frame

/-- The value that a frame itself binds a name to. -/
def get? (frame : Frame) (name : String) : Option Value :=
  frame.bindings.lookup name

/-- A list of bindings with one name bound anew, in its old place if it was bound before. -/
def insert (name : String) (value : Value) : List (String × Value) → List (String × Value)
  | [] => [(name, value)]
  | (other, old) :: rest =>
    if other = name then (name, value) :: rest else (other, old) :: insert name value rest

/-- A name bound anew has its new value. -/
theorem lookup_insert_self (name : String) (value : Value) (bindings : List (String × Value)) :
    (insert name value bindings).lookup name = some value := by
  induction bindings with
  | nil => simp [insert]
  | cons binding rest ih =>
    obtain ⟨other, old⟩ := binding
    by_cases h : other = name
    · simp [insert, h]
    · have h' : (name == other) = false := by simpa using Ne.symm h
      simp [insert, h, List.lookup_cons, h', ih]

/-- All other names keep their values. -/
theorem lookup_insert_of_ne {name other : String} (h : other ≠ name) (value : Value)
    (bindings : List (String × Value)) :
    (insert name value bindings).lookup other = bindings.lookup other := by
  have hne : (other == name) = false := by simpa using h
  induction bindings with
  | nil => simp [insert, List.lookup_cons, hne]
  | cons binding rest ih =>
    obtain ⟨first, old⟩ := binding
    by_cases hfirst : first = name
    · subst hfirst
      simp [insert, List.lookup_cons, hne]
    · simp only [insert, hfirst, if_false, List.lookup_cons, ih]

/-- A frame with one name bound anew. -/
def set (frame : Frame) (name : String) (value : Value) : Frame :=
  { frame with bindings := insert name value frame.bindings }

/-- A name bound anew in a frame has its new value there. -/
@[simp]
theorem get?_set_self (frame : Frame) (name : String) (value : Value) :
    (frame.set name value).get? name = some value :=
  lookup_insert_self name value frame.bindings

/-- All other names keep their values in the frame. -/
theorem get?_set_of_ne (frame : Frame) {name other : String} (h : other ≠ name) (value : Value) :
    (frame.set name value).get? other = frame.get? other :=
  lookup_insert_of_ne h value frame.bindings

/-- The names that a frame binds, in ascending order. -/
def names (frame : Frame) : List String :=
  (frame.bindings.map Prod.fst).mergeSort fun a b => !(b < a)

/-- A frame's names and whether it has a parent, written out. -/
def display (frame : Frame) : String :=
  "Environment([" ++ String.intercalate ", " (frame.names.map Text.quoted) ++ "], parent="
    ++ (if frame.parent.isSome then "yes" else "no") ++ ")"

end Frame

/-- All frames, numbered from zero in the order in which they were made. -/
structure Store where
  frames : Array Frame
  deriving Repr

namespace Store

/-- The store without frames. -/
def empty : Store :=
  ⟨#[]⟩

/-- The frame of a number. -/
def frame? (store : Store) (id : FrameId) : Option Frame :=
  store.frames[id]?

/-- Makes a frame and gives its number. -/
def push (store : Store) (frame : Frame) : FrameId × Store :=
  (store.frames.size, ⟨store.frames.push frame⟩)

/-- Makes a frame without parent. -/
def newFrame (store : Store) : FrameId × Store :=
  store.push ⟨none, []⟩

/-- Makes a frame inside another one. -/
def enclose (store : Store) (parent : FrameId) : FrameId × Store :=
  store.push ⟨some parent, []⟩

/-- Binds a name in a frame. -/
def set (store : Store) (id : FrameId) (name : String) (value : Value) : Store :=
  ⟨store.frames.modify id (·.set name value)⟩

/-- Making a frame changes no frame that was there before. -/
theorem frame?_push_of_lt (store : Store) (frame : Frame) {id : FrameId}
    (h : id < store.frames.size) : (store.push frame).2.frame? id = store.frame? id := by
  simp [push, frame?, Array.getElem?_push, Nat.ne_of_lt h]

/-- Binding a name changes the frame it is bound in. -/
theorem frame?_set_self (store : Store) (id : FrameId) (name : String) (value : Value) :
    (store.set id name value).frame? id = (store.frame? id).map (·.set name value) := by
  simp [set, frame?, Array.getElem?_modify]

/-- Binding a name changes no other frame. -/
theorem frame?_set_of_ne (store : Store) {id other : FrameId} (h : other ≠ id) (name : String)
    (value : Value) : (store.set id name value).frame? other = store.frame? other := by
  simp [set, frame?, Array.getElem?_modify, Ne.symm h]

/-- The value of a name as seen from a frame: that of the nearest frame which binds it, going from
the frame to its parent and on. A parent has a smaller number than its child. -/
def get? (store : Store) (name : String) (id : FrameId) : Option Value :=
  match store.frame? id with
  | none => none
  | some frame =>
    match frame.get? name with
    | some value => some value
    | none =>
      match frame.parent with
      | none => none
      | some parent => if parent < id then store.get? name parent else none
termination_by id

end Store

end EtherLang
