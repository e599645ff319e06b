import EtherLang.Proofs.Eval.Running

/-!
# Well-scoped states

A state is well scoped if every frame it mentions exists: the captured frames of all closures in its
bindings, and the parents of its frames, which come before their children. Evaluation changes the
frames step by step, making frames and binding names, and every frame that it names in a step is
there. So evaluation keeps states well scoped, also when it fails, and its values mention frames of
the state that it leaves. It follows that all states that can be reached by making frames, binding
values and evaluating trees are well scoped.
-/

namespace EtherLang

namespace Value

mutual

/-- The frames that a value mentions are among the first `size` frames. -/
def Scoped (size : Nat) : Value → Prop
  | null | int _ | bool _ | builtin _ => True
  | array elements => ScopedList size elements
  | closure _ _ captured => captured < size

/-- The frames that values mention are among the first `size` frames. -/
def ScopedList (size : Nat) : List Value → Prop
  | [] => True
  | first :: others => first.Scoped size ∧ ScopedList size others

end

/-- Values are well scoped if each of them is. -/
theorem scopedList_iff {size : Nat} {values : List Value} :
    ScopedList size values ↔ ∀ v ∈ values, v.Scoped size := by
  induction values with
  | nil => simp [ScopedList]
  | cons first others ih => rw [ScopedList, ih, List.forall_mem_cons]

mutual

/-- A value stays well scoped when there are more frames. -/
theorem Scoped.mono {size size' : Nat} (hle : size ≤ size') (v : Value) (h : v.Scoped size) :
    v.Scoped size' := by
  match v with
  | null | int _ | bool _ | builtin _ => trivial
  | array elements => exact scopedList_mono hle elements h
  | closure params body captured => exact Nat.lt_of_lt_of_le h hle
termination_by structural v

/-- Values stay well scoped when there are more frames. -/
theorem scopedList_mono {size size' : Nat} (hle : size ≤ size') (vs : List Value)
    (h : ScopedList size vs) : ScopedList size' vs := by
  match vs with
  | [] => trivial
  | first :: others => exact ⟨Scoped.mono hle first h.1, scopedList_mono hle others h.2⟩
termination_by structural vs

end

/-- Operators with one operand make no closures. -/
theorem scoped_unary {op : Spelled UnaryOp} {v w : Value} (h : unary op v = .ok w) (size : Nat) :
    w.Scoped size := by
  unfold unary at h
  split at h
  · cases h
    trivial
  · cases h
    trivial
  · cases h

/-- What integers make is no closure. -/
theorem scoped_onIntegers {op : BinaryOp} {a b : Int} {w : Value} (h : op.onIntegers a b = .ok w)
    (size : Nat) : w.Scoped size := by
  cases op with
  | div =>
    rw [BinaryOp.onIntegers] at h
    split at h
    · cases h
      trivial
    · cases h
  | _ =>
    cases h
    trivial

/-- Operators with two operands make no closures. -/
theorem scoped_binary {op : Spelled BinaryOp} {v v' w : Value} (h : binary op v v' = .ok w)
    (size : Nat) : w.Scoped size := by
  rw [binary.eq_def] at h
  split at h
  · cases h
  · split at h
    · exact scoped_onIntegers h size
    · cases h
      trivial
    · cases h
      trivial
    · cases h

/-- The elements of a well-scoped array are well scoped. -/
theorem Scoped.element {size : Nat} {v i w : Value} (hv : v.Scoped size)
    (h : element v i = .ok w) : w.Scoped size := by
  unfold Value.element at h
  split at h
  · next elements =>
    split at h
    · split at h
      · cases h
      · split at h
        · next value hvalue =>
          cases h
          exact scopedList_iff.mp hv _ (List.mem_of_getElem? hvalue)
        · cases h
    · cases h
  · cases h

end Value

/-- The parent of a frame comes before the frame, and its values are well scoped. -/
structure Frame.Scoped (size : Nat) (id : FrameId) (f : Frame) : Prop where
  parent : ∀ p ∈ f.parent, p < id
  bindings : ∀ binding ∈ f.bindings, binding.2.Scoped size

namespace Frame

variable {size : Nat} {id : FrameId} {f : Frame}

/-- A frame stays well scoped when there are more frames. -/
theorem Scoped.mono {size' : Nat} (h : f.Scoped size id) (hle : size ≤ size') :
    f.Scoped size' id :=
  ⟨h.parent, fun binding hbinding => Value.Scoped.mono hle _ (h.bindings binding hbinding)⟩

/-- The values of a well-scoped frame are well scoped. -/
theorem Scoped.get? (h : f.Scoped size id) {name : String} {value : Value}
    (hvalue : f.get? name = some value) : value.Scoped size := by
  obtain ⟨before, after, hbindings, -⟩ := List.lookup_eq_some_iff.mp hvalue
  refine h.bindings (name, value) ?_
  rw [hbindings]
  simp

/-- Binding a well-scoped value keeps a frame well scoped. -/
theorem Scoped.set (h : f.Scoped size id) (name : String) {value : Value}
    (hvalue : value.Scoped size) : (f.set name value).Scoped size id := by
  refine ⟨h.parent, ?_⟩
  have hinsert : ∀ bindings : List (String × Value), (∀ b ∈ bindings, b.2.Scoped size) →
      ∀ b ∈ insert name value bindings, b.2.Scoped size := by
    intro bindings hbindings
    induction bindings with
    | nil => simpa [insert] using hvalue
    | cons binding rest ih =>
      obtain ⟨other, old⟩ := binding
      rw [List.forall_mem_cons] at hbindings
      rw [insert]
      split
      · exact List.forall_mem_cons.mpr ⟨hvalue, hbindings.2⟩
      · exact List.forall_mem_cons.mpr ⟨hbindings.1, ih hbindings.2⟩
  exact hinsert f.bindings h.bindings

end Frame

namespace Store

/-- All frames of the store are well scoped. -/
def Scoped (s : Store) : Prop :=
  ∀ id f, s.frame? id = some f → f.Scoped s.frames.size id

/-- The store without frames is well scoped. -/
theorem scoped_empty : Store.empty.Scoped := by
  intro id f hf
  cases hf

variable {s : Store}

/-- A new frame inside a frame that is there keeps a store well scoped. -/
theorem Scoped.push (h : s.Scoped) {parent : Option FrameId}
    (hparent : ∀ p ∈ parent, p < s.frames.size) : (s.push ⟨parent, []⟩).2.Scoped := by
  intro id f hf
  simp only [Store.push, Store.frame?, Array.getElem?_push] at hf
  have hsize : s.frames.size ≤ (s.push ⟨parent, []⟩).2.frames.size := by
    simp only [Store.push, Array.size_push]
    omega
  split at hf
  · next hid =>
    cases hf
    exact ⟨hid ▸ hparent, List.forall_mem_nil _⟩
  · exact (h id f hf).mono hsize

/-- Binding a well-scoped value keeps a store well scoped. -/
theorem Scoped.set (h : s.Scoped) (frame : FrameId) (name : String) {value : Value}
    (hvalue : value.Scoped s.frames.size) : (s.set frame name value).Scoped := by
  intro id f hf
  have hsize : (s.set frame name value).frames.size = s.frames.size := by
    simp [Store.set]
  rw [hsize]
  by_cases hid : id = frame
  · subst hid
    rw [frame?_set_self, Option.map_eq_some_iff] at hf
    obtain ⟨old, hold, rfl⟩ := hf
    exact (h id old hold).set name hvalue
  · rw [frame?_set_of_ne s hid] at hf
    exact h id f hf

/-- The values of a well-scoped store are well scoped. -/
theorem Scoped.get? (h : s.Scoped) {name : String} {id : FrameId} {value : Value}
    (hvalue : s.get? name id = some value) : value.Scoped s.frames.size := by
  rw [Store.get?] at hvalue
  split at hvalue
  · cases hvalue
  · next f hf =>
    split at hvalue
    · next found hfound =>
      cases hvalue
      exact (h id f hf).get? hfound
    · split at hvalue
      · cases hvalue
      · split at hvalue
        · exact h.get? hvalue
        · cases hvalue
termination_by id

/-- What changes a store: a frame is made, by itself or inside another one, or a name is bound. -/
inductive Step where
  | newFrame
  | enclose (parent : FrameId)
  | set (frame : FrameId) (name : String) (value : Value)

/-- The store after a step. -/
def after (s : Store) : Step → Store
  | .newFrame => s.newFrame.2
  | .enclose parent => (s.enclose parent).2
  | .set frame name value => s.set frame name value

/-- The store after some steps, one after the other. -/
def afterAll (s : Store) (steps : List Step) : Store :=
  steps.foldl after s

/-- The frames that a step names or mentions are there. -/
def Admits (s : Store) : Step → Prop
  | .newFrame => True
  | .enclose parent => parent < s.frames.size
  | .set frame _ value => frame < s.frames.size ∧ value.Scoped s.frames.size

/-- The frames that steps name or mention are there when their turn comes. -/
def AdmitsAll (s : Store) : List Step → Prop
  | [] => True
  | step :: steps => s.Admits step ∧ (s.after step).AdmitsAll steps

/-- Steps that follow others start where these end. -/
theorem afterAll_append (s : Store) (steps steps' : List Step) :
    s.afterAll (steps ++ steps') = (s.afterAll steps).afterAll steps' :=
  List.foldl_append

/-- Steps are admitted behind others if they are admitted where these end. -/
theorem admitsAll_append {steps steps' : List Step} :
    s.AdmitsAll (steps ++ steps') ↔ s.AdmitsAll steps ∧ (s.afterAll steps).AdmitsAll steps' := by
  induction steps generalizing s with
  | nil => exact ⟨fun h => ⟨trivial, h⟩, fun h => h.2⟩
  | cons step steps ih =>
    rw [List.cons_append, AdmitsAll, AdmitsAll, ih, and_assoc]
    rfl

/-- A step removes no frame. -/
theorem size_le_after (s : Store) (step : Step) : s.frames.size ≤ (s.after step).frames.size := by
  cases step with
  | newFrame => simp [after, Store.newFrame, Store.push]
  | enclose parent => simp [after, Store.enclose, Store.push]
  | set frame name value => simp [after, Store.set]

/-- Steps remove no frames. -/
theorem size_le_afterAll (s : Store) (steps : List Step) :
    s.frames.size ≤ (s.afterAll steps).frames.size := by
  induction steps generalizing s with
  | nil => exact Nat.le_refl _
  | cons step steps ih => exact Nat.le_trans (s.size_le_after step) (ih (s.after step))

/-- A step that is admitted keeps a store well scoped. -/
theorem Scoped.after (h : s.Scoped) {step : Step} (hstep : s.Admits step) :
    (s.after step).Scoped := by
  cases step with
  | newFrame => exact h.push nofun
  | enclose parent =>
    refine h.push ?_
    rintro p ⟨⟩
    exact hstep
  | set frame name value => exact h.set frame name hstep.2

/-- Steps that are admitted keep a store well scoped. -/
theorem Scoped.afterAll (h : s.Scoped) {steps : List Step} (hsteps : s.AdmitsAll steps) :
    (s.afterAll steps).Scoped := by
  induction steps generalizing s with
  | nil => exact h
  | cons step steps ih => exact ih (h.after hsteps.1) hsteps.2

end Store

namespace Eval

/-- Running the computation in the state changes the store by these steps in this order, until it
ends or fails. -/
inductive Performs : {α : Type} → Machine → Eval α → List Store.Step → Prop
  | pure {α : Type} (m : Machine) (a : α) : Performs m (pure a) []
  | throw {α : Type} (m : Machine) (fault : Fault) : Performs m (throw fault : Eval α) []
  | valueOf? (m : Machine) (name : String) (frame : FrameId) : Performs m (valueOf? name frame) []
  | write (m : Machine) (text : String) : Performs m (write text) []
  | closure (m : Machine) (params : List Ident) (body : Ast.Block) (line : Int) (frame : FrameId) :
    Performs m (closure params body line frame) []
  | assign (m : Machine) (frame : FrameId) (name : String) (value : Value) :
    Performs m (assign frame name value) [.set frame name value]
  | enclose (m : Machine) (parent : FrameId) : Performs m (enclose parent) [.enclose parent]
  | bind {α β : Type} {m m' : Machine} {x : Eval α} {f : α → Eval β} {a : α}
      {steps steps' : List Store.Step} :
    Performs m x steps → runIn m x = (.ok a, m') → Performs m' (f a) steps' →
    Performs m (x >>= f) (steps ++ steps')
  | stopped {α β : Type} {m m' : Machine} {x : Eval α} (f : α → Eval β) {fault : Fault}
      {steps : List Store.Step} :
    Performs m x steps → runIn m x = (.error fault, m') → Performs m (x >>= f) steps
  | placed {α : Type} {m : Machine} {action : Eval α} {steps : List Store.Step}
      (line : Option Int) : Performs m action steps → Performs m (placedAt line action) steps
  | reported {α : Type} {m : Machine} {action : Eval α} {steps : List Store.Step} (line : Int) :
    Performs m action steps → Performs m (reportingExhaustion line action) steps

/-- A computation leaves the store that its steps lead to. -/
theorem Performs.store_eq {α : Type} {m : Machine} {action : Eval α} {steps : List Store.Step}
    (h : Performs m action steps) : (runIn m action).2.store = m.store.afterAll steps := by
  induction h with
  | pure | throw | valueOf? | write | closure | assign | enclose => rfl
  | bind _ hrun _ ih ih' =>
    rw [hrun] at ih
    rw [runIn_bind, hrun, continued, ih', ih, Store.afterAll_append]
  | stopped f _ hrun ih =>
    rw [hrun] at ih
    rw [runIn_bind, hrun, continued, ih]
  | placed line _ ih => rw [runIn_placedAt, ih]
  | reported line _ ih => rw [runIn_reportingExhaustion, ih]

/-- In a well-scoped state with at least `size` frames the computation takes steps that name only
frames which are there, and if it gives a result, that has the property for the number of frames. -/
def Scopes {α : Type} (size : Nat) (property : Nat → α → Prop) (action : Eval α) : Prop :=
  ∀ m : Machine, m.store.Scoped → size ≤ m.store.frames.size →
    ∃ steps, Performs m action steps ∧ m.store.AdmitsAll steps ∧
      ∀ a, (runIn m action).1 = .ok a → property (runIn m action).2.store.frames.size a

/-- The values of a list are well scoped. -/
def AllScoped (size : Nat) (values : List Value) : Prop :=
  ∀ v ∈ values, v.Scoped size

/-- A statement ends with a well-scoped value. -/
def EndScoped (size : Nat) (completion : Completion) : Prop :=
  completion.value.Scoped size

/-- Nothing is asked of a result. -/
def Anything {α : Type} (_ : Nat) (_ : α) : Prop :=
  True

section Steps

variable {α β : Type} {size : Nat} {property : Nat → α → Prop} {property' : Nat → β → Prop}

/-- What is well scoped among some frames is so among more frames. -/
theorem AllScoped.mono {size' : Nat} {values : List Value} (h : AllScoped size values)
    (hle : size ≤ size') : AllScoped size' values :=
  fun v hv => Value.Scoped.mono hle v (h v hv)

/-- The computation can be asked to start with more frames. -/
theorem Scopes.mono {size' : Nat} {action : Eval α} (h : Scopes size property action)
    (hle : size ≤ size') : Scopes size' property action :=
  fun m hm hsize => h m hm (Nat.le_trans hle hsize)

/-- The state stays well scoped, and no frames are removed from it. -/
theorem Scopes.stays {action : Eval α} (h : Scopes size property action) {m : Machine}
    (hm : m.store.Scoped) (hsize : size ≤ m.store.frames.size) :
    (runIn m action).2.store.Scoped ∧
      m.store.frames.size ≤ (runIn m action).2.store.frames.size := by
  obtain ⟨steps, hperforms, hadmits, -⟩ := h m hm hsize
  rw [hperforms.store_eq]
  exact ⟨hm.afterAll hadmits, m.store.size_le_afterAll steps⟩

/-- A computation without steps. -/
theorem scopes_still {action : Eval α} (hstill : ∀ m, Performs m action [])
    (hvalue : ∀ m a, m.store.Scoped → size ≤ m.store.frames.size →
      (runIn m action).1 = .ok a → property m.store.frames.size a) :
    Scopes size property action := by
  intro m hm hsize
  refine ⟨[], hstill m, trivial, fun a ha => ?_⟩
  rw [(hstill m).store_eq]
  exact hvalue m a hm hsize ha

/-- Returning what has the property among all frames to come. -/
theorem scopes_pure {a : α} (h : ∀ size', size ≤ size' → property size' a) :
    Scopes size property (pure a) := by
  refine scopes_still (fun m => .pure m a) ?_
  rintro m _ - hsize ⟨⟩
  exact h _ hsize

/-- Returning a well-scoped value. -/
theorem scopes_value {v : Value} (h : v.Scoped size) : Scopes size Value.Scoped (pure v) :=
  scopes_pure fun _ hle => Value.Scoped.mono hle v h

/-- Raising a fault. -/
theorem scopes_throw (fault : Fault) : Scopes size property (throw fault) :=
  scopes_still (fun m => .throw m fault) fun _ _ _ _ => nofun

/-- Failing. -/
theorem scopes_fail (cause : EvalError.Cause) : Scopes size property (fail cause) :=
  scopes_throw _

/-- Taking over the result of an operation on values. -/
theorem scopes_ofResult {result : Except EvalError.Cause Value}
    (h : ∀ v, result = .ok v → v.Scoped size) : Scopes size Value.Scoped (ofResult result) := by
  cases result with
  | ok v => exact scopes_value (h v rfl)
  | error cause => exact scopes_fail cause

/-- The second of two computations starts with the frames that the first one leaves. -/
theorem Scopes.bind {x : Eval α} {f : α → Eval β} (hx : Scopes size property x)
    (hf : ∀ a size', size ≤ size' → property size' a → Scopes size' property' (f a)) :
    Scopes size property' (x >>= f) := by
  intro m hm hsize
  obtain ⟨hstore, hle⟩ := hx.stays hm hsize
  obtain ⟨steps, hperforms, hadmits, hvalue⟩ := hx m hm hsize
  match hrun : runIn m x with
  | (.ok a, m') =>
    have hleft := hperforms.store_eq
    rw [hrun] at hstore hle hvalue hleft
    have hsize' : size ≤ m'.store.frames.size := Nat.le_trans hsize hle
    have hnext := hf a m'.store.frames.size hsize' (hvalue a rfl) m' hstore (Nat.le_refl _)
    obtain ⟨steps', hperforms', hadmits', hvalue'⟩ := hnext
    refine ⟨steps ++ steps', hperforms.bind hrun hperforms', ?_, ?_⟩
    · exact Store.admitsAll_append.mpr ⟨hadmits, hleft ▸ hadmits'⟩
    · rw [runIn_bind, hrun]
      exact hvalue'
  | (.error fault, m') =>
    refine ⟨steps, hperforms.stopped f hrun, hadmits, ?_⟩
    rw [runIn_bind, hrun]
    exact nofun

/-- Placing errors changes neither the state nor the value. -/
theorem Scopes.placedAt {action : Eval α} (h : Scopes size property action) (line : Option Int) :
    Scopes size property (placedAt line action) := by
  intro m hm hsize
  obtain ⟨steps, hperforms, hadmits, hvalue⟩ := h m hm hsize
  refine ⟨steps, hperforms.placed line, hadmits, fun a ha => ?_⟩
  rw [runIn_placedAt] at ha ⊢
  match hresult : (runIn m action).1 with
  | .ok value => exact hvalue a (by simpa only [hresult, Eval.placed] using ha)
  | .error (.error e) => simp only [hresult, Eval.placed, reduceCtorEq] at ha
  | .error (.illFormed e) => simp only [hresult, Eval.placed, reduceCtorEq] at ha
  | .error .exhausted => simp only [hresult, Eval.placed, reduceCtorEq] at ha

/-- Reporting exhaustion changes neither the state nor the value. -/
theorem Scopes.reportingExhaustion {action : Eval α} (h : Scopes size property action)
    (line : Int) : Scopes size property (reportingExhaustion line action) := by
  intro m hm hsize
  obtain ⟨steps, hperforms, hadmits, hvalue⟩ := h m hm hsize
  refine ⟨steps, hperforms.reported line, hadmits, fun a ha => ?_⟩
  rw [runIn_reportingExhaustion] at ha ⊢
  match hresult : (runIn m action).1 with
  | .ok value => exact hvalue a (by simpa only [hresult, Eval.reported] using ha)
  | .error (.error e) => simp only [hresult, Eval.reported, reduceCtorEq] at ha
  | .error (.illFormed e) => simp only [hresult, Eval.reported, reduceCtorEq] at ha
  | .error .exhausted => simp only [hresult, Eval.reported, reduceCtorEq] at ha

/-- A computation for the members of a list that gives well-scoped values. -/
theorem scopes_mapM {f : α → Eval Value} (xs : List α)
    (hf : ∀ x ∈ xs, Scopes size Value.Scoped (f x)) : Scopes size AllScoped (xs.mapM f) := by
  induction xs generalizing size with
  | nil => exact scopes_pure fun _ _ => nofun
  | cons x xs ih =>
    rw [List.mapM_cons]
    refine (hf x (List.mem_cons_self ..)).bind fun v size₁ hle₁ hv => ?_
    have htail : Scopes size₁ AllScoped (xs.mapM f) :=
      ih fun y hy => (hf y (List.mem_cons_of_mem x hy)).mono hle₁
    refine htail.bind fun vs size₂ hle₂ hvs => ?_
    refine scopes_pure fun size₃ hle₃ => ?_
    refine List.forall_mem_cons.mpr ⟨?_, hvs.mono hle₃⟩
    exact Value.Scoped.mono (Nat.le_trans hle₂ hle₃) v hv

/-- A computation for the members of a list without results. -/
theorem scopes_forM {f : α → Eval PUnit} (xs : List α)
    (hf : ∀ x ∈ xs, Scopes size Anything (f x)) : Scopes size Anything (xs.forM f) := by
  induction xs generalizing size with
  | nil => exact scopes_pure fun _ _ => trivial
  | cons x xs ih =>
    change Scopes size _ (f x >>= fun _ => xs.forM f)
    refine (hf x (List.mem_cons_self ..)).bind fun _ size₁ hle₁ _ => ?_
    exact ih fun y hy => (hf y (List.mem_cons_of_mem x hy)).mono hle₁

/-- Looking up a name. -/
theorem scopes_lookup (table : BuiltinTable) (name : String) (frame : FrameId) :
    Scopes size Value.Scoped (lookup table name frame) := by
  have hfound : Scopes size (fun size' found => ∀ v ∈ found, v.Scoped size')
      (valueOf? name frame) := by
    refine scopes_still (fun m => .valueOf? m name frame) ?_
    rintro m _ hm - ⟨⟩ v hv
    exact hm.get? hv
  refine hfound.bind fun found size' _ hvalue => ?_
  match found with
  | some v => exact scopes_value (hvalue v rfl)
  | none =>
    match table.find? name with
    | some builtin => exact scopes_value trivial
    | none => exact scopes_fail _

/-- Binding a name to a well-scoped value in a frame that is there. -/
theorem scopes_assign {frame : FrameId} (hframe : frame < size) (name : String) {value : Value}
    (hvalue : value.Scoped size) : Scopes size Anything (assign frame name value) := by
  intro m hm hsize
  refine ⟨_, .assign m frame name value, ⟨⟨?_, ?_⟩, trivial⟩, fun _ _ => trivial⟩
  · exact Nat.lt_of_lt_of_le hframe hsize
  · exact Value.Scoped.mono hsize value hvalue

/-- Making a frame inside a frame that is there. -/
theorem scopes_enclose {parent : FrameId} (hparent : parent < size) :
    Scopes size (fun size' id => id < size') (enclose parent) := by
  intro m hm hsize
  have hlt : parent < m.store.frames.size := Nat.lt_of_lt_of_le hparent hsize
  refine ⟨_, .enclose m parent, ⟨hlt, trivial⟩, ?_⟩
  rw [runIn_enclose]
  rintro _ ⟨⟩
  simp [Store.enclose, Store.push]

/-- Making a closure in a frame that is there. -/
theorem scopes_closure (params : List Ident) (body : Ast.Block) (line : Int) {frame : FrameId}
    (hframe : frame < size) : Scopes size Value.Scoped (closure params body line frame) := by
  refine scopes_still (fun m => .closure m params body line frame) ?_
  rintro m _ - hsize ⟨⟩
  exact Nat.lt_of_lt_of_le hframe hsize

/-- Displaying a value. -/
theorem scopes_displayed (levels : Nat) (value : Value) :
    Scopes size Anything (displayed levels value) := by
  rw [displayed]
  split
  · exact scopes_pure fun _ _ => trivial
  · exact scopes_throw _

/-- Writing text. -/
theorem scopes_write (text : String) : Scopes size Anything (write text) :=
  scopes_still (fun m => .write m text) fun _ _ _ _ _ => trivial

/-- Statements one after the other. -/
theorem scopes_statementsAfter {execute : Ast.Stmt → Eval Completion}
    (h : ∀ s, Scopes size EndScoped (execute s)) (ss : List Ast.Stmt) {last : Completion}
    (hlast : EndScoped size last) : Scopes size EndScoped (statementsAfter last execute ss) := by
  induction ss generalizing last size with
  | nil => exact scopes_pure fun _ hle => Value.Scoped.mono hle _ hlast
  | cons s ss ih =>
    rw [statementsAfter]
    refine (h s).bind fun completion size' hle hend => ?_
    cases completion with
    | normal value => exact ih (fun s => (h s).mono hle) hend
    | returning value => exact scopes_pure fun _ hle => Value.Scoped.mono hle _ hend

/-- Lists of statements. -/
theorem scopes_statements {execute : Ast.Stmt → Eval Completion}
    (h : ∀ s, Scopes size EndScoped (execute s)) (ss : List Ast.Stmt) :
    Scopes size EndScoped (statements execute ss) :=
  scopes_statementsAfter h ss trivial

/-- The value that a list of statements ends with. -/
theorem scopes_statements_value {execute : Ast.Stmt → Eval Completion}
    (h : ∀ s, Scopes size EndScoped (execute s)) (ss : List Ast.Stmt) :
    Scopes size Value.Scoped (do return (← statements execute ss).value) :=
  (scopes_statements h ss).bind fun _ _ _ hend => scopes_value hend

/-- Branches. -/
theorem scopes_branch {evaluate : Ast.Expr → Eval Value} {execute : Ast.Stmt → Eval Completion}
    (hevaluate : ∀ e, Scopes size Value.Scoped (evaluate e))
    (hexecute : ∀ s, Scopes size EndScoped (execute s))
    (condition : Ast.Expr) (consequence : Ast.Block) (alternative : Option Ast.Block) :
    Scopes size EndScoped (branch evaluate execute condition consequence alternative) := by
  refine (hevaluate condition).bind fun value size' hle _ => ?_
  have hexecute' : ∀ s, Scopes size' EndScoped (execute s) := fun s => (hexecute s).mono hle
  split
  · exact scopes_statements hexecute' _
  · match alternative with
    | some b => exact scopes_statements hexecute' _
    | none => exact scopes_pure fun _ _ => trivial

/-- Binding parameters to well-scoped arguments in a frame that is there. -/
theorem scopes_bindParams {frame : FrameId} (hframe : frame < size) (params : List Ident)
    {args : List Value} (hargs : AllScoped size args) :
    Scopes size Anything (bindParams frame params args) := by
  induction params generalizing args size with
  | nil => exact scopes_pure fun _ _ => trivial
  | cons param params ih =>
    cases args with
    | nil => exact scopes_pure fun _ _ => trivial
    | cons arg args =>
      obtain ⟨harg, hrest⟩ := List.forall_mem_cons.mp hargs
      refine (scopes_assign hframe param.name harg).bind fun _ size' hle _ => ?_
      exact ih (Nat.lt_of_lt_of_le hframe hle) (AllScoped.mono hrest hle)

/-- The elements of a well-scoped argument. -/
theorem scopes_expectArray (name : String) {value : Value} (hvalue : value.Scoped size) :
    Scopes size AllScoped (expectArray name value) := by
  cases value with
  | array elements =>
    have helements : AllScoped size elements := Value.scopedList_iff.mp hvalue
    exact scopes_pure fun _ hle => helements.mono hle
  | _ => exact scopes_fail _

/-- A well-scoped argument that is a function. -/
theorem scopes_expectCallable (name : String) {value : Value} (hvalue : value.Scoped size) :
    Scopes size Value.Scoped (expectCallable name value) := by
  cases value with
  | closure params body captured => exact scopes_value hvalue
  | builtin b => exact scopes_value hvalue
  | _ => exact scopes_fail _

/-- Builtins with well-scoped arguments. -/
theorem scopes_applyBuiltin {depth : Nat} {call : Value → List Value → Eval Value}
    (hcall : ∀ size' function args, Value.Scoped size' function → AllScoped size' args →
      Scopes size' Value.Scoped (call function args)) (b : Builtin) {args : List Value}
    (hargs : AllScoped size args) :
    Scopes size Value.Scoped (applyBuiltin depth call b args) := by
  cases b with
  | len =>
    match args with
    | [target] =>
      have htarget : target.Scoped size := hargs target (by simp)
      exact (scopes_expectArray "len" htarget).bind fun _ _ _ _ => scopes_value trivial
    | [] => exact scopes_fail _
    | first :: second :: rest => exact scopes_fail _
  | map =>
    match args with
    | [target, function] =>
      have htarget : target.Scoped size := hargs target (by simp)
      have hfunction : function.Scoped size := hargs function (by simp)
      refine (scopes_expectArray "map" htarget).bind fun elements size₁ hle₁ helements => ?_
      have hfunction₁ := Value.Scoped.mono hle₁ function hfunction
      refine (scopes_expectCallable "map" hfunction₁).bind fun callable size₂ hle₂ hcallable => ?_
      have hcalls : Scopes size₂ AllScoped (elements.mapM fun e => call callable [e]) := by
        refine scopes_mapM elements fun e he => hcall size₂ callable [e] hcallable ?_
        exact List.forall_mem_singleton.mpr (helements.mono hle₂ e he)
      refine hcalls.bind fun values _ _ hvalues => ?_
      exact scopes_value (Value.scopedList_iff.mpr hvalues)
    | [] => exact scopes_fail _
    | [only] => exact scopes_fail _
    | first :: second :: third :: rest => exact scopes_fail _
  | puts =>
    refine (scopes_forM args fun arg _ => ?_).bind fun _ _ _ _ => scopes_value trivial
    exact (scopes_displayed depth arg).bind fun text _ _ _ => scopes_write _
  | argCount name => exact scopes_value trivial

end Steps

/-- Evaluation at a depth keeps states well scoped. -/
structure ScopesAt (table : BuiltinTable) (depth : Nat) : Prop where
  expr : ∀ size frame e, frame < size → Scopes size Value.Scoped (expr table depth frame e)
  stmt : ∀ size frame s, frame < size → Scopes size EndScoped (stmt table depth frame s)
  apply : ∀ size line function args, Value.Scoped size function → AllScoped size args →
    Scopes size Value.Scoped (apply table depth line function args)

section Depth

variable {table : BuiltinTable} {depth size : Nat}

/-- One more level of expressions keeps states well scoped. -/
theorem ScopesAt.expr_succ (h : ScopesAt table depth) {frame : FrameId} (hframe : frame < size)
    (e : Ast.Expr) : Scopes size Value.Scoped (Eval.expr table (depth + 1) frame e) := by
  -- What is evaluated later starts with more frames.
  have hexpr : ∀ size', size ≤ size' → ∀ e,
      Scopes size' Value.Scoped (Eval.expr table depth frame e) :=
    fun size' hle e => h.expr size' frame e (Nat.lt_of_lt_of_le hframe hle)
  have hlist : ∀ size', size ≤ size' → ∀ es : List Ast.Expr,
      Scopes size' AllScoped (es.mapM (Eval.expr table depth frame)) :=
    fun size' hle es => scopes_mapM es fun e _ => hexpr size' hle e
  have hself : size ≤ size := Nat.le_refl size
  rw [Eval.expr.eq_def]
  refine Scopes.placedAt ?_ _
  cases e with
  | ident name line => exact scopes_lookup table name frame
  | int value line => exact scopes_value trivial
  | bool value line => exact scopes_value trivial
  | unary op operand line =>
    refine (hexpr size hself operand).bind fun value size₁ _ _ => ?_
    exact scopes_ofResult fun w hw => Value.scoped_unary hw size₁
  | binary op left right line =>
    refine (hexpr size hself left).bind fun value size₁ hle₁ _ => ?_
    refine (hexpr size₁ hle₁ right).bind fun value' size₂ _ _ => ?_
    exact scopes_ofResult fun w hw => Value.scoped_binary hw size₂
  | function params body line => exact scopes_closure params body line hframe
  | call callee args line =>
    refine (hexpr size hself callee).bind fun function size₁ hle₁ hfunction => ?_
    refine (hlist size₁ hle₁ args).bind fun values size₂ hle₂ hvalues => ?_
    exact h.apply size₂ (some line) function values (Value.Scoped.mono hle₂ function hfunction)
      hvalues
  | array elements line =>
    refine (hlist size hself elements).bind fun values size₁ _ hvalues => ?_
    exact scopes_value (Value.scopedList_iff.mpr hvalues)
  | index array index line =>
    refine (hexpr size hself array).bind fun value size₁ hle₁ hvalue => ?_
    refine (hexpr size₁ hle₁ index).bind fun value' size₂ hle₂ _ => ?_
    exact scopes_ofResult fun w hw => (Value.Scoped.mono hle₂ value hvalue).element hw
  | cond condition consequence alternative line =>
    refine (scopes_branch (hexpr size hself) (fun s => h.stmt size frame s hframe) condition
      consequence alternative).bind fun completion size₁ _ hend => ?_
    cases completion with
    | normal value => exact scopes_value hend
    | returning value => exact scopes_fail _
  | misplaced statement => exact scopes_throw _
  | foreign => exact scopes_throw _

/-- One more level of statements keeps states well scoped. -/
theorem ScopesAt.stmt_succ (h : ScopesAt table depth) {frame : FrameId} (hframe : frame < size)
    (s : Ast.Stmt) : Scopes size EndScoped (Eval.stmt table (depth + 1) frame s) := by
  have hexpr : ∀ e, Scopes size Value.Scoped (Eval.expr table depth frame e) :=
    fun e => h.expr size frame e hframe
  have hstmt : ∀ s, Scopes size EndScoped (Eval.stmt table depth frame s) :=
    fun s => h.stmt size frame s hframe
  rw [Eval.stmt.eq_def]
  refine Scopes.placedAt ?_ _
  cases s with
  | var target value line =>
    refine (hexpr value).bind fun v size₁ hle₁ hv => ?_
    have hframe₁ : frame < size₁ := Nat.lt_of_lt_of_le hframe hle₁
    refine (scopes_assign hframe₁ target.name hv).bind fun _ _ _ _ => ?_
    exact scopes_pure fun _ _ => trivial
  | ret value line =>
    refine (hexpr value).bind fun v _ _ hv => ?_
    exact scopes_pure fun _ hle => Value.Scoped.mono hle v hv
  | expr value line =>
    have hplain : Scopes size EndScoped
        (do return Completion.normal (← Eval.expr table depth frame value)) := by
      refine (hexpr value).bind fun v _ _ hv => ?_
      exact scopes_pure fun _ hle => Value.Scoped.mono hle v hv
    cases value with
    | cond condition consequence alternative l =>
      exact scopes_branch hexpr hstmt condition consequence alternative
    | _ => exact hplain
  | block body => exact scopes_statements hstmt body.statements
  | misplaced expression => exact scopes_throw _
  | program statements => exact scopes_throw _

/-- One more level of calls keeps states well scoped. -/
theorem ScopesAt.apply_succ (h : ScopesAt table depth) (line : Option Int) {function : Value}
    {args : List Value} (hfunction : function.Scoped size) (hargs : AllScoped size args) :
    Scopes size Value.Scoped (Eval.apply table (depth + 1) line function args) := by
  rw [Eval.apply.eq_def]
  refine Scopes.placedAt ?_ _
  cases function with
  | closure params body captured =>
    change Scopes size _ (if args.length ≠ params.length then _ else _)
    split
    · exact scopes_fail _
    · refine (scopes_enclose hfunction).bind fun frame size₁ hle₁ hframe => ?_
      refine (scopes_bindParams hframe params (hargs.mono hle₁)).bind fun _ size₂ hle₂ _ => ?_
      have hframe₂ : frame < size₂ := Nat.lt_of_lt_of_le hframe hle₂
      exact scopes_statements_value (fun s => h.stmt size₂ frame s hframe₂) body.statements
  | builtin b =>
    exact scopes_applyBuiltin (fun size' => h.apply size' none) b hargs
  | _ => exact scopes_fail _

/-- At every depth evaluation keeps states well scoped. -/
theorem scopesAt (table : BuiltinTable) (depth : Nat) : ScopesAt table depth := by
  induction depth with
  | zero => exact ⟨fun _ _ _ _ => scopes_throw _, fun _ _ _ _ => scopes_throw _,
      fun _ _ _ _ _ _ => scopes_throw _⟩
  | succ depth ih => exact ⟨fun _ _ e hframe => ih.expr_succ hframe e,
      fun _ _ s hframe => ih.stmt_succ hframe s,
      fun _ line _ _ hfunction hargs => ih.apply_succ line hfunction hargs⟩

/-- Evaluating a node in a frame that is there keeps states well scoped. -/
theorem scopes_node (table : BuiltinTable) (depth : Nat) {frame : FrameId} (hframe : frame < size)
    (n : Ast.Node) : Scopes size Value.Scoped (node table depth frame n) := by
  have hstmt : ∀ s, Scopes size EndScoped (stmt table depth frame s) :=
    fun s => (scopesAt table depth).stmt size frame s hframe
  rw [node.eq_def]
  refine Scopes.reportingExhaustion ?_ _
  cases n with
  | program p => exact scopes_statements_value hstmt p.statements
  | stmt s => exact (hstmt s).bind fun _ _ _ hend => scopes_value hend
  | expr e => exact (scopesAt table depth).expr size frame e hframe

end Depth

end Eval

namespace Store

/-- The stores that a host can bring about. It makes frames and binds values in them, evaluates
nodes in frames and applies functions to arguments, and the frames that it names are there. -/
inductive Reachable : Store → Prop where
  | empty : Reachable Store.empty
  | newFrame {s : Store} (h : Reachable s) : Reachable s.newFrame.2
  | enclose {s : Store} (h : Reachable s) {parent : FrameId} (hparent : parent < s.frames.size) :
    Reachable (s.enclose parent).2
  | set {s : Store} (h : Reachable s) (frame : FrameId) (name : String) {value : Value}
    (hvalue : value.Scoped s.frames.size) : Reachable (s.set frame name value)
  | node {m : Machine} (h : Reachable m.store) (table : BuiltinTable) (depth : Nat)
    {frame : FrameId} (hframe : frame < m.store.frames.size) (n : Ast.Node) :
    Reachable (Eval.runIn m (Eval.node table depth frame n)).2.store
  | apply {m : Machine} (h : Reachable m.store) (table : BuiltinTable) (depth : Nat)
    (line : Option Int) {function : Value} (hfunction : function.Scoped m.store.frames.size)
    {args : List Value} (hargs : Eval.AllScoped m.store.frames.size args) :
    Reachable (Eval.runIn m (Eval.apply table depth line function args)).2.store

/-- All stores that can be reached are well scoped. -/
theorem Reachable.scoped {s : Store} (h : s.Reachable) : s.Scoped := by
  induction h with
  | empty => exact scoped_empty
  | newFrame _ ih => exact ih.push nofun
  | enclose _ hparent ih =>
    refine ih.push ?_
    rintro p ⟨⟩
    exact hparent
  | set _ frame name hvalue ih => exact ih.set frame name hvalue
  | @node m _ table depth frame hframe n ih =>
    exact ((Eval.scopes_node table depth hframe n).stays ih (Nat.le_refl _)).1
  | @apply m _ table depth line function hfunction args hargs ih =>
    have happly := (Eval.scopesAt table depth).apply _ line function args hfunction hargs
    exact (happly.stays ih (Nat.le_refl _)).1

end Store

end EtherLang
