import EtherLang.Proofs.Eval.Scoping

/-!
# Lexical scoping over histories

A store is what the steps of its history have made of the store without frames. From the history
alone it can be told which frames there are, which frames are visited from a frame outward, and
which value a name was bound to most recently in a frame. Looking up a name gives this value for the
nearest frame on the way outward in which the name was ever bound, and nothing if there is none.

Whatever is evaluated continues the history, step by step, also when it fails in the end. So names
are looked up in this way at all times.
-/

namespace EtherLang

namespace Store

/-- The parent of the frame that a step makes, if it makes one. -/
def Step.made? : Step → Option (Option FrameId)
  | .newFrame => some none
  | .enclose parent => some (some parent)
  | .set .. => none

/-- The parents of the frames that are made, one for each frame in the order of their numbers. -/
def parentsOf (history : List Step) : List (Option FrameId) :=
  history.filterMap Step.made?

/-- The frames that are visited from a frame outward: the frame itself, then those from its parent
outward. -/
inductive Outward (history : List Step) : FrameId → List FrameId → Prop
  | outermost {id : FrameId} : (parentsOf history)[id]? = some none → Outward history id [id]
  | inside {id parent : FrameId} {frames : List FrameId} :
    (parentsOf history)[id]? = some (some parent) → Outward history parent frames →
    Outward history id (id :: frames)

/-- The name is bound in the frame at some time. -/
def Binds (history : List Step) (frame : FrameId) (name : String) : Prop :=
  ∃ value, .set frame name value ∈ history

/-- The name is bound in the frame, and to this value most recently. -/
def BindsLast (history : List Step) (frame : FrameId) (name : String) (value : Value) : Prop :=
  ∃ earlier later, history = earlier ++ .set frame name value :: later ∧ ¬Binds later frame name

/-- What lexical scoping asks of the store after a history. -/
structure Lexical (history : List Step) : Prop where
  /-- The frames are those that were made, each with the parent that it was made with. -/
  frames (id : FrameId) :
    ((empty.afterAll history).frame? id).map Frame.parent = (parentsOf history)[id]?
  /-- A frame that was there at any time is still there, with the same parent. -/
  kept {earlier : List Step} {id : FrameId} {f : Frame} : earlier <+: history →
    (empty.afterAll earlier).frame? id = some f →
    ∃ f', (empty.afterAll history).frame? id = some f' ∧ f'.parent = f.parent
  /-- Parents are there, and were made before their children. -/
  parent {id parent : FrameId} {f : Frame} : (empty.afterAll history).frame? id = some f →
    f.parent = some parent → parent < id ∧ ∃ g, (empty.afterAll history).frame? parent = some g
  /-- The captured frames of the closures that names are bound to are there. -/
  captured {id : FrameId} {f : Frame} {binding : String × Value} :
    (empty.afterAll history).frame? id = some f → binding ∈ f.bindings →
    binding.2.Scoped (empty.afterAll history).frames.size
  /-- The way outward ends. -/
  outward {id : FrameId} {f : Frame} : (empty.afterAll history).frame? id = some f →
    ∃ frames, Outward history id frames
  /-- The way outward comes to no frame twice. -/
  acyclic {id : FrameId} {frames : List FrameId} : Outward history id frames →
    frames.Pairwise (· > ·)
  /-- A name has the value that it was bound to most recently in the nearest frame on the way
  outward in which it was ever bound. -/
  value {id : FrameId} {frames : List FrameId} (name : String) (value : Value) :
    Outward history id frames →
    ((empty.afterAll history).get? name id = some value ↔
      ∃ nearer frame farther, frames = nearer ++ frame :: farther ∧
        (∀ other ∈ nearer, ¬Binds history other name) ∧ BindsLast history frame name value)
  /-- A name has no value if and only if it was never bound in a frame on the way outward. -/
  none {id : FrameId} {frames : List FrameId} (name : String) : Outward history id frames →
    ((empty.afterAll history).get? name id = none ↔ ∀ frame ∈ frames, ¬Binds history frame name)

section Parents

/-- The parents of the frames of a store, in the order of their numbers. -/
def parents (s : Store) : List (Option FrameId) :=
  s.frames.toList.map Frame.parent

/-- The parent that is listed for a frame. -/
theorem getElem?_parents (s : Store) (id : FrameId) :
    s.parents[id]? = (s.frame? id).map Frame.parent := by
  simp [parents, frame?]

/-- A step changes no parents, and it adds the parent of the frame that it makes. -/
theorem parents_after (s : Store) (step : Step) :
    (s.after step).parents = s.parents ++ parentsOf [step] := by
  cases step with
  | newFrame => simp [after, newFrame, push, parents, parentsOf, Step.made?]
  | enclose parent => simp [after, enclose, push, parents, parentsOf, Step.made?]
  | set frame name value =>
    refine List.ext_getElem? fun id => ?_
    rw [getElem?_parents, after, parentsOf, List.filterMap_cons_none rfl, List.filterMap_nil,
      List.append_nil, getElem?_parents]
    by_cases hid : id = frame
    · rw [hid, frame?_set_self, Option.map_map]
      rfl
    · rw [frame?_set_of_ne s hid]

/-- Steps change no parents, and they add those of the frames that they make. -/
theorem parents_afterAll (s : Store) (steps : List Step) :
    (s.afterAll steps).parents = s.parents ++ parentsOf steps := by
  induction steps generalizing s with
  | nil => simp [afterAll, parentsOf]
  | cons step steps ih =>
    have hcons : parentsOf (step :: steps) = parentsOf [step] ++ parentsOf steps :=
      List.filterMap_append (l := [step])
    rw [hcons, ← List.append_assoc, ← parents_after]
    exact ih (s.after step)

end Parents

section Bindings

variable {s : Store} {frame : FrameId} {name : String} {value : Value}

/-- The value that a frame of the store itself binds a name to. -/
def boundIn? (s : Store) (frame : FrameId) (name : String) : Option Value :=
  (s.frame? frame).bind (·.get? name)

/-- In a new frame no name is bound, and in the others nothing has changed. -/
theorem boundIn?_push (s : Store) (parent : Option FrameId) (frame : FrameId) (name : String) :
    (s.push ⟨parent, []⟩).2.boundIn? frame name = s.boundIn? frame name := by
  simp only [boundIn?, frame?, push, Array.getElem?_push]
  split
  · next hframe => simp [hframe, Frame.get?]
  · rfl

/-- After a step that names frames which are there, a frame binds a name to a value if the step has
bound the name to it there, or if it has not bound the name there and the frame did so before. -/
theorem boundIn?_after {step : Step} (hstep : s.Admits step) :
    (s.after step).boundIn? frame name = some value ↔
      step = .set frame name value ∨
        (∀ other, step ≠ .set frame name other) ∧ s.boundIn? frame name = some value := by
  cases step with
  | newFrame => simp [after, newFrame, boundIn?_push]
  | enclose parent => simp [after, enclose, boundIn?_push]
  | set frame' name' value' =>
    rw [after]
    by_cases hframe : frame = frame'
    · subst hframe
      obtain ⟨f, hf⟩ : ∃ f, s.frame? frame = some f := ⟨_, Array.getElem?_eq_getElem hstep.1⟩
      by_cases hname : name = name'
      · subst hname
        simp [boundIn?, frame?_set_self, hf]
      · simp [boundIn?, frame?_set_self, hf, Frame.get?_set_of_ne f hname, Ne.symm hname]
    · simp [boundIn?, frame?_set_of_ne s hframe, Ne.symm hframe]

/-- A name is bound if it is bound by the first step or by the later ones. -/
theorem binds_cons {step : Step} {steps : List Step} :
    Binds (step :: steps) frame name ↔
      (∃ value, step = .set frame name value) ∨ Binds steps frame name := by
  simp only [Binds, List.mem_cons, exists_or, eq_comm]

/-- The last binding is made by the first step only if no later one binds the name. -/
theorem bindsLast_cons {step : Step} {steps : List Step} :
    BindsLast (step :: steps) frame name value ↔
      BindsLast steps frame name value ∨
        step = .set frame name value ∧ ¬Binds steps frame name := by
  constructor
  · rintro ⟨earlier, later, hsteps, hlater⟩
    cases earlier with
    | nil =>
      obtain ⟨rfl, rfl⟩ := List.cons.inj hsteps
      exact .inr ⟨rfl, hlater⟩
    | cons first earlier => exact .inl ⟨earlier, later, (List.cons.inj hsteps).2, hlater⟩
  · rintro (⟨earlier, later, rfl, hlater⟩ | ⟨rfl, hlater⟩)
    · exact ⟨step :: earlier, later, rfl, hlater⟩
    · exact ⟨[], steps, rfl, hlater⟩

/-- A name that is bound in a frame is bound to some value last. -/
theorem binds_iff_exists_bindsLast {steps : List Step} :
    Binds steps frame name ↔ ∃ value, BindsLast steps frame name value := by
  induction steps with
  | nil => simp [Binds, BindsLast]
  | cons step steps ih =>
    rw [binds_cons]
    simp only [bindsLast_cons, exists_or, ← ih, exists_and_right]
    by_cases hlater : Binds steps frame name <;> simp [hlater]

/-- After some steps a frame binds a name to the value that it was bound to last, or if it was not
bound, as before. -/
theorem boundIn?_afterAll {steps : List Step} (hsteps : s.AdmitsAll steps) :
    (s.afterAll steps).boundIn? frame name = some value ↔
      BindsLast steps frame name value ∨
        ¬Binds steps frame name ∧ s.boundIn? frame name = some value := by
  induction steps generalizing s with
  | nil => simp [afterAll, Binds, BindsLast]
  | cons step steps ih =>
    have hrest : (s.afterAll (step :: steps)).boundIn? frame name = some value ↔
        BindsLast steps frame name value ∨
          ¬Binds steps frame name ∧ (s.after step).boundIn? frame name = some value :=
      ih hsteps.2
    rw [hrest, boundIn?_after hsteps.1, bindsLast_cons, binds_cons, not_or, not_exists]
    grind

end Bindings

section Lexical

variable {history : List Step} {id : FrameId} {frames : List FrameId}

/-- The parents of the frames after a history are those that the frames were made with. -/
theorem map_parent_frame? (history : List Step) (id : FrameId) :
    ((empty.afterAll history).frame? id).map Frame.parent = (parentsOf history)[id]? := by
  rw [← getElem?_parents, parents_afterAll]
  rfl

/-- The parents in an earlier part of a history are parents in the whole. -/
theorem parentsOf_of_isPrefix {earlier : List Step} (h : earlier <+: history)
    {parent : Option FrameId} (hid : (parentsOf earlier)[id]? = some parent) :
    (parentsOf history)[id]? = some parent := by
  obtain ⟨later, rfl⟩ := h
  have hlt : id < (parentsOf earlier).length := (List.getElem?_eq_some_iff.mp hid).1
  rw [parentsOf, List.filterMap_append, ← hid]
  exact List.getElem?_append_left hlt

/-- A parent was made before its child. -/
theorem parent_lt (hhistory : empty.AdmitsAll history) {parent : FrameId}
    (h : (parentsOf history)[id]? = some (some parent)) : parent < id := by
  rw [← map_parent_frame?, Option.map_eq_some_iff] at h
  obtain ⟨f, hf, hparent⟩ := h
  exact (scoped_empty.afterAll hhistory id f hf).parent parent hparent

/-- The way outward from a frame starts at the frame. -/
theorem Outward.le (hhistory : empty.AdmitsAll history) (h : Outward history id frames) :
    ∀ frame ∈ frames, frame ≤ id := by
  induction h with
  | outermost => simp
  | inside hparent _ ih =>
    refine List.forall_mem_cons.mpr ⟨Nat.le_refl _, fun frame hframe => ?_⟩
    exact Nat.le_trans (ih frame hframe) (Nat.le_of_lt (parent_lt hhistory hparent))

/-- The numbers of the frames decrease on the way outward. -/
theorem Outward.pairwise (hhistory : empty.AdmitsAll history) (h : Outward history id frames) :
    frames.Pairwise (· > ·) := by
  induction h with
  | outermost => exact List.pairwise_singleton ..
  | inside hparent hframes ih =>
    refine List.pairwise_cons.mpr ⟨fun frame hframe => ?_, ih⟩
    exact Nat.lt_of_le_of_lt (hframes.le hhistory frame hframe) (parent_lt hhistory hparent)

/-- From every frame there is a way outward. -/
theorem exists_outward (hhistory : empty.AdmitsAll history) {id : FrameId}
    {parent : Option FrameId} (h : (parentsOf history)[id]? = some parent) :
    ∃ frames, Outward history id frames := by
  match parent with
  | none => exact ⟨[id], .outermost h⟩
  | some parent =>
    have hlt : parent < id := parent_lt hhistory h
    have hmade : parent < (parentsOf history).length :=
      Nat.lt_trans hlt (List.getElem?_eq_some_iff.mp h).1
    obtain ⟨frames, hframes⟩ := exists_outward hhistory (List.getElem?_eq_getElem hmade)
    exact ⟨id :: frames, .inside h hframes⟩
termination_by id

/-- Looking up a name goes outward up to the first frame that binds it. -/
theorem get?_eq_findSome? (hhistory : empty.AdmitsAll history) (h : Outward history id frames)
    (name : String) :
    (empty.afterAll history).get? name id =
      frames.findSome? fun frame => (empty.afterAll history).boundIn? frame name := by
  induction h with
  | @outermost id hid =>
    rw [← map_parent_frame?, Option.map_eq_some_iff] at hid
    obtain ⟨f, hf, hparent⟩ := hid
    rw [Store.get?, List.findSome?_cons, boundIn?, hf]
    dsimp only [Option.bind_some]
    rw [hparent]
    cases f.get? name <;> rfl
  | @inside id parent frames hid _ ih =>
    have hlt : parent < id := parent_lt hhistory hid
    rw [← map_parent_frame?, Option.map_eq_some_iff] at hid
    obtain ⟨f, hf, hparent⟩ := hid
    rw [Store.get?, List.findSome?_cons, boundIn?, hf, ← ih]
    dsimp only [Option.bind_some]
    rw [hparent]
    dsimp only
    rw [if_pos hlt]
    cases f.get? name <;> rfl

/-- After a history a frame binds the names that were bound in it, to the last values. -/
theorem boundIn?_eq_some_iff (hhistory : empty.AdmitsAll history) {frame : FrameId} {name : String}
    {value : Value} : (empty.afterAll history).boundIn? frame name = some value ↔
      BindsLast history frame name value := by
  rw [boundIn?_afterAll hhistory]
  simp [boundIn?, frame?, empty]

/-- After a history a frame does not bind the names that were never bound in it. -/
theorem boundIn?_eq_none_iff (hhistory : empty.AdmitsAll history) {frame : FrameId}
    {name : String} :
    (empty.afterAll history).boundIn? frame name = none ↔ ¬Binds history frame name := by
  rw [binds_iff_exists_bindsLast, not_exists, Option.eq_none_iff_forall_ne_some]
  simp only [ne_eq, boundIn?_eq_some_iff hhistory]

/-- After every history names are looked up lexically. -/
theorem AdmitsAll.lexical (hhistory : empty.AdmitsAll history) : Lexical history where
  frames := map_parent_frame? history
  kept := by
    intro earlier id f hearlier hf
    have hparent : (parentsOf earlier)[id]? = some f.parent := by
      rw [← map_parent_frame?, hf]
      rfl
    have hkept := parentsOf_of_isPrefix hearlier hparent
    rw [← map_parent_frame?, Option.map_eq_some_iff] at hkept
    exact hkept
  parent := by
    intro id parent f hf hparent
    have hscoped := scoped_empty.afterAll hhistory id f hf
    have hlt : parent < id := hscoped.parent parent hparent
    have hid : id < (empty.afterAll history).frames.size := (Array.getElem?_eq_some_iff.mp hf).1
    exact ⟨hlt, _, Array.getElem?_eq_getElem (Nat.lt_trans hlt hid)⟩
  captured := fun hf hbinding => (scoped_empty.afterAll hhistory _ _ hf).bindings _ hbinding
  outward := by
    intro id f hf
    have hparent : (parentsOf history)[id]? = some f.parent := by
      rw [← map_parent_frame?, hf]
      rfl
    exact exists_outward hhistory hparent
  acyclic := fun h => h.pairwise hhistory
  value := by
    intro id frames name value h
    rw [get?_eq_findSome? hhistory h, List.findSome?_eq_some_iff]
    simp only [boundIn?_eq_some_iff hhistory, boundIn?_eq_none_iff hhistory]
    grind
  none := by
    intro id frames name h
    rw [get?_eq_findSome? hhistory h, List.findSome?_eq_none_iff]
    simp only [boundIn?_eq_none_iff hhistory]

end Lexical

end Store

open Store (Step Lexical)

namespace Eval

/-- The computation continues the history: it ends or fails in the state that its steps lead to,
names are looked up lexically after each of them, and the captured frames of its value are there. -/
def Continues (history : List Step) (m : Machine) (action : Eval Value) : Prop :=
  ∃ steps, Performs m action steps ∧ Store.empty.AdmitsAll (history ++ steps) ∧
    (runIn m action).2.store = Store.empty.afterAll (history ++ steps) ∧
    (∀ done, done <+: steps → Lexical (history ++ done)) ∧
    ∀ v, (runIn m action).1 = .ok v → v.Scoped (runIn m action).2.store.frames.size

/-- A computation that keeps states well scoped continues the history of the state. -/
theorem Scopes.continues {history : List Step} {m : Machine} {action : Eval Value}
    (h : Scopes m.store.frames.size Value.Scoped action)
    (hhistory : Store.empty.AdmitsAll history) (hm : m.store = Store.empty.afterAll history) :
    Continues history m action := by
  have hscoped : m.store.Scoped := hm ▸ Store.scoped_empty.afterAll hhistory
  obtain ⟨steps, hperforms, hadmits, hvalue⟩ := h m hscoped (Nat.le_refl _)
  rw [hm] at hadmits
  refine ⟨steps, hperforms, Store.admitsAll_append.mpr ⟨hhistory, hadmits⟩, ?_, ?_, hvalue⟩
  · rw [hperforms.store_eq, hm, Store.afterAll_append]
  · rintro done ⟨rest, rfl⟩
    have hdone := (Store.admitsAll_append.mp hadmits).1
    exact (Store.admitsAll_append.mpr ⟨hhistory, hdone⟩).lexical

end Eval

/-- After every history of frames made and names bound, in which all frames that are named were
there when they were named, frames have kept the parents that they were made with, all parents and
captured frames are there, and looking up a name goes outward, ends, and gives the value that the
name was bound to most recently in the nearest frame in which it was ever bound. What is evaluated
from there, in any of the frames, goes on with the history by steps of the same kind until it ends
or fails, so this holds after each of its steps too. -/
theorem lexical_scoping {history : List Step} (hhistory : Store.empty.AdmitsAll history) :
    Lexical history ∧ ∀ m : Machine, m.store = Store.empty.afterAll history →
      (∀ table depth frame n, frame < m.store.frames.size →
        Eval.Continues history m (Eval.node table depth frame n)) ∧
      ∀ table depth line function args, function.Scoped m.store.frames.size →
        Eval.AllScoped m.store.frames.size args →
        Eval.Continues history m (Eval.apply table depth line function args) := by
  refine ⟨hhistory.lexical, fun m hm => ⟨?_, ?_⟩⟩
  · intro table depth frame n hframe
    exact (Eval.scopes_node table depth hframe n).continues hhistory hm
  · intro table depth line function args hfunction hargs
    have happly := (Eval.scopesAt table depth).apply _ line function args hfunction hargs
    exact happly.continues hhistory hm

/-- A function that binds `x` and then divides by zero. -/
def failingBody : Ast.Block :=
  .mk [.var ⟨"x", 1⟩ (.int 3 1) 1,
    .expr (.binary (.known .div) (.ident "x" 1) (.int 0 1) 1) 1] 1

/-- A name is bound anew in an outer frame after an inner frame was made, a closure is made there,
and a third frame stands inside it. -/
def shadowing : List Step :=
  [.newFrame, .set 0 "x" (.int 1), .enclose 0, .set 0 "x" (.int 2),
    .set 1 "f" (.closure [] failingBody 1), .enclose 1]

/-- A call that fails after it has made a frame and bound a name goes on with the history. -/
theorem lexical_scoping_shadowing :
    Store.empty.AdmitsAll shadowing ∧ Lexical shadowing ∧
      (Store.empty.afterAll shadowing).get? "x" 2 = some (.int 2) ∧
      2 < (Store.empty.afterAll shadowing).frames.size ∧
      Eval.Continues shadowing ⟨Store.empty.afterAll shadowing, "", []⟩
        (Eval.node .standard 10 2 (.expr (.call (.ident "f" 1) [] 1))) := by
  have hadmits : Store.empty.AdmitsAll shadowing :=
    ⟨trivial, ⟨Nat.zero_lt_one, trivial⟩, Nat.zero_lt_one, ⟨Nat.zero_lt_two, trivial⟩,
      ⟨Nat.one_lt_two, Nat.one_lt_two⟩, Nat.one_lt_two, trivial⟩
  have hframe : 2 < (Store.empty.afterAll shadowing).frames.size := by decide
  obtain ⟨hlexical, hcontinues⟩ := lexical_scoping hadmits
  have houtward : Store.Outward shadowing 2 [2, 1, 0] := .inside rfl (.inside rfl (.outermost rfl))
  refine ⟨hadmits, hlexical, (hlexical.value "x" (.int 2) houtward).mpr ?_, hframe, ?_⟩
  · refine ⟨[2, 1], 0, [], rfl, ?_, shadowing.take 3, shadowing.drop 4, rfl, ?_⟩ <;>
      simp [Store.Binds, shadowing]
  exact (hcontinues _ rfl).1 .standard 10 2 _ hframe

end EtherLang
