import EtherLang.Proofs.Eval.Failing
import EtherLang.Proofs.Eval.Limits
import EtherLang.Proofs.Eval.Repetition

/-!
# Mapping a function over an array

`map` calls a function for one element after the other, each time in the state that the calls before
have left. As a call leaves all frames as they are that were there before it, none of the calls has
an influence on the next one: each gives what it would give if it were made alone in the state
before the map, up to the numbers of the frames that are made on the way. So the result is made of
the values of these calls and the output of their outputs, up to the first call that fails.
-/

namespace EtherLang

/-- The second value is in its store what the first one is in its store: the frames of the first
store have numbers in the second one, which are the same for all frames below `count`, and value and
frames are the same but for these numbers. -/
def SameValue (count : Nat) (v : Value) (s : Store) (w : Value) (s' : Store) : Prop :=
  ∃ ρ : FrameId → FrameId, StrictMono ρ ∧ (∀ id < count, ρ id = id) ∧ w = v.rename ρ ∧
    ∀ id f, s.frame? id = some f → s'.frame? (ρ id) = some (f.rename ρ)

/-- A value stays what it is when frames are added. -/
theorem SameValue.trans_extends {count : Nat} {v w : Value} {s s' s'' : Store}
    (h : SameValue count v s w s') (hextends : s'.Extends s'') : SameValue count v s w s'' := by
  obtain ⟨ρ, hρ, hold, hvalue, hframes⟩ := h
  exact ⟨ρ, hρ, hold, hvalue, fun id f hf => hextends _ _ (hframes id f hf)⟩

/-- Frames stay as they are when frames are added twice. -/
theorem Store.Extends.trans {s s' s'' : Store} (h : s.Extends s') (h' : s'.Extends s'') :
    s.Extends s'' :=
  fun id f hf => h' id f (h id f hf)

namespace Eval

/-- The call of a function for one element, made by itself in a state. -/
def alone (table : BuiltinTable) (levels : Nat) (function : Value) (m : Machine) (x : Value) :
    Except Fault Value × Machine :=
  runIn m (apply table levels none function [x])

/-- The results of the calls for each element, in the order of the elements, as they are in a store
that has more frames. -/
def ResultsOf (calls : Value → Except Fault Value × Machine) (m : Machine) (xs : List Value)
    (results : List Value) (s : Store) : Prop :=
  List.Forall₂ (fun x result => ∃ v, (calls x).1 = .ok v ∧
    SameValue m.store.frames.size v (calls x).2.store result s) xs results

/-- The texts that the calls for each element write, in the order of the elements. -/
def TextsOf (calls : Value → Except Fault Value × Machine) (m : Machine) (xs : List Value)
    (texts : List String) : Prop :=
  List.Forall₂ (fun x text => (calls x).2.output = m.output ++ text) xs texts

section Calls

variable {m m' : Machine} {table : BuiltinTable} {levels depth : Nat} {function x : Value}

/-- A call in a state with more frames and with no less depth ends as the call alone does: with a
value that differs by the numbers of frames or with the same fault. It writes the same text. -/
theorem alone_later (hm : m.store.Scoped) (hextends : m.store.Extends m'.store)
    (hle : levels ≤ depth) (hfunction : function.Scoped m.store.frames.size)
    (hx : x.Scoped m.store.frames.size)
    (hends : (alone table levels function m x).1 ≠ .error .exhausted) :
    (alone table depth function m' x).1 = (alone table levels function m x).1.map
        (Value.rename (moved m.store.frames.size m'.store.frames.size)) ∧
      Corresponds (moved m.store.frames.size m'.store.frames.size) m.output m'.output
        (alone table levels function m x).2 (alone table depth function m' x).2 := by
  have hsimulates := (simulatesAt table depth (moved_strictMono hextends.size_le) m.output
    m'.output).apply none function [x]
  rw [Value.rename_moved function hfunction, List.map_singleton, Value.rename_moved x hx]
    at hsimulates
  have hdeeper : alone table depth function m x = alone table levels function m x :=
    (runIn_apply_of_le hle table none function [x] m).resolve_left hends
  rw [← hdeeper]
  exact hsimulates m m' (hm.corresponds hextends)

/-- A call that gives a value when it is made alone gives that value later. -/
theorem alone_later_ok (hm : m.store.Scoped) (hextends : m.store.Extends m'.store)
    (hle : levels ≤ depth) (hfunction : function.Scoped m.store.frames.size)
    (hx : x.Scoped m.store.frames.size) {v : Value}
    (hv : (alone table levels function m x).1 = .ok v) :
    ∃ w m'' text, runIn m' (apply table depth none function [x]) = (.ok w, m'') ∧
      SameValue m.store.frames.size v (alone table levels function m x).2.store w m''.store ∧
      (alone table levels function m x).2.output = m.output ++ text ∧
      m''.output = m'.output ++ text := by
  have hends : (alone table levels function m x).1 ≠ .error .exhausted := by rw [hv]; nofun
  obtain ⟨hresult, hstates⟩ := alone_later hm hextends hle hfunction hx hends
  obtain ⟨text, hown, houtput⟩ := hstates.written
  rw [hv] at hresult
  refine ⟨_, _, text, Prod.ext hresult rfl, ?_, hown, houtput⟩
  refine ⟨_, moved_strictMono hextends.size_le, fun id hid => moved_of_lt hid, rfl, ?_⟩
  intro id f hf
  rw [← Option.map_some, ← hf]
  exact hstates.frames id

/-- A call that fails when it is made alone fails later in the same way. -/
theorem alone_later_error (hm : m.store.Scoped) (hextends : m.store.Extends m'.store)
    (hle : levels ≤ depth) (hfunction : function.Scoped m.store.frames.size)
    (hx : x.Scoped m.store.frames.size) {fault : Fault} (hfault : fault ≠ .exhausted)
    (hx' : (alone table levels function m x).1 = .error fault) :
    ∃ m'' text, runIn m' (apply table depth none function [x]) = (.error fault, m'') ∧
      (alone table levels function m x).2.output = m.output ++ text ∧
      m''.output = m'.output ++ text := by
  have hends : (alone table levels function m x).1 ≠ .error .exhausted := by
    rw [hx']
    exact fun h => hfault (Except.error.inj h)
  obtain ⟨hresult, hstates⟩ := alone_later hm hextends hle hfunction hx hends
  obtain ⟨text, hown, houtput⟩ := hstates.written
  rw [hx'] at hresult
  exact ⟨_, text, Prod.ext hresult rfl, hown, houtput⟩

/-- Calls one after the other, each of which gives a value when it is made alone, give these values
and write what the calls alone write. -/
theorem runIn_mapM_apply (hm : m.store.Scoped) (hextends : m.store.Extends m'.store)
    (hle : levels ≤ depth) (hfunction : function.Scoped m.store.frames.size) {xs : List Value}
    (hxs : AllScoped m.store.frames.size xs)
    (hvalues : ∀ x ∈ xs, ∃ v, (alone table levels function m x).1 = .ok v) :
    ∃ results m'' texts,
      runIn m' (xs.mapM fun x => apply table depth none function [x]) = (.ok results, m'') ∧
      m'.store.Extends m''.store ∧ m''.output = m'.output ++ String.join texts ∧
      ResultsOf (alone table levels function m) m xs results m''.store ∧
      TextsOf (alone table levels function m) m xs texts := by
  -- The calls to come run in the state that the first one leaves, which has more frames yet.
  induction xs generalizing m' with
  | nil => exact ⟨[], m', [], rfl, fun _ _ => id, by simp, .nil, .nil⟩
  | cons x xs ih =>
    obtain ⟨hx, hxs⟩ := List.forall_mem_cons.mp hxs
    obtain ⟨⟨v, hv⟩, hvalues⟩ := List.forall_mem_cons.mp hvalues
    obtain ⟨w, m₁, text, hfirst, hsame, hown, houtput⟩ :=
      alone_later_ok hm hextends hle hfunction hx hv
    have hstep : m'.store.Extends m₁.store := by
      have heffects := ((effectsAt table depth).apply none function [x] m').extends
      rwa [hfirst] at heffects
    obtain ⟨results, m₂, texts, hothers, hlater, houtputs, hresults, htexts⟩ :=
      ih (hextends.trans hstep) hxs hvalues
    refine ⟨w :: results, m₂, text :: texts, ?_, hstep.trans hlater, ?_,
      .cons ⟨v, hv, hsame.trans_extends hlater⟩ hresults, .cons hown htexts⟩
    · rw [List.mapM_cons, runIn_bind_ok hfirst, runIn_bind_ok hothers, runIn_pure]
    · rw [houtputs, houtput, String.append_assoc, String.join_cons]

end Calls

section Map

variable {m : Machine} {table : BuiltinTable} {levels depth : Nat} {line : Option Int}
  {function : Value}

/-- What `map` does with an array and a function. -/
theorem runIn_apply_map (hcallable : function.kind = .function ∨ function.kind = .builtin)
    (xs : List Value) :
    runIn m (apply table (depth + 1) line (.builtin .map) [.array xs, function]) =
      runIn m (placedAt line do
        return .array (← xs.mapM fun x => apply table depth none function [x])) := by
  match function with
  | .closure .. | .builtin _ => rfl
  | .null | .int _ | .bool _ | .array _ => simp [Value.kind] at hcallable

/-- A call that has more than the given levels, or that does not come to its limit, can be taken to
have more than these levels. -/
theorem exists_deeper {args : List Value}
    (hlimit : levels < depth ∨
      (runIn m (apply table depth line function args)).1 ≠ .error .exhausted) :
    ∃ below, levels ≤ below ∧ runIn m (apply table depth line function args) =
      runIn m (apply table (below + 1) line function args) := by
  obtain hlt | hends := hlimit
  · exact ⟨depth - 1, by omega, by rw [Nat.sub_add_cancel (by omega)]⟩
  · have hle : depth ≤ max levels depth + 1 := by omega
    exact ⟨max levels depth, Nat.le_max_left _ _,
      ((runIn_apply_of_le hle table line function args m).resolve_left hends).symm⟩

end Map

/-- Mapping a function over an array is made of the calls for its elements, each made alone in the
state before the map, which may be any state that is well scoped, as all are that can be reached. If
all of the calls give values, these are the elements of the result, but for the numbers of the
frames made on the way, and their texts are written one after the other. Otherwise the map fails as
the first of the calls that fails, and up to the text of that call the texts are written. No frame
from before is changed. The recursion limit must not be reached: the map has more levels than the
calls alone, or it does not run out of levels. -/
theorem map_pointwise {m : Machine} (hm : m.store.Scoped) (table : BuiltinTable)
    (levels depth : Nat) (line : Option Int) {function : Value}
    (hcallable : function.kind = .function ∨ function.kind = .builtin)
    (hfunction : function.Scoped m.store.frames.size) {xs : List Value}
    (hxs : AllScoped m.store.frames.size xs)
    (hlimit : levels < depth ∨ (runIn m (apply table depth line (.builtin .map)
      [.array xs, function])).1 ≠ .error .exhausted) :
    let calls := alone table levels function m
    let mapping := runIn m (apply table depth line (.builtin .map) [.array xs, function])
    m.store.Extends mapping.2.store ∧
      ((∀ x ∈ xs, ∃ v, (calls x).1 = .ok v) →
        ∃ results texts, mapping.1 = .ok (.array results) ∧
          mapping.2.output = m.output ++ String.join texts ∧
          ResultsOf calls m xs results mapping.2.store ∧ TextsOf calls m xs texts) ∧
      ∀ before x after fault, xs = before ++ x :: after →
        (∀ y ∈ before, ∃ v, (calls y).1 = .ok v) → (calls x).1 = .error fault →
        fault ≠ .exhausted →
        ∃ texts, mapping.1 = .error (placedFault line fault) ∧
          mapping.2.output = m.output ++ String.join texts ∧
          TextsOf calls m (before ++ [x]) texts := by
  intro calls mapping
  have hself : m.store.Extends m.store := fun _ _ => id
  obtain ⟨below, hle, hdeeper⟩ := exists_deeper hlimit
  replace hdeeper : mapping = _ := hdeeper.trans (runIn_apply_map hcallable xs)
  refine ⟨((effectsAt table depth).apply line _ _ m).extends, ?_, ?_⟩
  · intro hvalues
    obtain ⟨results, m', texts, hrun, -, houtput, hresults, htexts⟩ :=
      runIn_mapM_apply hm hself hle hfunction hxs hvalues
    have hmapping : mapping = (.ok (.array results), m') := by
      rw [hdeeper]
      exact runIn_placedAt_ok (runIn_bind_ok hrun _) line
    rw [hmapping]
    exact ⟨results, texts, rfl, houtput, hresults, htexts⟩
  · rintro before x after fault rfl hvalues hx hfault
    have hbefore : AllScoped m.store.frames.size before :=
      fun y hy => hxs y (List.mem_append_left _ hy)
    obtain ⟨results, m', texts, hrun, hextends, houtput, -, htexts⟩ :=
      runIn_mapM_apply hm hself hle hfunction hbefore hvalues
    obtain ⟨m'', text, hfails, hown, hlast⟩ := alone_later_error hm hextends hle hfunction
      (hxs x (List.mem_append_right _ List.mem_cons_self)) hfault hx
    have hmapping : mapping = (.error (placedFault line fault), m'') := by
      rw [hdeeper]
      exact runIn_placedAt_error (runIn_bind_error (runIn_mapM_error hrun hfails after) _) line
    rw [hmapping]
    refine ⟨texts ++ [text], rfl, ?_, List.rel_append htexts (.cons hown .nil)⟩
    rw [hlast, houtput, String.append_assoc, String.join_append]
    simp

/-- A function that writes its argument and negates it. -/
def negateAloud : Value :=
  .closure [⟨"x", 1⟩]
    (.mk [.expr (.call (.ident "puts" 1) [.ident "x" 1] 1) 1,
      .expr (.unary (.known .negate) (.ident "x" 2) 2) 2] 1) 0

/-- Two elements are kept by closures, whose frames would both have number one if the calls were
made alone. Of three elements the second one cannot be negated, and the third one is not written. -/
theorem map_pointwise_keep_negateAloud :
    let m : Machine := ⟨Store.empty.newFrame.2, "", []⟩
    let bools : List Value := [.bool true, .bool false]
    let kept := runIn m (apply .standard 9 (some 3) (.builtin .map) [.array bools, keep])
    let mixed : List Value := [.int 1, .bool true, .int 2]
    let negated := runIn m (apply .standard 9 (some 3) (.builtin .map) [.array mixed, negateAloud])
    let fault : Fault := .error ⟨.unknownUnary (.known .negate) .boolean, some 2⟩
    m.store.Reachable ∧ m.store.Scoped ∧ keep.Scoped m.store.frames.size ∧
      negateAloud.Scoped m.store.frames.size ∧ AllScoped m.store.frames.size bools ∧
      AllScoped m.store.frames.size mixed ∧
      (∀ x ∈ bools, (alone .standard 8 keep m x).1 =
        .ok (.closure [] (.mk [.expr (.ident "x" 2) 2] 2) 1)) ∧
      (∃ results texts, kept.1 = .ok (.array results) ∧ kept.2.output = "" ++ String.join texts ∧
        ResultsOf (alone .standard 8 keep m) m bools results kept.2.store ∧
        TextsOf (alone .standard 8 keep m) m bools texts) ∧
      ∃ texts, negated.1 = .error fault ∧ negated.2.output = "" ++ String.join texts ∧
        TextsOf (alone .standard 8 negateAloud m) m [.int 1, .bool true] texts := by
  intro m bools kept mixed negated fault
  have hreachable : m.store.Reachable := .newFrame .empty
  have hscoped : keep.Scoped m.store.frames.size := Nat.zero_lt_one
  have hscoped' : negateAloud.Scoped m.store.frames.size := Nat.zero_lt_one
  have hbools : AllScoped m.store.frames.size bools :=
    List.forall_mem_cons.mpr ⟨trivial, List.forall_mem_singleton.mpr trivial⟩
  have hmixed : AllScoped m.store.frames.size mixed := List.forall_mem_cons.mpr
    ⟨trivial, List.forall_mem_cons.mpr ⟨trivial, List.forall_mem_singleton.mpr trivial⟩⟩
  have hkeep : ∀ x ∈ bools, (alone .standard 8 keep m x).1 =
      .ok (.closure [] (.mk [.expr (.ident "x" 2) 2] 2) 1) :=
    List.forall_mem_cons.mpr ⟨by with_unfolding_all rfl,
      List.forall_mem_singleton.mpr (by with_unfolding_all rfl)⟩
  have hone : (alone .standard 8 negateAloud m (.int 1)).1 = .ok (.int (-1)) := by
    with_unfolding_all rfl
  have htrue : (alone .standard 8 negateAloud m (.bool true)).1 = .error fault := by
    with_unfolding_all rfl
  have hfault : fault ≠ .exhausted := by simp [fault]
  refine ⟨hreachable, hreachable.scoped, hscoped, hscoped', hbools, hmixed, hkeep, ?_, ?_⟩
  · exact (map_pointwise hreachable.scoped .standard 8 9 (some 3) (.inl rfl) hscoped hbools
      (.inl (by decide))).2.1 fun x hx => ⟨_, hkeep x hx⟩
  · exact (map_pointwise hreachable.scoped .standard 8 9 (some 3) (.inl rfl) hscoped' hmixed
      (.inl (by decide))).2.2 [.int 1] (.bool true) [.int 2] fault rfl
      (List.forall_mem_singleton.mpr ⟨_, hone⟩) htrue hfault

end Eval

end EtherLang
