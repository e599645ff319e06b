import EtherLang.Proofs.Eval.Effects
import EtherLang.Proofs.Eval.Renaming
import EtherLang.Proofs.Eval.Scoping

/-!
# Calls made again

A call leaves all frames as they are that were there before it. So the same call made again right
after it finds the same variables, and the only difference between the two is in the frames that
they make: those of the second call come after those of the first one. Up to the numbers of these
frames both end in the same value or in the same fault, and they write the same text.
-/

namespace EtherLang

/-- Frames from number `start` on moved up so that they start at number `restart`. -/
def moved (start restart id : Nat) : Nat :=
  if id < start then id else restart + (id - start)

section Moved

variable {start restart : Nat} {id : FrameId}

/-- Frames that were there before stay where they are. -/
theorem moved_of_lt (h : id < start) : moved start restart id = id :=
  if_pos h

/-- Frames made since keep their distances. -/
theorem moved_of_le (h : start ≤ id) : moved start restart id = restart + (id - start) := by
  rw [moved, if_neg (Nat.not_lt.mpr h)]

/-- Frames to come start anew. -/
theorem moved_add (k : Nat) : moved start restart (start + k) = restart + k := by
  rw [moved_of_le (Nat.le_add_right start k), Nat.add_sub_cancel_left]

/-- Moving frames up keeps their order. -/
theorem moved_strictMono (h : start ≤ restart) : StrictMono (moved start restart) := by
  intro a b hab
  rw [moved, moved]
  split <;> split <;> omega

mutual

/-- A value that mentions only frames from before stays as it is. -/
theorem Value.rename_moved (v : Value) (h : v.Scoped start) :
    v.rename (moved start restart) = v := by
  match v with
  | null | int _ | bool _ | builtin _ => rfl
  | array elements => exact congrArg Value.array (renameList_moved elements h)
  | closure params body captured => exact congrArg (Value.closure params body) (moved_of_lt h)
termination_by structural v

/-- Values that mention only frames from before stay as they are. -/
theorem Value.renameList_moved (vs : List Value) (h : Value.ScopedList start vs) :
    Value.renameList (moved start restart) vs = vs := by
  match vs with
  | [] => rfl
  | first :: others =>
    rw [Value.renameList, Value.rename_moved first h.1, Value.renameList_moved others h.2]
termination_by structural vs

end

/-- Arguments that mention only frames from before stay as they are. -/
theorem Eval.AllScoped.map_rename_moved {args : List Value} (h : Eval.AllScoped start args) :
    args.map (Value.rename (moved start restart)) = args := by
  rw [← Value.renameList_eq_map]
  exact Value.renameList_moved args (Value.scopedList_iff.mpr h)

/-- A frame from before stays as it is. -/
theorem Frame.Scoped.rename_moved {f : Frame} (h : f.Scoped start id) (hid : id < start) :
    f.rename (moved start restart) = f := by
  have hparent : f.parent.map (moved start restart) = f.parent := by
    cases hp : f.parent with
    | none => rfl
    | some p => exact congrArg some (moved_of_lt (Nat.lt_trans (h.parent p hp) hid))
  have hbindings : (f.rename (moved start restart)).bindings = f.bindings := by
    refine (List.map_congr_left fun binding hbinding => ?_).trans (List.map_id f.bindings)
    exact congrArg (Prod.mk binding.1) (Value.rename_moved binding.2 (h.bindings binding hbinding))
  exact congrArg₂ Frame.mk hparent hbindings

end Moved

namespace Store

/-- A store that has all frames of another one has at least as many. -/
theorem Extends.size_le {s s' : Store} (h : s.Extends s') : s.frames.size ≤ s'.frames.size := by
  by_contra hlt
  have hlast : s'.frames.size < s.frames.size := Nat.lt_of_not_le hlt
  have hf := h s'.frames.size s.frames[s'.frames.size] (Array.getElem?_eq_getElem hlast)
  exact Nat.lt_irrefl _ (lt_size_of_frame? hf)

/-- A state that has all frames of a well-scoped one is that state with the frames to come moved
up. -/
theorem Scoped.corresponds {a b : Machine} (hscoped : a.store.Scoped)
    (hextends : a.store.Extends b.store) :
    Corresponds (moved a.store.frames.size b.store.frames.size) a.output b.output a b := by
  refine ⟨fun id => ?_, moved_add, "", by simp, by simp⟩
  by_cases hid : id < a.store.frames.size
  · have hf : a.store.frame? id = some a.store.frames[id] := Array.getElem?_eq_getElem hid
    rw [moved_of_lt hid, hextends id _ hf, hf, Option.map_some, (hscoped id _ hf).rename_moved hid]
  · have hnone : a.store.frame? id = none := Array.getElem?_eq_none (Nat.le_of_not_lt hid)
    have hnone' : b.store.frame?
        (moved a.store.frames.size b.store.frames.size id) = none := by
      refine Array.getElem?_eq_none ?_
      rw [moved_of_le (Nat.le_of_not_lt hid)]
      exact Nat.le_add_right _ _
    rw [hnone, hnone', Option.map_none]

end Store

namespace Eval

/-- Two computations one after the other from a state end alike: with values that differ by the
numbers of the frames made since and have one display form, or with the same fault. They write the
same text and leave frames that differ by the numbers of the frames made since. -/
structure EndAlike (m : Machine) (first second : Except Fault Value × Machine) : Prop where
  result : second.1 =
    first.1.map (Value.rename (moved m.store.frames.size first.2.store.frames.size))
  display : second.1.map Value.display = first.1.map Value.display
  written : ∃ text, first.2.output = m.output ++ text ∧ second.2.output = first.2.output ++ text
  frames : ∀ id,
    second.2.store.frame? (moved m.store.frames.size first.2.store.frames.size id) =
      (first.2.store.frame? id).map
        (Frame.rename (moved m.store.frames.size first.2.store.frames.size))
  made : second.2.store.frames.size =
    first.2.store.frames.size + (first.2.store.frames.size - m.store.frames.size)

/-- A call made again right away, in any state that can be reached, ends as it ended before. -/
theorem apply_again_endAlike {m : Machine} (hm : m.store.Reachable) (table : BuiltinTable)
    (depth : Nat) (line : Option Int) {function : Value}
    (hfunction : function.Scoped m.store.frames.size) {args : List Value}
    (hargs : AllScoped m.store.frames.size args) :
    EndAlike m (runIn m (apply table depth line function args))
      (runIn (runIn m (apply table depth line function args)).2
        (apply table depth line function args)) := by
  have hextends := ((effectsAt table depth).apply line function args m).extends
  have hmono := moved_strictMono hextends.size_le
  have hsimulates := (simulatesAt table depth hmono m.output
    (runIn m (apply table depth line function args)).2.output).apply line function args
  -- The function and its arguments are from before both calls.
  rw [Value.rename_moved function hfunction, hargs.map_rename_moved] at hsimulates
  obtain ⟨hresult, hstates⟩ := hsimulates m _ (hm.scoped.corresponds hextends)
  refine ⟨hresult, ?_, hstates.written, hstates.frames, ?_⟩
  · rw [hresult]
    cases (runIn m (apply table depth line function args)).1 with
    | ok value => exact congrArg Except.ok (Value.display_rename _ value)
    | error fault => rfl
  · have hfresh := hstates.fresh 0
    rw [Nat.add_zero, Nat.add_zero, moved_of_le hextends.size_le] at hfresh
    exact hfresh.symm

/-- A function that writes its argument and gives a closure that returns it. -/
def keep : Value :=
  .closure [⟨"x", 1⟩]
    (.mk [.expr (.call (.ident "puts" 1) [.ident "x" 1] 1) 1,
      .expr (.function [] (.mk [.expr (.ident "x" 2) 2] 2) 2) 2] 1) 0

/-- Two elements are kept by closures in frames of their own, and in other ones when they are kept
again. -/
theorem apply_again_endAlike_keep :
    let m : Machine := ⟨Store.empty.newFrame.2, "", []⟩
    let call := apply .standard 9 none (.builtin .map) [.array [.bool true, .bool false], keep]
    m.store.Reachable ∧ AllScoped m.store.frames.size [.array [.bool true, .bool false], keep] ∧
      (runIn m call).2.store.frames.size = 3 ∧ (runIn m call).2.output = "true\nfalse\n" ∧
      EndAlike m (runIn m call) (runIn (runIn m call).2 call) := by
  intro m call
  have hm : m.store.Reachable := .newFrame .empty
  have hmap : (Value.builtin .map).Scoped m.store.frames.size := trivial
  have hargs : AllScoped m.store.frames.size [.array [.bool true, .bool false], keep] :=
    List.forall_mem_cons.mpr ⟨⟨trivial, trivial, trivial⟩,
      List.forall_mem_singleton.mpr Nat.zero_lt_one⟩
  refine ⟨hm, hargs, ?_, ?_, apply_again_endAlike hm .standard 9 none hmap hargs⟩
  · decide +kernel
  · decide +kernel

end Eval

end EtherLang
