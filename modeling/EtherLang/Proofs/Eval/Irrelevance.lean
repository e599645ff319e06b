import EtherLang.Proofs.Eval.Comparison

/-!
# Variables that are never read

A variable that neither a program nor any function within its reach reads does not matter to it:
whether the variable is bound first or not, the program ends with the same value or the same error,
writes the same text and leaves all other variables the same. What a program can reach are the
frames around it, the frames of the functions that are bound there, and so on. It never gets further
than to these and to frames that it makes itself, so this is all that has to be looked through.
-/

namespace EtherLang

/-- Two frames that have the same parent and differ at most in the value of one name. -/
def Frame.SameBut (n : String) (f f' : Frame) : Prop :=
  f'.parent = f.parent ∧ ∀ name, name ≠ n → f'.get? name = f.get? name

/-- A frame is the same as itself. -/
theorem Frame.SameBut.refl (n : String) (f : Frame) : f.SameBut n f :=
  ⟨rfl, fun _ _ => rfl⟩

/-- A frame in which the name is bound anew is the same but for the name. -/
theorem Frame.sameBut_set (n : String) (v : Value) (f : Frame) : f.SameBut n (f.set n v) :=
  ⟨rfl, fun _ hname => f.get?_set_of_ne hname v⟩

/-- The same binding keeps frames the same but for the name. -/
theorem Frame.SameBut.set {n : String} {f f' : Frame} (h : f.SameBut n f') (name : String)
    (v : Value) : (f.set name v).SameBut n (f'.set name v) := by
  refine ⟨h.1, fun other hother => ?_⟩
  by_cases heq : other = name
  · rw [heq, get?_set_self, get?_set_self]
  · rw [get?_set_of_ne _ heq, get?_set_of_ne _ heq, h.2 other hother]

namespace Store

/-- Two stores with the same frames but for the values of one name. -/
def SameBut (n : String) (s s' : Store) : Prop :=
  ∀ id, Option.Rel (Frame.SameBut n) (s.frame? id) (s'.frame? id)

/-- What can be reached from a frame: the frame itself, its parent, and the frames of the closures
that are bound in it; and what can be reached from these. -/
inductive Reaches (s : Store) (start : FrameId) : FrameId → Prop
  | itself : Reaches s start start
  | parent {id parent : FrameId} {f : Frame} :
    Reaches s start id → s.frame? id = some f → f.parent = some parent → Reaches s start parent
  | captured {id captured : FrameId} {f : Frame} {name : String} {v : Value} {body : Ast.Block} :
    Reaches s start id → s.frame? id = some f → f.get? name = some v → v.Holds body captured →
    Reaches s start captured

/-- A closure with the body is bound in a frame that can be reached, perhaps inside an array. -/
def ReachesClosure (s : Store) (start : FrameId) (body : Ast.Block) : Prop :=
  ∃ id f name v captured, s.Reaches start id ∧ s.frame? id = some f ∧ f.get? name = some v ∧
    v.Holds body captured

section SameBut

variable {n : String} {s s' : Store}

/-- Binding the name makes a store that is the same but for the name. -/
theorem sameBut_set_self (n : String) (v : Value) (s : Store) (frame : FrameId) :
    s.SameBut n (s.set frame n v) := by
  intro id
  by_cases hid : id = frame
  · rw [hid, frame?_set_self]
    cases s.frame? frame with
    | none => exact .none
    | some f => exact .some (f.sameBut_set n v)
  · rw [frame?_set_of_ne s hid]
    cases s.frame? id with
    | none => exact .none
    | some f => exact .some (.refl n f)

/-- The same binding keeps stores the same but for the name. -/
theorem SameBut.set (h : s.SameBut n s') (frame : FrameId) (name : String) (v : Value) :
    (s.set frame name v).SameBut n (s'.set frame name v) := by
  intro id
  by_cases hid : id = frame
  · rw [hid, frame?_set_self, frame?_set_self]
    match s.frame? frame, s'.frame? frame, h frame with
    | _, _, .none => exact .none
    | _, _, .some hf => exact .some (hf.set name v)
  · rw [frame?_set_of_ne s hid, frame?_set_of_ne s' hid]
    exact h id

/-- New frames of the same parent keep stores the same but for the name. -/
theorem SameBut.enclose (h : s.SameBut n s') (hsize : s'.frames.size = s.frames.size)
    (parent : FrameId) : (s.enclose parent).2.SameBut n (s'.enclose parent).2 := by
  intro id
  simp only [Store.enclose, Store.push, Store.frame?, Array.getElem?_push, hsize]
  split
  · exact .some (.refl n _)
  · exact h id

end SameBut

end Store

namespace Comparison

/-- Frames that belong together are the same, and they are among the given ones. -/
def Within (inside : FrameId → Prop) (c d : FrameId) : Prop :=
  c = d ∧ inside c

/-- From a frame the given ones are not left: not by its parent, nor by the closures that are bound
in it; and none of these reads the name. -/
def Contains (n : String) (inside : FrameId → Prop) (f : Frame) : Prop :=
  (∀ parent, f.parent = some parent → inside parent) ∧
    ∀ name v, name ≠ n → f.get? name = some v → Value.Related (Within inside) (· ≠ n) v v

/-- Two states that differ in the values of the name at most. The given frames are not left by way
of other names, and all frames from some number on are among them. -/
structure Unread (n : String) (inside : FrameId → Prop) (start : Nat) (a b : Machine) : Prop where
  store : a.store.SameBut n b.store
  size : b.store.frames.size = a.store.frames.size
  output : b.output = a.output
  start_le : start ≤ a.store.frames.size
  contained : ∀ id f, inside id → a.store.frame? id = some f → Contains n inside f

section Unread

variable {n : String} {inside : FrameId → Prop} {start : Nat} {a b : Machine}

/-- From the given frames other names have the same values. -/
theorem Unread.get? (h : Unread n inside start a b) {c : FrameId} (hc : inside c) {name : String}
    (hname : name ≠ n) :
    Option.Rel (Value.Related (Within inside) (· ≠ n)) (a.store.get? name c)
      (b.store.get? name c) := by
  rw [Store.get?, Store.get?]
  have hsame := h.store c
  cases hf : a.store.frame? c with
  | none =>
    rw [hf] at hsame
    match b.store.frame? c, hsame with
    | _, .none => exact .none
  | some f =>
    obtain ⟨hparent, hvalue⟩ := h.contained c f hc hf
    rw [hf] at hsame
    match b.store.frame? c, hsame with
    | some f', .some hsame =>
      simp only [hsame.1, hsame.2 name hname]
      cases hv : f.get? name with
      | some v => exact .some (hvalue name v hname hv)
      | none =>
        cases hp : f.parent with
        | none => exact .none
        | some parent =>
          dsimp only
          split
          · exact h.get? (hparent parent hp) hname
          · exact .none
termination_by c

/-- The same binding in one of the given frames. -/
theorem Unread.set (h : Unread n inside start a b) (c : FrameId) (name : String) {v : Value}
    (hv : Value.Related (Within inside) (· ≠ n) v v) :
    Unread n inside start { a with store := a.store.set c name v }
      { b with store := b.store.set c name v } where
  store := h.store.set c name v
  size := by simpa [Store.set] using h.size
  output := h.output
  start_le := by simpa [Store.set] using h.start_le
  contained id f hid hf := by
    by_cases heq : id = c
    · subst heq
      rw [Store.frame?_set_self, Option.map_eq_some_iff] at hf
      obtain ⟨g, hg, rfl⟩ := hf
      obtain ⟨hparent, hvalue⟩ := h.contained id g hid hg
      refine ⟨hparent, fun other w hother hw => ?_⟩
      by_cases hsame : other = name
      · rw [hsame, Frame.get?_set_self] at hw
        cases hw
        exact hv
      · rw [Frame.get?_set_of_ne _ hsame] at hw
        exact hvalue other w hother hw
    · rw [Store.frame?_set_of_ne _ heq] at hf
      exact h.contained id f hid hf

/-- New frames inside the same one of the given frames. -/
theorem Unread.enclose (h : Unread n inside start a b) {c : FrameId} (hc : inside c) :
    Unread n inside start { a with store := (a.store.enclose c).2 }
      { b with store := (b.store.enclose c).2 } where
  store := h.store.enclose h.size c
  size := by simp [Store.enclose, Store.push, h.size]
  output := h.output
  start_le := by
    have hle := h.start_le
    simp [Store.enclose, Store.push]
    omega
  contained id f hid hf := by
    simp only [Store.enclose, Store.push, Store.frame?, Array.getElem?_push] at hf
    split at hf
    · cases hf
      constructor
      · rintro _ ⟨⟩
        exact hc
      · rintro _ _ _ ⟨⟩
    · exact h.contained id f hid hf

end Unread

/-- The comparison of two runs that differ in a name that is not read. -/
def unread (n : String) (inside : FrameId → Prop) (start : Nat)
    (hinside : ∀ id, start ≤ id → inside id) : Comparison where
  lenient := False
  readable := (· ≠ n)
  frames := Within inside
  states := Unread n inside start
  get? := by
    rintro a b c _ name hab ⟨rfl, hc⟩ hname
    exact hab.get? hc hname
  set := by
    rintro a b c _ v w name hab ⟨rfl, -⟩ hvw
    cases hvw.eq fun _ _ hcd => hcd.1
    exact hab.set c name hvw
  enclose := by
    rintro a b c _ hab ⟨rfl, hc⟩
    exact ⟨⟨hab.size.symm, hinside _ hab.start_le⟩, hab.enclose hc⟩
  write := by
    intro a b text hab
    exact ⟨hab.store, hab.size, congrArg (· ++ text) hab.output, hab.start_le, hab.contained⟩
  closure := by
    intro a b c d line hab _
    exact ⟨hab.store, hab.size, hab.output, hab.start_le, hab.contained⟩

end Comparison

namespace Eval

/-- What a frame can reach, together with all frames to come, is not left. -/
theorem unread_of_reaches {n : String} {m : Machine} {frame : FrameId}
    (hclosures : ∀ body, m.store.ReachesClosure frame body → n ∉ body.reads) (v : Value) :
    Comparison.Unread n (fun id => m.store.Reaches frame id ∨ m.store.frames.size ≤ id)
      m.store.frames.size m { m with store := m.store.set frame n v } where
  store := m.store.sameBut_set_self n v frame
  size := by simp [Store.set]
  output := rfl
  start_le := Nat.le_refl _
  contained id f hid hf := by
    have hlt : id < m.store.frames.size := (Array.getElem?_eq_some_iff.mp hf).1
    have hreach : m.store.Reaches frame id := hid.resolve_right (Nat.not_le.mpr hlt)
    refine ⟨fun parent hparent => .inl (hreach.parent hf hparent), fun name w _ hw => ?_⟩
    refine Value.related_self fun body captured hholds => ⟨⟨rfl, .inl ?_⟩, ?_⟩
    · exact hreach.captured hf hw hholds
    · rintro name hname rfl
      exact hclosures body ⟨id, f, _, w, captured, hreach, hf, hw, hholds⟩ hname

/-- A name that neither a node reads nor the body of any closure that can be reached from the frame
may be bound in the frame first: the node still ends with the same value or the same error and the
program writes the same text. All frames have the same parents afterwards and give every other name
the same value. -/
theorem node_of_unread (table : BuiltinTable) (depth : Nat) (m : Machine) (frame : FrameId)
    (node : Ast.Node) (n : String) (v : Value) (hnode : n ∉ node.reads)
    (hclosures : ∀ body, m.store.ReachesClosure frame body → n ∉ body.reads) :
    let without := runIn m (Eval.node table depth frame node)
    let bound := runIn m (do assign frame n v; Eval.node table depth frame node)
    bound.1 = without.1 ∧ bound.2.output = without.2.output ∧
      without.2.store.SameBut n bound.2.store := by
  intro without bound
  let C := Comparison.unread n (fun id => m.store.Reaches frame id ∨ m.store.frames.size ≤ id)
    m.store.frames.size fun _ => .inr
  have hdepth : C.Depths depth depth := .inl rfl
  have hends : C.Ends C.Values without bound ∨ C.lenient ∧ _ := C.ends_node table hdepth
    ⟨rfl, .inl .itself⟩ (fun name hname heq => hnode (heq ▸ hname)) (unread_of_reaches hclosures v)
  match without, bound, hends with
  | (_, _), (_, _), .inl (.ok hvalue hstate) =>
    exact ⟨congrArg Except.ok (hvalue.eq fun _ _ hcd => hcd.1).symm, hstate.output, hstate.store⟩
  | (_, _), (_, _), .inl (.error hstate) => exact ⟨rfl, hstate.output, hstate.store⟩

/-- A function in an array, which adds the variable of its own frame. -/
def sum : Value :=
  .closure [⟨"x", 1⟩] (.mk [.expr (.binary (.known .add) (.ident "x" 1) (.ident "y" 1) 1) 1] 1) 1

/-- The state in which there is this array. -/
def sumDefined : Machine :=
  ⟨⟨#[⟨none, [("f", .array [sum])]⟩, ⟨some 0, [("y", .int 2)]⟩]⟩, "", []⟩

/-- The program `var z = 1; puts(f[0](40))`. -/
def sumShown : Ast.Node :=
  .program ⟨[.var ⟨"z", 1⟩ (.int 1 1) 1, .expr (.call (.ident "puts" 1)
    [.call (.index (.ident "f" 1) (.int 0 1) 1) [.int 40 1] 1] 1) 1]⟩

/-- A function that does read the variable may be bound to it first, and is then replaced. -/
theorem node_of_unread_sumShown :
    let reader := Value.closure [] (.mk [.expr (.ident "z" 1) 1] 1) 0
    let bound := runIn sumDefined (do assign 0 "z" reader; node .standard 9 0 sumShown)
    "z" ∉ sumShown.reads ∧
      (∀ body, sumDefined.store.ReachesClosure 0 body → "z" ∉ body.reads) ∧
      bound.1 = .ok .null ∧ bound.2.output = "42\n" ∧
      (runIn sumDefined (node .standard 9 0 sumShown)).2.store.SameBut "z" bound.2.store := by
  intro reader bound
  have hnode : "z" ∉ sumShown.reads := by decide
  have hclosures : ∀ body, sumDefined.store.ReachesClosure 0 body → "z" ∉ body.reads := by
    rintro body ⟨id, f, name, w, captured, -, hf, hw, hholds⟩
    match id with
    | 0 =>
      obtain rfl : ⟨none, [("f", .array [sum])]⟩ = f := Option.some.inj hf
      simp only [Frame.get?, List.lookup_cons, List.lookup_nil] at hw
      split at hw <;> cases hw
      cases hholds with
      | array hmem hholds =>
        cases List.mem_singleton.mp hmem
        cases hholds
        decide
    | 1 =>
      obtain rfl : ⟨some 0, [("y", .int 2)]⟩ = f := Option.some.inj hf
      simp only [Frame.get?, List.lookup_cons, List.lookup_nil] at hw
      split at hw <;> cases hw
      cases hholds
    | id + 2 => simp [sumDefined, Store.frame?] at hf
  have hwithout : (runIn sumDefined (node .standard 9 0 sumShown)).1 = .ok .null ∧
      (runIn sumDefined (node .standard 9 0 sumShown)).2.output = "42\n" := by
    exact ⟨by with_unfolding_all rfl, by decide +kernel⟩
  obtain ⟨hresult, houtput, hstore⟩ :=
    node_of_unread .standard 9 sumDefined 0 sumShown "z" reader hnode hclosures
  exact ⟨hnode, hclosures, hresult.trans hwithout.1, houtput.trans hwithout.2, hstore⟩

end Eval

end EtherLang
