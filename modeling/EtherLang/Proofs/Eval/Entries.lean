import EtherLang.Proofs.Ast.Join
import EtherLang.Proofs.Eval.Failing
import EtherLang.Proofs.Eval.Layout
import EtherLang.Proofs.Eval.Renaming

/-!
# Entries and the program that they make

Texts that are entered one after the other do what the one text does that is made of them, each on
lines of its own. They have to be closed off, so that the statements of the whole are the statements
of the entries; and none may end in a `return`, behind which the whole would not go on. The whole is
evaluated with other lines than the entries, and when it comes to an entry, it has already written
something and made closures. Nothing that can be seen depends on any of this.
-/

namespace EtherLang

section SameFrames

mutual

/-- A value in which no frame gets another number stays as it is. -/
theorem Value.rename_id (v : Value) : v.rename id = v := by
  match v with
  | null | int _ | bool _ | builtin _ | closure _ _ _ => rfl
  | array elements => exact congrArg Value.array (renameList_id elements)
termination_by structural v

/-- Values in which no frame gets another number stay as they are. -/
theorem Value.renameList_id (vs : List Value) : Value.renameList id vs = vs := by
  match vs with
  | [] => rfl
  | first :: others =>
    rw [Value.renameList, Value.rename_id first, Value.renameList_id others]
termination_by structural vs

end

/-- Frames in which no frame gets another number stay as they are. -/
theorem Frame.rename_id : Frame.rename id = id := by
  funext ⟨parent, bindings⟩
  simp [Frame.rename, Value.rename_id]

/-- An end in which no frame gets another number stays as it is. -/
theorem Completion.rename_id (c : Completion) : c.rename id = c := by
  cases c <;> simp [Completion.rename, Value.rename_id]

end SameFrames

namespace Eval

section Sequel

variable {table : BuiltinTable} {depth : Nat} {frame : FrameId} {ss ss' : List Ast.Stmt}
  {c : Completion} {m m' : Machine}

/-- Statements do the same whatever has been written and whatever closures have been made. -/
theorem statements_of_store
    (h : runIn ⟨m.store, "", []⟩ (statements (stmt table depth frame) ss) = (.ok c, m')) :
    ∃ m'', runIn m (statements (stmt table depth frame) ss) = (.ok c, m'') ∧
      m''.store = m'.store ∧ m''.output = m.output ++ m'.output := by
  have hsame : Corresponds id "" m.output ⟨m.store, "", []⟩ m := by
    refine ⟨fun k => ?_, fun k => rfl, "", rfl, String.append_empty.symm⟩
    rw [Frame.rename_id, Option.map_id, id_eq, id_eq]
  obtain ⟨hresult, hframes, -, text, hwritten, hwritten'⟩ :=
    simulates_statements table depth strictMono_id "" m.output frame ss _ _ hsame
  rw [h] at hresult hframes hwritten
  refine ⟨(runIn m (statements (stmt table depth frame) ss)).2, Prod.ext ?_ rfl, ?_, ?_⟩
  · rw [id_eq] at hresult
    rw [hresult]
    exact congrArg Except.ok (Completion.rename_id c)
  · refine congrArg Store.mk (Array.ext_getElem? fun k => ?_)
    have hframe := hframes k
    rw [id_eq, id_eq, Frame.rename_id, Option.map_id] at hframe
    exact hframe
  · rw [id_eq] at hwritten'
    rw [hwritten', hwritten, String.empty_append]

/-- Statements that are the same without their lines end alike. -/
theorem statements_of_eraseLines (hss : ss'.map Ast.Stmt.eraseLines = ss.map Ast.Stmt.eraseLines)
    (h : runIn m (statements (stmt table depth frame) ss) = (.ok c, m')) :
    ∃ c' m'', runIn m (statements (stmt table depth frame) ss') = (.ok c', m'') ∧
      c'.eraseLines = c.eraseLines ∧ m''.eraseLines = m'.eraseLines := by
  have hmirrors := mirrors_statements ((mirrorsAt table depth).stmt frame)
  obtain ⟨hresult, hstate⟩ := hmirrors ss m
  obtain ⟨hresult', hstate'⟩ := hmirrors ss' m
  rw [hss] at hresult' hstate'
  have halike := hresult'.of_common hresult
  rw [h] at halike hstate
  match hrun : runIn m (statements (stmt table depth frame) ss') with
  | (.ok c', m'') =>
    rw [hrun] at halike hstate'
    exact ⟨c', m'', rfl, halike, hstate'.symm.trans hstate⟩
  | (.error fault, m'') =>
    rw [hrun] at halike
    exact halike.elim

end Sequel

end Eval

namespace Session

open Eval
open Surface.Parser (ClosedOff)

/-- The depth to which the session reads a text. -/
def reading (s : Session) : Depth :=
  .atMost (levelsOf s.nextLimit.1)

/-- The session after a run that has left the state. -/
def resume (s : Session) (m : Machine) : Session :=
  { s with limit := s.nextLimit.1, store := m.store }

/-- In the session the text is read as the program, whose statements end so and leave the state. -/
structure Ends (s : Session) (source : String) (p : Ast.Program) (c : Completion) (m : Machine) :
    Prop where
  limit : s.nextLimit.1 ≤ greatestLimit
  read : parse s.reading source = .ok p
  run : runIn ⟨s.store, "", []⟩
    (statements (stmt s.builtins (levelsOf s.nextLimit.1) s.global) p.statements) = (.ok c, m)

/-- The text ends in a `return` that is not in a function. -/
def EndsInReturn (s : Session) (source : String) : Prop :=
  ∃ p v m, s.Ends source p (.returning v) m

/-- The text has at least one statement. -/
def HasStatement (s : Session) (source : String) : Prop :=
  ∃ p, parse s.reading source = .ok p ∧ p.statements ≠ []

/-- The session after texts that are evaluated one after the other. -/
def after (s : Session) (sources : List String) : Session :=
  sources.foldl (fun s source => (s.evaluate source).2) s

/-- What texts write that are evaluated one after the other. -/
def written (s : Session) : List String → String
  | [] => ""
  | source :: sources => (s.evaluate source).1.output ++ (s.evaluate source).2.written sources

section Runs

variable {s : Session} {source : String} {p q : Ast.Program} {c : Completion} {m m₁ m₂ : Machine}
  {v : Value}

/-- A limit that has been brought to what is asked for stays there. -/
theorem nextLimit_resume (s : Session) (m : Machine) :
    (s.resume m).nextLimit.1 = s.nextLimit.1 := by
  unfold resume nextLimit
  cases s.requestedLimit with
  | some limit => rfl
  | none =>
    by_cases hlimit : s.limit < usualLimit
    · simp [hlimit]
    · simp [hlimit]

/-- Of two runs only the last one's state is left. -/
theorem resume_resume (s : Session) (m₁ m₂ : Machine) :
    (s.resume m₁).resume m₂ = s.resume m₂ := by
  rw [resume, nextLimit_resume]
  rfl

/-- What evaluating a text gives whose statements end. -/
theorem Ends.evaluate (h : s.Ends source p c m) :
    (s.evaluate source).1.outcome = .ok c.value ∧ (s.evaluate source).1.output = m.output ∧
      (s.evaluate source).2 = s.resume m := by
  have heq := s.evaluate_eq source
  have hread := h.read
  rw [reading] at hread
  rw [if_neg (Nat.not_lt.mpr h.limit), hread] at heq
  have hnode : runIn ⟨s.store, "", []⟩
      (node s.builtins (levelsOf s.nextLimit.1) s.global (.program p)) = (.ok c.value, m) := by
    rw [node, runIn_reportingExhaustion, runIn_bind_ok h.run]
    rfl
  dsimp only at heq
  rw [hnode] at heq
  exact ⟨congrArg (·.1) heq, congrArg (·.2.1) heq, congrArg (·.2.2) heq⟩

/-- Texts behind one that ends are evaluated in the session that it leaves. -/
theorem Ends.after_cons (h : s.Ends source p c m) (sources : List String) :
    s.after (source :: sources) = (s.resume m).after sources := by
  rw [after, List.foldl_cons, h.evaluate.2.2]
  rfl

/-- The statements of a text whose evaluation gives a value end. -/
theorem exists_ends (h : (s.evaluate source).1.outcome = .ok v) : ∃ p c m, s.Ends source p c m := by
  have houtcome := congrArg (·.1) (s.evaluate_eq source)
  dsimp only at houtcome
  rw [h] at houtcome
  split at houtcome
  · cases houtcome
  · next hlimit =>
    split at houtcome
    · cases houtcome
    · next p hread =>
      rw [node, runIn_reportingExhaustion, runIn_bind] at houtcome
      rcases hrun : runIn ⟨s.store, "", []⟩
        (statements (stmt s.builtins (levelsOf s.nextLimit.1) s.global) p.statements)
        with ⟨outcome, m⟩
      rw [hrun] at houtcome
      cases outcome with
      | ok c => exact ⟨p, c, m, Nat.le_of_not_lt hlimit, hread, hrun⟩
      | error fault => cases fault <;> cases houtcome

/-- A program without statements ends with null. -/
theorem Ends.of_nil (h : s.Ends source p c m) (hp : p.statements = []) :
    c = .normal .null ∧ m = ⟨s.store, "", []⟩ := by
  have hrun := h.run
  rw [hp] at hrun
  cases hrun
  exact ⟨rfl, rfl⟩

/-- Two texts that are entered one after the other make one program, if the first is closed off and
does not end in a `return`. It ends as the second one ends, or as the first one if the second one
has no statements. -/
theorem Ends.join {a b : String} {w : Value} (ha : s.Ends a p (.normal w) m₁)
    (hclosed : ClosedOff (tokenStream a).tokens) (hb : (s.resume m₁).Ends b q c m₂) :
    ∃ p' c' m', s.Ends (a ++ "\n" ++ b) p' c' m' ∧
      (p'.statements = [] ↔ p.statements = [] ∧ q.statements = []) ∧
      m'.output = m₁.output ++ m₂.output ∧ m'.store.eraseLines = m₂.store.eraseLines ∧
      c'.value.eraseLines = (if q.statements = [] then w else c.value).eraseLines := by
  have hread := hb.read
  have hrun := hb.run
  rw [reading, nextLimit_resume] at hread
  rw [nextLimit_resume] at hrun
  obtain ⟨q', hjoin, hq'⟩ := parse_join_of_ok ha.read hclosed hread
  have hlines : q'.statements.map Ast.Stmt.eraseLines = q.statements.map Ast.Stmt.eraseLines := by
    have hstatements := congrArg Ast.Program.statements hq'
    rw [← Ast.eraseLinesStatements_eq_map, ← Ast.eraseLinesStatements_eq_map]
    exact hstatements
  have hnil : q'.statements = [] ↔ q.statements = [] := by
    rw [← List.map_eq_nil_iff (f := Ast.Stmt.eraseLines), hlines, List.map_eq_nil_iff]
  -- The statements of the second text on their new lines, then after what the first has written.
  obtain ⟨c', m', hmoved, hc', hm'⟩ := statements_of_eraseLines hlines hrun
  obtain ⟨m'', hlater, hstore, houtput⟩ := statements_of_store (m := m₁) hmoved
  have hwhole := runIn_statementsAfter_append ha.run q'.statements
  by_cases hempty : q.statements = []
  · obtain ⟨-, rfl⟩ := hb.of_nil hempty
    rw [hnil.mpr hempty] at hwhole
    refine ⟨_, .normal w, m₁, ⟨ha.limit, hjoin, ?_⟩, ?_, String.append_empty.symm, rfl, ?_⟩
    · rw [hnil.mpr hempty]
      exact hwhole
    · rw [List.append_eq_nil_iff, hnil]
    · rw [if_pos hempty]
      rfl
  · refine ⟨_, c', m'', ⟨ha.limit, hjoin, ?_⟩, ?_, ?_, ?_, ?_⟩
    · refine hwhole.trans ?_
      cases hq : q'.statements with
      | nil => exact absurd (hnil.mp hq) hempty
      | cons first others =>
        rw [hq] at hlater
        exact hlater
    · rw [List.append_eq_nil_iff, hnil]
    · have hwritten := congrArg Machine.output hm'
      rw [houtput]
      exact congrArg (m₁.output ++ ·) hwritten
    · rw [hstore]
      exact congrArg Machine.store hm'
    · rw [if_neg hempty, ← Completion.value_eraseLines, hc', Completion.value_eraseLines]

/-- A text has a statement in the session after a run if it has one before. -/
theorem hasStatement_resume (s : Session) (m : Machine) (source : String) :
    (s.resume m).HasStatement source ↔ s.HasStatement source := by
  rw [HasStatement, HasStatement, reading, reading, nextLimit_resume]

/-- A text that is read has a statement if the program has one. -/
theorem Ends.hasStatement_iff (h : s.Ends source p c m) :
    s.HasStatement source ↔ p.statements ≠ [] := by
  constructor
  · rintro ⟨p', hread, hp'⟩
    rw [h.read] at hread
    cases hread
    exact hp'
  · intro hp
    exact ⟨p, h.read, hp⟩

end Runs

/-- The text without tokens is a program without statements. -/
theorem parse_empty (depth : Depth) : parse depth "" = .ok ⟨[]⟩ := by
  have htokens : tokenStream "" = ⟨[], 1⟩ := by decide +kernel
  rw [parse, Surface.parse, htokens, Surface.Parser.statements]
  rfl

/-- The names and the display forms of the global variables. -/
def globals (s : Session) : List (String × String) :=
  s.globalFrame.bindings.map fun (name, value) => (name, value.display)

/-- Sessions that are the same without lines show the same global variables. -/
theorem globals_of_eraseLines {s s' : Session} (h : s.eraseLines = s'.eraseLines) :
    s.globals = s'.globals := by
  rw [globals, globals, ← display_globalFrame_eraseLines, h, display_globalFrame_eraseLines]

/-- The texts are entered one after the other: each is closed off, ends with a value and does not
end in a `return`. -/
def EntersAll (s : Session) (sources : List String) : Prop :=
  ∀ before source after, sources = before ++ source :: after →
    ClosedOff (tokenStream source).tokens ∧
      (∃ v, ((s.after before).evaluate source).1.outcome = .ok v) ∧
      ¬(s.after before).EndsInReturn source

/-- The value is that of the last text of the list that has a statement. -/
def LastValue (s : Session) (sources : List String) (w : Value) : Prop :=
  ∃ before source after, sources = before ++ source :: after ∧ s.HasStatement source ∧
    (∀ later ∈ after, ¬s.HasStatement later) ∧
    ((s.after before).evaluate source).1.outcome = .ok w

/-- There is nothing to be said of no texts. -/
theorem entersAll_nil (s : Session) : s.EntersAll [] := by
  intro before source after heq
  simp at heq

/-- A text can be entered before others if its statements end normally and the others can be entered
in the session that it leaves. -/
theorem entersAll_cons_iff {s : Session} {source : String} {sources : List String} :
    s.EntersAll (source :: sources) ↔ ClosedOff (tokenStream source).tokens ∧
      ∃ p w m, s.Ends source p (.normal w) m ∧ (s.resume m).EntersAll sources := by
  constructor
  · intro h
    obtain ⟨hclosed, ⟨v, hv⟩, hreturn⟩ := h [] source sources rfl
    rw [after, List.foldl_nil] at hv hreturn
    obtain ⟨p, c, m, hends⟩ := exists_ends hv
    refine ⟨hclosed, p, c.value, m, ?_, ?_⟩
    · cases c with
      | normal w => exact hends
      | returning w => exact absurd ⟨p, w, m, hends⟩ hreturn
    · intro before later others heq
      have hlater := h (source :: before) later others (congrArg (source :: ·) heq)
      rw [hends.after_cons] at hlater
      exact hlater
  · rintro ⟨hclosed, p, w, m, hends, hothers⟩ before later others heq
    cases before with
    | nil =>
      cases heq
      refine ⟨hclosed, ⟨w, hends.evaluate.1⟩, ?_⟩
      rintro ⟨p', v, m', hends'⟩
      cases hends'.read.symm.trans hends.read
      cases hends'.run.symm.trans hends.run
    | cons first before =>
      cases heq
      rw [hends.after_cons]
      exact hothers before later others rfl

/-- The last value of texts behind a first one is the last value of all of them, or else it is the
value of the first one. -/
theorem LastValue.cases {s : Session} {source : String} {sources : List String}
    {p : Ast.Program} {c : Completion} {m : Machine} {w : Value} (hends : s.Ends source p c m)
    (h : s.LastValue (source :: sources) w) :
    ((s.resume m).LastValue sources w ∧ ∃ later ∈ sources, s.HasStatement later) ∨
      (∀ later ∈ sources, ¬s.HasStatement later) ∧ w = c.value := by
  obtain ⟨before, last, after, heq, hlast, hafter, hw⟩ := h
  cases before with
  | nil =>
    cases heq
    refine .inr ⟨hafter, ?_⟩
    rw [Session.after, List.foldl_nil, hends.evaluate.1] at hw
    exact (Except.ok.inj hw).symm
  | cons first before =>
    cases heq
    refine .inl ⟨⟨before, last, after, rfl, ?_, ?_, ?_⟩, last, by simp, hlast⟩
    · exact (hasStatement_resume s m last).mpr hlast
    · exact fun later hlater => (hasStatement_resume s m later).not.mpr (hafter later hlater)
    · rw [hends.after_cons] at hw
      exact hw

/-- The program that texts make ends, and it has done what the texts do one after the other. -/
theorem exists_ends_joined {s : Session} {sources : List String}
    (hlimit : sources = [] → s.nextLimit.1 ≤ greatestLimit) (h : s.EntersAll sources) :
    ∃ p c m, s.Ends ("\n".intercalate sources) p c m ∧
      (p.statements = [] ↔ ∀ source ∈ sources, ¬s.HasStatement source) ∧
      m.output = s.written sources ∧ (s.resume m).globals = (s.after sources).globals ∧
      ∀ w, s.LastValue sources w → c.value.display = w.display := by
  induction sources generalizing s with
  | nil =>
    refine ⟨⟨[]⟩, .normal .null, ⟨s.store, "", []⟩, ⟨hlimit rfl, ?_, rfl⟩, ?_, rfl, rfl, ?_⟩
    · rw [String.intercalate_nil]
      exact parse_empty _
    · simp
    · rintro w ⟨before, source, after, heq, -⟩
      simp at heq
  | cons first sources ih =>
    obtain ⟨hclosed, p, w₁, m₁, hfirst, hothers⟩ := entersAll_cons_iff.mp h
    obtain ⟨-, houtput, hsession⟩ := hfirst.evaluate
    have hwritten : s.written (first :: sources) =
        m₁.output ++ (s.resume m₁).written sources := by
      rw [written, houtput, hsession]
    rw [hfirst.after_cons, hwritten]
    cases sources with
    | nil =>
      refine ⟨p, .normal w₁, m₁, ?_, ?_, String.append_empty.symm, rfl, ?_⟩
      · rw [String.intercalate_singleton]
        exact hfirst
      · simp [hfirst.hasStatement_iff]
      · intro w hw
        obtain ⟨-, later, hlater, -⟩ | ⟨-, rfl⟩ := hw.cases hfirst
        · cases hlater
        · rfl
    | cons second sources =>
      obtain ⟨q, c, m₂, hrest, hnil, houtput₂, hglobals, hvalue⟩ := ih nofun hothers
      obtain ⟨p', c', m', hjoined, hnil', houtput', hstore, hvalue'⟩ := hfirst.join hclosed hrest
      have hnone : q.statements = [] ↔ ∀ later ∈ second :: sources, ¬s.HasStatement later := by
        simp only [hnil, hasStatement_resume]
      refine ⟨p', c', m', ?_, ?_, ?_, ?_, ?_⟩
      · rw [String.intercalate_cons_cons]
        exact hjoined
      · rw [hnil', hnone, List.forall_mem_cons (l := second :: sources), hfirst.hasStatement_iff,
          not_not]
      · rw [houtput', houtput₂]
      · rw [← hglobals]
        refine globals_of_eraseLines ?_
        rw [resume_resume]
        exact congrArg (fun store => { s with limit := s.nextLimit.1, store }) hstore
      · intro w hw
        rw [← c'.value.display_eraseLines, hvalue', Value.display_eraseLines]
        obtain ⟨hw, later, hlater, hhas⟩ | ⟨hnothing, rfl⟩ := hw.cases hfirst
        · rw [if_neg fun hempty => hnone.mp hempty later hlater hhas]
          exact hvalue w hw
        · rw [if_pos (hnone.mpr hnothing)]

/-- Entering texts one after the other is evaluating the one text that is made of them, each on
lines of its own: if they are all closed off, end with values and do not end in a `return`, then the
whole ends with a value too. It writes what the entries write, it leaves the same global variables
with the same display forms, and its value is displayed as that of the last entry that has a
statement; it is null if there is none. Without entries nothing has shown that the recursion limit
can be set. -/
theorem entries_joined (s : Session) (sources : List String)
    (hlimit : sources = [] → s.nextLimit.1 ≤ greatestLimit) (h : s.EntersAll sources) :
    ∃ v, (s.evaluate ("\n".intercalate sources)).1.outcome = .ok v ∧
      (s.evaluate ("\n".intercalate sources)).1.output = s.written sources ∧
      (s.evaluate ("\n".intercalate sources)).2.globals = (s.after sources).globals ∧
      (∀ w, s.LastValue sources w → v.display = w.display) ∧
      ((∀ source ∈ sources, ¬s.HasStatement source) → v = .null) := by
  obtain ⟨p, c, m, hends, hnil, houtput, hglobals, hvalue⟩ := exists_ends_joined hlimit h
  obtain ⟨houtcome, hwritten, hsession⟩ := hends.evaluate
  refine ⟨c.value, houtcome, hwritten.trans houtput, ?_, hvalue, fun hnone => ?_⟩
  · rw [hsession]
    exact hglobals
  · obtain ⟨rfl, -⟩ := hends.of_nil (hnil.mpr hnone)
    rfl

/-- A function is defined, a comment follows, and the function is used and looked at. -/
def adderEntries : List String :=
  ["var f = |x| \x7b x + y \x7d;", "# y is free", "var y = 2; puts(f(1)); f;"]

/-- The function of these entries as it is when it is entered on a line of its own. -/
def adder : Value :=
  .closure [⟨"x", 1⟩] (.mk [.expr (.binary (.known .add) (.ident "x" 1) (.ident "y" 1) 1) 1] 1) 0

/-- What the first of these entries leaves. -/
def adderDefined : Machine :=
  ⟨⟨#[⟨none, [("f", adder)]⟩]⟩, "", [(1, ⟨none, []⟩)]⟩

/-- The three entries do what the three lines do, and both end with the function. -/
theorem entries_joined_adder :
    let s := start .standard none
    let joined := "var f = |x| \x7b x + y \x7d;\n# y is free\nvar y = 2; puts(f(1)); f;"
    s.EntersAll adderEntries ∧ s.LastValue adderEntries adder ∧
      ∃ v, (s.evaluate joined).1.outcome = .ok v ∧
        (s.evaluate joined).1.output = s.written adderEntries ∧
        (s.evaluate joined).2.globals = (s.after adderEntries).globals ∧
        v.display = adder.display := by
  intro s joined
  have hreading : s.reading = .atMost 5000 := congrArg Depth.atMost (by decide)
  have hreading' : (s.resume adderDefined).reading = .atMost 5000 :=
    congrArg Depth.atMost (by decide)
  have hdefine : s.Ends "var f = |x| \x7b x + y \x7d;"
      ⟨[.var ⟨"f", 1⟩ (.function [⟨"x", 1⟩]
        (.mk [.expr (.binary (.known .add) (.ident "x" 1) (.ident "y" 1) 1) 1] 1) 1) 1]⟩
      (.normal .null) adderDefined := by
    have htokens : tokenStream "var f = |x| \x7b x + y \x7d;" =
        ⟨[⟨.kwVar, "var", 1⟩, ⟨.ident, "f", 1⟩, ⟨.assign, "=", 1⟩, ⟨.bar, "|", 1⟩,
          ⟨.ident, "x", 1⟩, ⟨.bar, "|", 1⟩, ⟨.leftBrace, "\x7b", 1⟩, ⟨.ident, "x", 1⟩,
          ⟨.plus, "+", 1⟩, ⟨.ident, "y", 1⟩, ⟨.rightBrace, "\x7d", 1⟩,
          ⟨.semicolon, ";", 1⟩], 1⟩ := by decide +kernel
    have htree : Surface.parse (.atMost 5000) "var f = |x| \x7b x + y \x7d;" =
        .ok [.var ⟨"f", 1⟩ (.function [⟨"x", 1⟩]
          (.mk [.expr (.binary .add (.ident "x" 1) (.ident "y" 1) 1) 1] 1) 1) 1] := by
      rw [Surface.parse_eq_unrolled 100, htokens]
      rfl
    refine ⟨by decide, ?_, by with_unfolding_all rfl⟩
    rw [hreading, parse, htree]
    rfl
  have hremark : (s.resume adderDefined).Ends "# y is free" ⟨[]⟩ (.normal .null)
      ⟨adderDefined.store, "", []⟩ := by
    have htree : Surface.parse (.atMost 5000) "# y is free" = .ok [] := by
      rw [Surface.parse_eq_unrolled 100]
      with_unfolding_all rfl
    refine ⟨by decide, ?_, by with_unfolding_all rfl⟩
    rw [hreading', parse, htree]
    rfl
  let r := s.resume adderDefined
  let used : Ast.Program :=
    ⟨[.var ⟨"y", 1⟩ (.int 2 1) 1,
      .expr (.call (.ident "puts" 1) [.call (.ident "f" 1) [.int 1 1] 1] 1) 1,
      .expr (.ident "f" 1) 1]⟩
  have huse : r.Ends "var y = 2; puts(f(1)); f;" used (.normal adder)
      (runIn ⟨r.store, "", []⟩
        (statements (stmt r.builtins (levelsOf r.nextLimit.1) r.global) used.statements)).2 := by
    have htokens : tokenStream "var y = 2; puts(f(1)); f;" =
        ⟨[⟨.kwVar, "var", 1⟩, ⟨.ident, "y", 1⟩, ⟨.assign, "=", 1⟩, ⟨.integer, "2", 1⟩,
          ⟨.semicolon, ";", 1⟩, ⟨.ident, "puts", 1⟩, ⟨.leftParen, "(", 1⟩, ⟨.ident, "f", 1⟩,
          ⟨.leftParen, "(", 1⟩, ⟨.integer, "1", 1⟩, ⟨.rightParen, ")", 1⟩, ⟨.rightParen, ")", 1⟩,
          ⟨.semicolon, ";", 1⟩, ⟨.ident, "f", 1⟩, ⟨.semicolon, ";", 1⟩], 1⟩ := by decide +kernel
    have htree : Surface.parse (.atMost 5000) "var y = 2; puts(f(1)); f;" =
        .ok [.var ⟨"y", 1⟩ (.integer "2" 1) 1,
          .expr (.call (.ident "puts" 1) [.call (.ident "f" 1) [.integer "1" 1] 1] 1) 1,
          .expr (.ident "f" 1) 1] := by
      rw [Surface.parse_eq_unrolled 100, htokens]
      rfl
    refine ⟨by decide, ?_, Prod.ext (by with_unfolding_all rfl) rfl⟩
    rw [hreading', parse, htree]
    rfl
  have hall : s.EntersAll adderEntries := by
    refine entersAll_cons_iff.mpr ⟨by decide +kernel, _, _, _, hdefine, ?_⟩
    refine entersAll_cons_iff.mpr ⟨by decide +kernel, _, _, _, hremark, ?_⟩
    exact entersAll_cons_iff.mpr ⟨by decide +kernel, _, _, _, huse, entersAll_nil _⟩
  have hlast : s.LastValue adderEntries adder := by
    refine ⟨adderEntries.take 2, "var y = 2; puts(f(1)); f;", [], rfl, ?_,
      List.forall_mem_nil _, ?_⟩
    · exact (hasStatement_resume s adderDefined _).mp ⟨_, huse.read, List.cons_ne_nil _ _⟩
    · change ((s.after ["var f = |x| \x7b x + y \x7d;", "# y is free"]).evaluate _).1.outcome = _
      rw [hdefine.after_cons, hremark.after_cons]
      exact huse.evaluate.1
  have hlimit : adderEntries = [] → s.nextLimit.1 ≤ greatestLimit := fun _ => by decide
  obtain ⟨v, houtcome, houtput, hglobals, hvalue, -⟩ := entries_joined s adderEntries hlimit hall
  exact ⟨hall, hlast, v, houtcome, houtput, hglobals, hvalue adder hlast⟩

end Session

end EtherLang
