import EtherLang.Proofs.Eval.Entries
import EtherLang.Proofs.Eval.Renaming
import EtherLang.Repl

/-!
# What a reset leaves behind

A reset gives a dialogue a new frame for its global variables. The frames made before stay in the
store, so what comes after is evaluated with other frame numbers than in a dialogue that has just
begun. Nothing shows these numbers: values are displayed and records are written as there. The one
thing that is not as at the beginning is the recursion limit. If it is not asked for, it is raised
once only, so that a dialogue that has evaluated something does not put this on record again.
-/

namespace EtherLang

variable {ρ : FrameId → FrameId}

namespace Event

/-- Records one after the other are written one after the other. -/
theorem log_append (events events' : List Event) :
    log (events ++ events') = log events ++ log events' := by
  simp only [log, List.map_append, String.join_append]

/-- The record of a closure does not show the numbers of frames. -/
theorem message_closure_rename (line : Int) (f : Frame) :
    (closure line (f.rename ρ)).message = (closure line f).message := by
  have hnames : (f.rename ρ).names = f.names := by
    simp [Frame.names, Frame.rename, Function.comp_def]
  have hparent : (f.rename ρ).parent.isSome = f.parent.isSome := Option.isSome_map ..
  have hdisplay : (f.rename ρ).display = f.display := by
    delta Frame.display
    rw [hnames, hparent]
  change _ ++ (f.rename ρ).display = _ ++ f.display
  rw [hdisplay]

/-- The records of the closures that were made, the last one first. -/
def ofClosures (made : List (Int × Frame)) : List Event :=
  made.reverse.map fun (line, captured) => .closure line captured

/-- Records of closures do not show the numbers of frames. -/
theorem log_ofClosures_rename (made : List (Int × Frame)) :
    log (ofClosures (made.map fun (line, f) => (line, f.rename ρ))) = log (ofClosures made) := by
  simp only [log, ofClosures, ← List.map_reverse, List.map_map, Function.comp_def,
    message_closure_rename]

end Event

/-- In states that correspond, without anything written or recorded yet, a node ends alike and
leaves states that correspond, with records that do. -/
theorem Eval.node_renamed (hρ : StrictMono ρ) (table : BuiltinTable) (depth : Nat) (frame : FrameId)
    (n : Ast.Node) {a b : Store} (h : Corresponds ρ "" "" ⟨a, "", []⟩ ⟨b, "", []⟩) :
    let first := runIn ⟨a, "", []⟩ (node table depth frame n)
    let second := runIn ⟨b, "", []⟩ (node table depth (ρ frame) n)
    second.1 = first.1.map (Value.rename ρ) ∧ Corresponds ρ "" "" first.2 second.2 ∧
      second.2.closures = first.2.closures.map fun (line, f) => (line, f.rename ρ) := by
  intro first second
  let C := Comparison.renaming hρ "" ""
    (fun made made' => made' = made.map fun (line, f) => (line, f.rename ρ))
    fun line f hmade => congrArg ((line, f.rename ρ) :: ·) hmade
  have hdepth : C.Depths depth depth := .inl rfl
  have hends : C.Ends C.Values first second ∨ C.lenient ∧ _ :=
    C.ends_node table hdepth rfl (fun _ _ => trivial) ⟨h, rfl⟩
  match first, second, hends with
  | _, _, .inl (.ok hvalue hstates) => exact ⟨congrArg Except.ok hvalue.eq_rename, hstates⟩
  | _, _, .inl (.error hstates) => exact ⟨rfl, hstates⟩

namespace Session

section Cases

variable {s : Session} {source : String}

/-- A limit that cannot be set stops the evaluation of a text before it begins. -/
theorem evaluate_of_unsettable (source : String) (h : greatestLimit < s.nextLimit.1) :
    s.evaluate source = (⟨.error (.broken .limitTooGreat), "", s.nextLimit.2⟩, s) := by
  rw [evaluate]
  dsimp only
  rw [if_pos h]

/-- A text that is not read has no further records. -/
theorem evaluate_of_parse_error (h : s.nextLimit.1 ≤ greatestLimit) {failure : ParseFailure}
    (hread : Surface.parse s.reading source = .error failure) :
    s.evaluate source =
      (⟨.error failure.toFailure, "", s.nextLimit.2⟩, s.resume ⟨s.store, "", []⟩) := by
  rw [reading] at hread
  rw [evaluate]
  dsimp only
  rw [if_neg (Nat.not_lt.mpr h), hread]
  rfl

/-- A text that is not desugared has the record of its reading. -/
theorem evaluate_of_desugar_error (h : s.nextLimit.1 ≤ greatestLimit) {tree : List Surface.Stmt}
    {e : ParseError} (hread : Surface.parse s.reading source = .ok tree)
    (hdesugar : desugar s.reading tree = .error e) :
    s.evaluate source = (⟨.error (.parse e), "", s.nextLimit.2 ++ [.parsed tree.length]⟩,
      s.resume ⟨s.store, "", []⟩) := by
  rw [reading] at hread hdesugar
  rw [evaluate]
  dsimp only
  rw [if_neg (Nat.not_lt.mpr h), hread]
  dsimp only
  rw [hdesugar]
  rfl

/-- A text that is read and desugared is run, with the records of all of this. -/
theorem evaluate_of_desugar_ok (h : s.nextLimit.1 ≤ greatestLimit) {tree : List Surface.Stmt}
    {p : Ast.Program} (hread : Surface.parse s.reading source = .ok tree)
    (hdesugar : desugar s.reading tree = .ok p) :
    let run := Eval.runIn ⟨s.store, "", []⟩
      (Eval.node s.builtins (levelsOf s.nextLimit.1) s.global (.program p))
    s.evaluate source = (⟨run.1.mapError Fault.toFailure, run.2.output,
        s.nextLimit.2 ++ ([.parsed tree.length, .lowered p, .evaluating p.statements.length] ++
          Event.ofClosures run.2.closures)⟩,
      s.resume run.2) := by
  intro run
  rw [reading] at hread hdesugar
  rw [evaluate]
  dsimp only
  rw [if_neg (Nat.not_lt.mpr h), hread]
  dsimp only
  rw [hdesugar]
  simp only [List.append_assoc]
  rfl

/-- The run of a text in a session whose limit leaves so many levels. -/
theorem evaluate_of_levels {levels : Nat} (h : s.nextLimit.1 ≤ greatestLimit)
    (hlevels : levelsOf s.nextLimit.1 = levels) {tree : List Surface.Stmt} {p : Ast.Program}
    (hread : Surface.parse (.atMost levels) source = .ok tree)
    (hdesugar : desugar (.atMost levels) tree = .ok p) :
    let run := Eval.runIn ⟨s.store, "", []⟩ (Eval.node s.builtins levels s.global (.program p))
    s.evaluate source = (⟨run.1.mapError Fault.toFailure, run.2.output,
        s.nextLimit.2 ++ ([.parsed tree.length, .lowered p, .evaluating p.statements.length] ++
          Event.ofClosures run.2.closures)⟩,
      s.resume run.2) := by
  subst hlevels
  exact evaluate_of_desugar_ok h hread hdesugar

/-- Evaluating a text brings the limit to what the text is evaluated under. -/
theorem exists_resume (h : s.nextLimit.1 ≤ greatestLimit) (source : String) :
    ∃ m, (s.evaluate source).2 = s.resume m := by
  cases hread : Surface.parse s.reading source with
  | error failure => exact ⟨_, congrArg Prod.snd (evaluate_of_parse_error h hread)⟩
  | ok tree =>
    cases hdesugar : desugar s.reading tree with
    | error e => exact ⟨_, congrArg Prod.snd (evaluate_of_desugar_error h hread hdesugar)⟩
    | ok p => exact ⟨_, congrArg Prod.snd (evaluate_of_desugar_ok h hread hdesugar)⟩

end Cases

/-- The second session is the first one with other frame numbers. Their limits may differ as long as
texts are evaluated under the same one. -/
structure Renumbered (ρ : FrameId → FrameId) (s s' : Session) : Prop where
  builtins : s'.builtins = s.builtins
  requestedLimit : s'.requestedLimit = s.requestedLimit
  limit : s'.nextLimit.1 = s.nextLimit.1
  global : s'.global = ρ s.global
  stores : Corresponds ρ "" "" ⟨s.store, "", []⟩ ⟨s'.store, "", []⟩

/-- A text is evaluated alike in the two sessions: with the same failure or with values that differ
by frame numbers, and with the same output. The records are the same behind those of the limit. -/
structure EvaluatedAlike (ρ : FrameId → FrameId) (s s' : Session) (source : String) : Prop where
  outcome : (s'.evaluate source).1.outcome = (s.evaluate source).1.outcome.map (Value.rename ρ)
  output : (s'.evaluate source).1.output = (s.evaluate source).1.output
  records : ∃ text,
    Event.log (s.evaluate source).1.events = Event.log s.nextLimit.2 ++ text ∧
      Event.log (s'.evaluate source).1.events = Event.log s'.nextLimit.2 ++ text
  session : (s.evaluate source).2.Renumbered ρ (s'.evaluate source).2

/-- The limit is set by what is asked for and by what it was. -/
theorem nextLimit_congr {s s' : Session} (hrequested : s'.requestedLimit = s.requestedLimit)
    (hlimit : s'.limit = s.limit) : s'.nextLimit = s.nextLimit := by
  rw [nextLimit, nextLimit, hrequested, hlimit]

section Renumbered

variable {s s' : Session}

/-- The same run in sessions that differ by frame numbers leaves such sessions. -/
theorem Renumbered.resume (h : s.Renumbered ρ s') {m m' : Machine}
    (hm : Corresponds ρ "" "" ⟨m.store, "", []⟩ ⟨m'.store, "", []⟩) :
    (s.resume m).Renumbered ρ (s'.resume m') := by
  refine ⟨h.builtins, h.requestedLimit, ?_, h.global, hm⟩
  rw [nextLimit_resume, nextLimit_resume, h.limit]

/-- A reset of sessions that differ by frame numbers makes such sessions. -/
theorem Renumbered.reset (h : s.Renumbered ρ s') (hρ : StrictMono ρ) :
    s.reset.Renumbered ρ s'.reset := by
  obtain ⟨hnew, hstores⟩ := h.stores.push hρ ⟨none, []⟩
  exact ⟨h.builtins, h.requestedLimit, h.limit, hnew, hstores⟩

/-- In sessions that differ by frame numbers a text is evaluated alike. -/
theorem Renumbered.evaluate (h : s.Renumbered ρ s') (hρ : StrictMono ρ) (source : String) :
    EvaluatedAlike ρ s s' source := by
  by_cases hset : s.nextLimit.1 ≤ greatestLimit
  · have hset' : s'.nextLimit.1 ≤ greatestLimit := h.limit ▸ hset
    have hreading : s'.reading = s.reading := by rw [reading, reading, h.limit]
    cases hread : Surface.parse s.reading source with
    | error failure =>
      have heq := evaluate_of_parse_error hset hread
      have heq' := evaluate_of_parse_error hset' (hreading ▸ hread)
      refine ⟨?_, ?_, ⟨"", ?_, ?_⟩, ?_⟩ <;> simp only [heq, heq', String.append_empty]
      · rfl
      · exact h.resume h.stores
    | ok tree =>
      cases hdesugar : desugar s.reading tree with
      | error e =>
        have heq := evaluate_of_desugar_error hset hread hdesugar
        have heq' := evaluate_of_desugar_error hset' (hreading ▸ hread) (hreading ▸ hdesugar)
        refine ⟨?_, ?_, ⟨Event.log [.parsed tree.length], ?_, ?_⟩, ?_⟩ <;>
          simp only [heq, heq', Event.log_append]
        · rfl
        · exact h.resume h.stores
      | ok p =>
        have heq := evaluate_of_desugar_ok hset hread hdesugar
        have heq' := evaluate_of_desugar_ok hset' (hreading ▸ hread) (hreading ▸ hdesugar)
        rw [h.builtins, h.limit, h.global] at heq'
        let first := Eval.runIn ⟨s.store, "", []⟩
          (Eval.node s.builtins (levelsOf s.nextLimit.1) s.global (.program p))
        obtain ⟨hresult, hstates, hmade⟩ := Eval.node_renamed hρ s.builtins
          (levelsOf s.nextLimit.1) s.global (.program p) h.stores
        obtain ⟨text, hwritten, hwritten'⟩ := hstates.written
        let steps : List Event :=
          [.parsed tree.length, .lowered p, .evaluating p.statements.length]
        refine ⟨?_, ?_, ⟨Event.log steps ++ Event.log (Event.ofClosures first.2.closures), ?_, ?_⟩,
          ?_⟩
        · rw [heq, heq', hresult]
          cases first.1 <;> rfl
        · rw [heq, heq', hwritten, hwritten']
        · rw [heq, Event.log_append, Event.log_append]
        · rw [heq', Event.log_append, Event.log_append, hmade, Event.log_ofClosures_rename]
        · rw [heq, heq']
          exact h.resume ⟨hstates.frames, hstates.fresh, "", rfl, rfl⟩
  · have hunset : greatestLimit < s.nextLimit.1 := Nat.lt_of_not_le hset
    have heq := evaluate_of_unsettable source hunset
    have heq' := evaluate_of_unsettable source (h.limit.symm ▸ hunset)
    refine ⟨?_, ?_, ⟨"", ?_, ?_⟩, ?_⟩ <;> simp only [heq, heq', String.append_empty]
    · rfl
    · exact h

/-- Behind a text whose limit can be set both sessions set it alike. -/
theorem Renumbered.nextLimit_evaluate (h : s.Renumbered ρ s') (hset : s.nextLimit.1 ≤ greatestLimit)
    (source : String) : (s'.evaluate source).2.nextLimit = (s.evaluate source).2.nextLimit := by
  obtain ⟨m, hm⟩ := exists_resume hset source
  obtain ⟨m', hm'⟩ := exists_resume (h.limit.symm ▸ hset) source
  rw [hm, hm']
  exact nextLimit_congr h.requestedLimit h.limit

end Renumbered

/-- The session after a reset is a fresh one with other frame numbers, if both evaluate texts under
the same limit. -/
theorem renumbered_reset {s fresh : Session} (hbuiltins : s.builtins = fresh.builtins)
    (hrequested : s.requestedLimit = fresh.requestedLimit)
    (hlimit : s.nextLimit.1 = fresh.nextLimit.1) (hstore : fresh.store = Store.empty.newFrame.2)
    (hglobal : fresh.global = 0) :
    fresh.Renumbered (s.store.frames.size + ·) s.reset := by
  refine ⟨hbuiltins, hrequested, hlimit, ?_, ?_, ?_, "", rfl, rfl⟩
  · simp [hglobal, reset, Store.newFrame, Store.push]
  · intro id
    cases id <;> simp [hstore, reset, Store.newFrame, Store.push, Store.frame?, Store.empty,
      Frame.rename]
  · intro k
    simp [hstore, reset, Store.newFrame, Store.push, Store.empty, Nat.add_assoc]

end Session

namespace Repl

/-- The dialogue after some entries, if it still prompts for the next one. -/
def after? (r : Repl) : List Entry → Option Repl
  | [] => some r
  | entry :: entries =>
    match r.respond entry with
    | .prompting _ r => r.after? entries
    | _ => none

/-- Whether an entry is evaluated: it is neither blank nor a command. -/
def evaluates : Entry → Bool
  | .text text =>
    let text := normalize text
    !Text.allBlank text && (SlashCommand.read? text).isNone
  | _ => false

/-- A text is evaluated without its invisible characters, or it is passed over, or it is carried out
as a command. -/
theorem respond_text (text : String) :
    evaluates (.text text) = true ∧
        (∀ r : Repl, r.respond (.text text) = r.evaluate (normalize text)) ∨
      evaluates (.text text) = false ∧
        ((∀ r : Repl, r.respond (.text text) = .prompting ⟨"", ""⟩ r) ∨
          ∃ c, ∀ r : Repl,
            r.respond (.text text) = .prompting (r.command c).1 (r.command c).2) := by
  by_cases hblank : Text.allBlank (normalize text) = true
  · exact .inr ⟨by simp [evaluates, hblank], .inl fun r => by rw [respond, if_pos hblank]⟩
  · cases hcommand : SlashCommand.read? (normalize text) with
    | none =>
      refine .inl ⟨by simp [evaluates, hblank, hcommand], fun r => ?_⟩
      rw [respond, if_neg hblank, hcommand]
    | some c =>
      refine .inr ⟨by simp [evaluates, hcommand], .inr ⟨c, fun r => ?_⟩⟩
      rw [respond, if_neg hblank, hcommand]

/-- What is shown of the records of evaluating a text. -/
def shown (r : Repl) (source : String) : String :=
  if r.showsEvents then Event.log (r.session.evaluate source).1.events else ""

/-- If the outcome of an evaluation can be printed, its limit could be set. -/
theorem settable_of_printed {r : Repl} {source : String} {printed : Transcript}
    (h : outcomeText r.traceback (levelsOf (r.session.evaluate source).2.limit)
      (r.session.evaluate source).1.outcome = .ok printed) :
    r.session.nextLimit.1 ≤ greatestLimit := by
  by_contra hset
  rw [Session.evaluate_of_unsettable source (Nat.lt_of_not_le hset)] at h
  cases h

/-- After an evaluation whose outcome can be printed the dialogue prompts again. -/
theorem evaluate_of_printed {r : Repl} {source : String} {printed : Transcript}
    (h : outcomeText r.traceback (levelsOf (r.session.evaluate source).2.limit)
      (r.session.evaluate source).1.outcome = .ok printed) :
    r.evaluate source =
      .prompting (⟨(r.session.evaluate source).1.output, r.shown source⟩ ++ printed)
        { r with session := (r.session.evaluate source).2 } := by
  rw [evaluate]
  dsimp only
  rw [h]
  rfl

/-- At an evaluation whose outcome cannot be printed the dialogue breaks down. -/
theorem evaluate_of_unprinted {r : Repl} {source : String} {cause : Breakdown}
    (h : outcomeText r.traceback (levelsOf (r.session.evaluate source).2.limit)
      (r.session.evaluate source).1.outcome = .error cause) :
    r.evaluate source =
      .broken ⟨(r.session.evaluate source).1.output, r.shown source⟩ cause := by
  rw [evaluate]
  dsimp only
  rw [h]
  rfl

/-- A response with something put on record before it. -/
def recorded (record : String) (t : Transcript) : Transcript :=
  ⟨t.out, record ++ t.err⟩

/-- Responses to entries with something put on record before the response to the first one that is
evaluated. -/
def recordedFirst (record : String) : List Entry → List Transcript → List Transcript
  | entry :: entries, t :: ts =>
    if evaluates entry then recorded record t :: ts else t :: recordedFirst record entries ts
  | _, ts => ts

/-- To put nothing on record changes nothing. -/
theorem recordedFirst_empty (entries : List Entry) (ts : List Transcript) :
    recordedFirst "" entries ts = ts := by
  induction entries generalizing ts with
  | nil => rfl
  | cons entry entries ih => cases ts <;> simp [recordedFirst, recorded, ih]

/-- What is put on record does not show in what is written. -/
theorem map_out_recordedFirst (record : String) (entries : List Entry) (ts : List Transcript) :
    (recordedFirst record entries ts).map Transcript.out = ts.map Transcript.out := by
  induction entries generalizing ts with
  | nil => rfl
  | cons entry entries ih =>
    cases ts with
    | nil => rfl
    | cons t ts =>
      rw [recordedFirst]
      split <;> simp [recorded, ih]

/-- What an evaluation puts on record first: that the limit was set, if that is shown. -/
def limitRecord (r : Repl) : String :=
  if r.showsEvents then Event.log r.session.nextLimit.2 else ""

/-- The second dialogue is the first one with other frame numbers, where the first one will put
something on record before what the second one does. -/
structure Renumbered (ρ : FrameId → FrameId) (record : String) (r r' : Repl) : Prop where
  session : r.session.Renumbered ρ r'.session
  traceback : r'.traceback = r.traceback
  showsEvents : r'.showsEvents = r.showsEvents
  clearScreen : r'.clearScreen = r.clearScreen
  record : r.limitRecord = record ++ r'.limitRecord

/-- The ways in which two such dialogues go on after an entry. -/
inductive GoOnAlike (ρ : FrameId → FrameId) (record : String) (entry : Entry) : Next → Next → Prop
  | passed {t : Transcript} {r r' : Repl} : evaluates entry = false → r.Renumbered ρ record r' →
    GoOnAlike ρ record entry (.prompting t r) (.prompting t r')
  | evaluated {t : Transcript} {r r' : Repl} : evaluates entry = true → r.Renumbered ρ "" r' →
    GoOnAlike ρ record entry (.prompting (recorded record t) r) (.prompting t r')
  | ended (t : Transcript) : evaluates entry = false →
    GoOnAlike ρ record entry (.ended t) (.ended t)
  | broken (t : Transcript) (cause : Breakdown) : evaluates entry = true →
    GoOnAlike ρ record entry (.broken (recorded record t) cause) (.broken t cause)

/-- What is printed after an evaluation follows what it wrote. -/
theorem GoOnAlike.evaluated_of_append {record : String} {entry : Entry} {t printed : Transcript}
    {r r' : Repl} (hentry : evaluates entry = true) (h : r.Renumbered ρ "" r') :
    GoOnAlike ρ record entry (.prompting (recorded record t ++ printed) r)
      (.prompting (t ++ printed) r') := by
  have happend : recorded record t ++ printed = recorded record (t ++ printed) :=
    congrArg (Transcript.mk (t.out ++ printed.out)) (String.append_assoc ..)
  rw [happend]
  exact .evaluated hentry h

section Renumbered

variable {record : String} {r r' : Repl}

/-- Commands are carried out alike. -/
theorem Renumbered.command (h : r.Renumbered ρ record r') (hρ : StrictMono ρ) (c : SlashCommand) :
    (r'.command c).1 = (r.command c).1 ∧ (r.command c).2.Renumbered ρ record (r'.command c).2 := by
  cases c with
  | clear => exact ⟨congrArg (Transcript.mk · "") h.clearScreen, h⟩
  | setTraceback on => exact ⟨rfl, h.session, rfl, h.showsEvents, h.clearScreen, h.record⟩
  | toggleTraceback =>
    have htraceback : (!r'.traceback) = !r.traceback := congrArg not h.traceback
    exact ⟨congrArg command.tracebackState htraceback, h.session, htraceback, h.showsEvents,
      h.clearScreen, h.record⟩
  | tracebackUsage => exact ⟨rfl, h⟩
  | reset => exact ⟨rfl, h.session.reset hρ, h.traceback, h.showsEvents, h.clearScreen, h.record⟩
  | unknown word => exact ⟨rfl, h⟩

/-- What is printed for a value does not show frame numbers. -/
theorem valueText_rename (v : Value) : valueText (v.rename ρ) = valueText v := by
  cases v with
  | null => rfl
  | _ => exact congrArg (· ++ "\n") (Value.display_rename ρ _)

/-- What is printed for an outcome does not show frame numbers. -/
theorem outcomeText_rename (traceback : Bool) (levels : Nat) (outcome : Except Failure Value) :
    outcomeText traceback levels (outcome.map (Value.rename ρ)) =
      outcomeText traceback levels outcome := by
  match outcome with
  | .ok v =>
    have hnesting : (v.rename ρ).nesting = v.nesting := (Value.related_rename ρ v).nesting_eq.symm
    simp only [Except.map, outcomeText, hnesting, valueText_rename]
  | .error (.parse e) => rfl
  | .error (.eval e) => rfl
  | .error (.broken cause) => rfl

/-- What is shown of the records of an evaluation differs by what is put on record first. -/
theorem Renumbered.shown_eq (h : r.Renumbered ρ record r') (hρ : StrictMono ρ) (source : String) :
    r.shown source = record ++ r'.shown source := by
  obtain ⟨text, hrecords, hrecords'⟩ := (h.session.evaluate hρ source).records
  have hrecord := h.record
  rw [limitRecord, limitRecord, h.showsEvents] at hrecord
  rw [shown, shown, h.showsEvents]
  cases hshows : r.showsEvents with
  | false => simpa [hshows] using hrecord
  | true =>
    simp only [hshows, if_true] at hrecord
    rw [if_pos rfl, if_pos rfl, hrecords, hrecords', hrecord, String.append_assoc]

/-- The outcomes of a text are printed alike. A text that breaks the dialogue down before its limit
is set does so whatever the limit was. -/
theorem Renumbered.outcomeText_eq (h : r.Renumbered ρ record r') (hρ : StrictMono ρ)
    (source : String) :
    outcomeText r'.traceback (levelsOf (r'.session.evaluate source).2.limit)
        (r'.session.evaluate source).1.outcome =
      outcomeText r.traceback (levelsOf (r.session.evaluate source).2.limit)
        (r.session.evaluate source).1.outcome := by
  have houtcome := (h.session.evaluate hρ source).outcome
  by_cases hset : r.session.nextLimit.1 ≤ greatestLimit
  · obtain ⟨m, hm⟩ := Session.exists_resume hset source
    obtain ⟨m', hm'⟩ := Session.exists_resume (h.session.limit.symm ▸ hset) source
    have hlimit : (r'.session.resume m').limit = (r.session.resume m).limit := h.session.limit
    rw [houtcome, outcomeText_rename, h.traceback, hm, hm', hlimit]
  · rw [houtcome, Session.evaluate_of_unsettable source (Nat.lt_of_not_le hset)]
    rfl

/-- Texts are evaluated alike, with something put on record first. -/
theorem Renumbered.evaluate (h : r.Renumbered ρ record r') (hρ : StrictMono ρ) {entry : Entry}
    (hentry : evaluates entry = true) (source : String) :
    GoOnAlike ρ record entry (r.evaluate source) (r'.evaluate source) := by
  obtain ⟨-, houtput, -, hsession⟩ := h.session.evaluate hρ source
  have hprinted' := h.outcomeText_eq hρ source
  cases hprinted : outcomeText r.traceback (levelsOf (r.session.evaluate source).2.limit)
      (r.session.evaluate source).1.outcome with
  | ok printed =>
    rw [evaluate_of_printed hprinted, evaluate_of_printed (hprinted'.trans hprinted), houtput,
      h.shown_eq hρ source]
    refine GoOnAlike.evaluated_of_append (t := ⟨_, _⟩) hentry ?_
    refine ⟨hsession, h.traceback, h.showsEvents, h.clearScreen, ?_⟩
    have hnext := h.session.nextLimit_evaluate (settable_of_printed hprinted) source
    simp only [limitRecord, hnext, h.showsEvents, String.empty_append]
  | error cause =>
    rw [evaluate_of_unprinted hprinted, evaluate_of_unprinted (hprinted'.trans hprinted), houtput,
      h.shown_eq hρ source]
    exact .broken ⟨_, _⟩ cause hentry

/-- Entries are responded to alike, except that the first one that is evaluated puts something on
record first. -/
theorem Renumbered.respond (h : r.Renumbered ρ record r') (hρ : StrictMono ρ) (entry : Entry) :
    GoOnAlike ρ record entry (r.respond entry) (r'.respond entry) := by
  cases entry with
  | endOfInput => exact .ended _ rfl
  | interrupt => exact .passed rfl h
  | text text =>
    obtain ⟨hentry, hrespond⟩ | ⟨hentry, hrespond | ⟨c, hrespond⟩⟩ := respond_text text
    · rw [hrespond r, hrespond r']
      exact h.evaluate hρ hentry _
    · rw [hrespond r, hrespond r']
      exact .passed hentry h
    · obtain ⟨hwritten, hafter⟩ := h.command hρ c
      rw [hrespond r, hrespond r', hwritten]
      exact .passed hentry hafter

/-- With other frame numbers the dialogue over some entries is the same, apart from what is put on
record first. -/
theorem Renumbered.dialogue (h : r.Renumbered ρ record r') (hρ : StrictMono ρ)
    (entries : List Entry) :
    (r.dialogue entries).breakdown = (r'.dialogue entries).breakdown ∧
      (r.dialogue entries).responses =
        recordedFirst record entries (r'.dialogue entries).responses := by
  induction entries generalizing r r' record with
  | nil => exact ⟨rfl, rfl⟩
  | cons entry entries ih =>
    rw [Repl.dialogue, Repl.dialogue]
    match r.respond entry, r'.respond entry, h.respond hρ entry with
    | _, _, .passed hentry hafter =>
      obtain ⟨hbreakdown, hresponses⟩ := ih hafter
      exact ⟨hbreakdown, by simp [recordedFirst, hentry, hresponses]⟩
    | _, _, .evaluated hentry hafter =>
      obtain ⟨hbreakdown, hresponses⟩ := ih hafter
      exact ⟨hbreakdown, by simp [recordedFirst, hentry, hresponses, recordedFirst_empty]⟩
    | _, _, .ended t hentry => exact ⟨rfl, by simp [recordedFirst, hentry]⟩
    | _, _, .broken t cause hentry => exact ⟨rfl, by simp [recordedFirst, hentry]⟩

end Renumbered

/-- What a dialogue that still prompts has in common with what it was before, and what became of its
limit: it is the one that was to be set, if something was evaluated. -/
structure Continues (evaluated : Bool) (r r' : Repl) : Prop where
  builtins : r'.session.builtins = r.session.builtins
  requestedLimit : r'.session.requestedLimit = r.session.requestedLimit
  limit : r'.session.limit = if evaluated then r.session.nextLimit.1 else r.session.limit
  showsEvents : r'.showsEvents = r.showsEvents
  clearScreen : r'.clearScreen = r.clearScreen

section Continues

variable {r r₁ r' : Repl} {evaluated evaluated' : Bool}

/-- What is to be set as the limit stays the same. -/
theorem Continues.nextLimit_fst (h : r.Continues evaluated r') :
    r'.session.nextLimit.1 = r.session.nextLimit.1 := by
  have hlimit := h.limit
  cases evaluated with
  | false => rw [Session.nextLimit_congr h.requestedLimit hlimit]
  | true =>
    have hresumed := Session.nextLimit_resume r.session ⟨r.session.store, "", []⟩
    rw [← hresumed]
    exact congrArg Prod.fst (Session.nextLimit_congr h.requestedLimit hlimit)

/-- A dialogue that goes on twice goes on. -/
theorem Continues.trans (h : r.Continues evaluated r₁) (h' : r₁.Continues evaluated' r') :
    r.Continues (evaluated || evaluated') r' := by
  refine ⟨h'.builtins.trans h.builtins, h'.requestedLimit.trans h.requestedLimit, ?_,
    h'.showsEvents.trans h.showsEvents, h'.clearScreen.trans h.clearScreen⟩
  rw [h'.limit, h.nextLimit_fst, h.limit]
  cases evaluated <;> cases evaluated' <;> rfl

/-- A dialogue goes on after a command. -/
theorem continues_command (r : Repl) (c : SlashCommand) : r.Continues false (r.command c).2 := by
  cases c <;> exact ⟨rfl, rfl, rfl, rfl, rfl⟩

/-- A dialogue that prompts again after an evaluation goes on. -/
theorem continues_of_evaluate {source : String} {t : Transcript}
    (h : r.evaluate source = .prompting t r') : r.Continues true r' := by
  cases hprinted : outcomeText r.traceback (levelsOf (r.session.evaluate source).2.limit)
      (r.session.evaluate source).1.outcome with
  | ok printed =>
    obtain ⟨m, hm⟩ := Session.exists_resume (settable_of_printed hprinted) source
    rw [evaluate_of_printed hprinted, hm] at h
    cases h
    exact ⟨rfl, rfl, rfl, rfl, rfl⟩
  | error cause =>
    rw [evaluate_of_unprinted hprinted] at h
    cases h

/-- A dialogue that prompts again after an entry goes on. -/
theorem continues_of_respond {entry : Entry} {t : Transcript}
    (h : r.respond entry = .prompting t r') : r.Continues (evaluates entry) r' := by
  cases entry with
  | endOfInput => cases h
  | interrupt =>
    cases h
    exact ⟨rfl, rfl, rfl, rfl, rfl⟩
  | text text =>
    obtain ⟨hentry, hrespond⟩ | ⟨hentry, hrespond | ⟨c, hrespond⟩⟩ := respond_text text
    · rw [hrespond r] at h
      rw [hentry]
      exact continues_of_evaluate h
    · rw [hrespond r] at h
      cases h
      rw [hentry]
      exact ⟨rfl, rfl, rfl, rfl, rfl⟩
    · rw [hrespond r] at h
      cases h
      rw [hentry]
      exact r.continues_command c

/-- Entries after which the dialogue prompts again let it go on. -/
theorem continues_of_after? {entries : List Entry} (h : r.after? entries = some r') :
    r.Continues (entries.any evaluates) r' := by
  induction entries generalizing r with
  | nil =>
    cases h
    exact ⟨rfl, rfl, rfl, rfl, rfl⟩
  | cons entry entries ih =>
    rw [after?] at h
    match hrespond : r.respond entry with
    | .prompting t r₁ =>
      rw [hrespond] at h
      exact (continues_of_respond hrespond).trans (ih h)
    | .ended t => simp [hrespond] at h
    | .broken t cause => simp [hrespond] at h

/-- Behind entries after which the dialogue prompts again it is the dialogue that it has become. -/
theorem dialogue_append {entries : List Entry} (h : r.after? entries = some r')
    (others : List Entry) :
    (r.dialogue (entries ++ others)).breakdown = (r'.dialogue others).breakdown ∧
      (r.dialogue (entries ++ others)).responses.drop entries.length =
        (r'.dialogue others).responses := by
  induction entries generalizing r with
  | nil =>
    cases h
    exact ⟨rfl, rfl⟩
  | cons entry entries ih =>
    rw [after?] at h
    rw [List.cons_append, dialogue]
    match hrespond : r.respond entry with
    | .prompting t r₁ =>
      rw [hrespond] at h
      exact ih h
    | .ended t => simp [hrespond] at h
    | .broken t cause => simp [hrespond] at h

/-- A command is carried out. -/
theorem respond_of_command {text : String} {c : SlashCommand}
    (hblank : Text.allBlank (normalize text) = false)
    (hcommand : SlashCommand.read? (normalize text) = some c) (r : Repl) :
    r.respond (.text text) = .prompting (r.command c).1 (r.command c).2 := by
  rw [respond, if_neg (by simp [hblank]), hcommand]

/-- A reset is responded to by saying so. -/
theorem respond_reset (r : Repl) :
    r.respond (.text "/reset") =
      .prompting ⟨"Environment reset.\n", ""⟩ { r with session := r.session.reset } := by
  have hblank : Text.allBlank (normalize "/reset") = false := by decide +kernel
  have hcommand : SlashCommand.read? (normalize "/reset") = some .reset := by decide +kernel
  exact respond_of_command hblank hcommand r

end Continues

/-- Nothing was written by a program, and nothing is reported. -/
theorem append_printed (out err : String) :
    (⟨"", err⟩ : Transcript) ++ ⟨out, ""⟩ = ⟨out, err⟩ :=
  congrArg₂ Transcript.mk String.empty_append String.append_empty

/-- A text that is evaluated and printed is responded to so. -/
theorem respond_of_evaluate {r : Repl} {text : String} {report : Report} {session : Session}
    {printed : Transcript} (hentry : evaluates (.text text) = true) (hplain : normalize text = text)
    (hevaluate : r.session.evaluate text = (report, session))
    (hprinted : outcomeText r.traceback (levelsOf session.limit) report.outcome = .ok printed) :
    r.respond (.text text) =
      .prompting (⟨report.output, if r.showsEvents then Event.log report.events else ""⟩ ++ printed)
        { r with session } := by
  obtain ⟨-, hrespond⟩ | ⟨hnot, -⟩ := respond_text text
  · rw [hrespond, hplain, evaluate_of_printed (by rw [hevaluate]; exact hprinted), shown, hevaluate]
  · rw [hentry] at hnot
    cases hnot

/-- The record of raising the recursion limit. -/
def raised : String :=
  "DEBUG ether.runner: recursion limit set to 10000\n"

/-- What a fresh dialogue puts on record before a dialogue does that has gone on from it: that the
limit is raised, if records are shown, no limit is asked for and something was evaluated. -/
theorem limitRecord_start {settings : Settings} {showsEvents : Bool} {clearScreen : String}
    {evaluated : Bool} {r : Repl}
    (h : (start settings showsEvents clearScreen).Continues evaluated r) :
    (start settings showsEvents clearScreen).limitRecord =
      (if showsEvents && settings.recursionLimit?.isNone && evaluated then raised else "") ++
        r.limitRecord := by
  have hshows : r.showsEvents = showsEvents := h.showsEvents
  have hrequested : r.session.requestedLimit = settings.recursionLimit? := h.requestedLimit
  have hlimit := h.limit
  cases showsEvents with
  | false => simp [limitRecord, start, hshows]
  | true =>
    cases hasked : settings.recursionLimit? with
    | some limit =>
      simp [limitRecord, start, hshows, Session.nextLimit, hrequested, hasked, Session.start]
    | none =>
      have hraised : Event.log [.limitSet usualLimit] = raised := by decide +kernel
      have hnone : Event.log [] = "" := rfl
      have hlow : initialLimit < usualLimit := by decide
      cases evaluated with
      | false =>
        simp [limitRecord, start, hshows, Session.nextLimit, hrequested, hasked, Session.start,
          hlimit]
      | true =>
        simp [limitRecord, start, hshows, Session.nextLimit, hrequested, hasked, Session.start,
          hlimit, hlow, hraised, hnone]

/-- After a reset a dialogue is a fresh one with the same setting of tracebacks. It breaks down if
that does and writes the same, except that a fresh dialogue which shows records and has no limit
asked for puts on record that the limit is raised before the first text that it evaluates, and the
dialogue that was reset does not if it has evaluated something before. -/
theorem dialogue_reset (settings : Settings) (showsEvents : Bool) (clearScreen : String)
    (before after : List Entry) (r : Repl)
    (h : (start settings showsEvents clearScreen).after? before = some r) :
    let begun := start settings showsEvents clearScreen
    let whole := begun.dialogue (before ++ .text "/reset" :: after)
    let fresh := { begun with traceback := r.traceback }.dialogue after
    let later := whole.responses.drop (before.length + 1)
    later.map Transcript.out = fresh.responses.map Transcript.out ∧
      whole.breakdown = fresh.breakdown ∧
      fresh.responses =
        if showsEvents && settings.recursionLimit?.isNone && before.any evaluates then
          recordedFirst raised after later
        else later := by
  intro begun whole fresh later
  have hcontinues := continues_of_after? h
  obtain ⟨hbreakdown, hresponses⟩ := dialogue_append h (.text "/reset" :: after)
  rw [dialogue, respond_reset] at hbreakdown hresponses
  have hlater : later = ({ r with session := r.session.reset }.dialogue after).responses := by
    have hdrop : later = (whole.responses.drop before.length).drop 1 := by rw [List.drop_drop]
    rw [hdrop, hresponses]
    rfl
  have hrecord := limitRecord_start hcontinues
  have hmono : StrictMono (r.session.store.frames.size + ·) :=
    fun _ _ hlt => Nat.add_lt_add_left hlt _
  have hrenumbered : { begun with traceback := r.traceback }.Renumbered
      (r.session.store.frames.size + ·)
      (if showsEvents && settings.recursionLimit?.isNone && before.any evaluates then raised
        else "")
      { r with session := r.session.reset } :=
    ⟨Session.renumbered_reset hcontinues.builtins hcontinues.requestedLimit
      hcontinues.nextLimit_fst rfl rfl, rfl, hcontinues.showsEvents, hcontinues.clearScreen,
      hrecord⟩
  obtain ⟨hbreakdown', hresponses'⟩ := hrenumbered.dialogue hmono after
  rw [← hlater] at hresponses'
  refine ⟨?_, hbreakdown.trans hbreakdown'.symm, ?_⟩
  · rw [hresponses', map_out_recordedFirst]
  · rw [hresponses']
    split
    · rfl
    · exact recordedFirst_empty after later

/-- Tracebacks are turned on, a function and a variable that it reads are defined, and the user
interrupts. -/
def defining : List Entry :=
  [.text "/py-traceback on", .text "var y = 2; var f = |x| \x7b x + y \x7d;", .interrupt]

/-- The session in which these are defined. -/
def defined : Session :=
  ⟨.standard, none, 10000, ⟨#[⟨none, [("y", .int 2), ("f", .closure [⟨"x", 1⟩]
    (.mk [.expr (.binary (.known .add) (.ident "x" 1) (.ident "y" 1) 1) 1] 1) 0)]⟩]⟩, 0⟩

/-- The function is called and another one is looked at. -/
def calling : List Entry :=
  [.text "f(1)", .text "[3, |x| \x7b y \x7d]"]

/-- After the reset the function is not there any more, and only the record of the raised limit is
missing. -/
theorem dialogue_reset_calling :
    let begun := start .none true ""
    let whole := begun.dialogue (defining ++ .text "/reset" :: calling)
    let fresh := { begun with traceback := true }.dialogue calling
    (begun.after? defining).map Repl.traceback = some true ∧ whole.breakdown = none ∧
      (whole.responses.drop 4).map Transcript.out = ["", "[3, |x| \x7by;\x7d]\n", "\n"] ∧
      fresh.responses = recordedFirst raised calling (whole.responses.drop 4) := by
  intro begun whole fresh
  let shown : Repl := { begun with traceback := true }
  have hlevels : levelsOf shown.session.nextLimit.1 = 5000 := by decide
  have hdefining : begun.after? defining = some ⟨defined, true, true, ""⟩ := by
    have hblank : Text.allBlank (normalize "/py-traceback on") = false := by decide +kernel
    have hcommand :
        SlashCommand.read? (normalize "/py-traceback on") = some (.setTraceback true) := by
      decide +kernel
    have hentry : evaluates (.text "var y = 2; var f = |x| \x7b x + y \x7d;") = true := by
      decide +kernel
    have hplain : normalize "var y = 2; var f = |x| \x7b x + y \x7d;" =
        "var y = 2; var f = |x| \x7b x + y \x7d;" := by decide +kernel
    let definitions : Ast.Program :=
      ⟨[.var ⟨"y", 1⟩ (.int 2 1) 1, .var ⟨"f", 1⟩ (.function [⟨"x", 1⟩]
        (.mk [.expr (.binary (.known .add) (.ident "x" 1) (.ident "y" 1) 1) 1] 1) 1) 1]⟩
    have hevaluate : shown.session.evaluate "var y = 2; var f = |x| \x7b x + y \x7d;" =
        (⟨.ok .null, "", [.limitSet 10000, .parsed 2, .lowered definitions, .evaluating 2,
          .closure 1 ⟨none, [("y", .int 2)]⟩]⟩, defined) := by
      have htokens : tokenStream "var y = 2; var f = |x| \x7b x + y \x7d;" =
          ⟨[⟨.kwVar, "var", 1⟩, ⟨.ident, "y", 1⟩, ⟨.assign, "=", 1⟩, ⟨.integer, "2", 1⟩,
            ⟨.semicolon, ";", 1⟩, ⟨.kwVar, "var", 1⟩, ⟨.ident, "f", 1⟩, ⟨.assign, "=", 1⟩,
            ⟨.bar, "|", 1⟩, ⟨.ident, "x", 1⟩, ⟨.bar, "|", 1⟩, ⟨.leftBrace, "\x7b", 1⟩,
            ⟨.ident, "x", 1⟩, ⟨.plus, "+", 1⟩, ⟨.ident, "y", 1⟩, ⟨.rightBrace, "\x7d", 1⟩,
            ⟨.semicolon, ";", 1⟩], 1⟩ := by decide +kernel
      let tree : List Surface.Stmt :=
        [.var ⟨"y", 1⟩ (.integer "2" 1) 1, .var ⟨"f", 1⟩ (.function [⟨"x", 1⟩]
          (.mk [.expr (.binary .add (.ident "x" 1) (.ident "y" 1) 1) 1] 1) 1) 1]
      have htree : Surface.parse (.atMost 5000) "var y = 2; var f = |x| \x7b x + y \x7d;" =
          .ok tree := by
        rw [Surface.parse_eq_unrolled 100, htokens]
        rfl
      have hdesugar : desugar (.atMost 5000) tree = .ok definitions := rfl
      rw [Session.evaluate_of_levels (by decide) hlevels htree hdesugar]
      with_unfolding_all rfl
    have hprinted : outcomeText true 5000 (.ok .null) = .ok ⟨"", ""⟩ := by decide +kernel
    rw [defining, after?, respond_of_command hblank hcommand]
    change shown.after? _ = _
    rw [after?, respond_of_evaluate hentry hplain hevaluate hprinted]
    rfl
  have hfresh : fresh.breakdown = none ∧
      fresh.responses.map Transcript.out = ["", "[3, |x| \x7by;\x7d]\n", "\n"] := by
    let reported : Transcript := ⟨"", errorText true "line 1: undefined identifier: f"⟩
    have hentry : evaluates (.text "f(1)") = true ∧
        evaluates (.text "[3, |x| \x7b y \x7d]") = true := by decide +kernel
    have hplain : normalize "f(1)" = "f(1)" ∧
        normalize "[3, |x| \x7b y \x7d]" = "[3, |x| \x7b y \x7d]" := by decide +kernel
    let called : Repl := ⟨⟨.standard, none, 10000, ⟨#[⟨none, []⟩]⟩, 0⟩, true, true, ""⟩
    let call : Ast.Program := ⟨[.expr (.call (.ident "f" 1) [.int 1 1] 1) 1]⟩
    have hcall : shown.session.evaluate "f(1)" =
        (⟨.error (.eval ⟨.undefinedName "f", some 1⟩), "", [.limitSet 10000, .parsed 1,
          .lowered call, .evaluating 1]⟩, called.session) := by
      let tree : List Surface.Stmt := [.expr (.call (.ident "f" 1) [.integer "1" 1] 1) 1]
      have htree : Surface.parse (.atMost 5000) "f(1)" = .ok tree := by
        rw [Surface.parse_eq_unrolled 100]
        with_unfolding_all rfl
      have hdesugar : desugar (.atMost 5000) tree = .ok call := rfl
      rw [Session.evaluate_of_levels (by decide) hlevels htree hdesugar]
      with_unfolding_all rfl
    have hcalled : outcomeText true 5000 (.error (.eval ⟨.undefinedName "f", some 1⟩)) =
        .ok reported := by decide +kernel
    let look : Ast.Program :=
      ⟨[.expr (.array [.int 3 1, .function [⟨"x", 1⟩] (.mk [.expr (.ident "y" 1) 1] 1) 1] 1) 1]⟩
    have hlook : called.session.evaluate "[3, |x| \x7b y \x7d]" =
        (⟨.ok (.array [.int 3, .closure [⟨"x", 1⟩] (.mk [.expr (.ident "y" 1) 1] 1) 0]), "",
          [.parsed 1, .lowered look, .evaluating 1, .closure 1 ⟨none, []⟩]⟩, called.session) := by
      let tree : List Surface.Stmt := [.expr (.array [.integer "3" 1, .function [⟨"x", 1⟩]
        (.mk [.expr (.ident "y" 1) 1] 1) 1] 1) 1]
      have htree : Surface.parse (.atMost 5000) "[3, |x| \x7b y \x7d]" = .ok tree := by
        rw [Surface.parse_eq_unrolled 100]
        with_unfolding_all rfl
      have hdesugar : desugar (.atMost 5000) tree = .ok look := rfl
      rw [Session.evaluate_of_levels (by decide) (by decide) htree hdesugar]
      with_unfolding_all rfl
    have hlooked : outcomeText called.traceback (levelsOf called.session.limit)
        (.ok (.array [.int 3, .closure [⟨"x", 1⟩] (.mk [.expr (.ident "y" 1) 1] 1) 0])) =
        .ok ⟨"[3, |x| \x7by;\x7d]\n", ""⟩ := by decide +kernel
    change (shown.dialogue calling).breakdown = none ∧
      (shown.dialogue calling).responses.map Transcript.out = _
    rw [calling, dialogue, respond_of_evaluate hentry.1 hplain.1 hcall hcalled]
    change (called.dialogue _).breakdown = none ∧ _ :: (called.dialogue _).responses.map _ = _
    rw [dialogue, respond_of_evaluate hentry.2 hplain.2 hlook hlooked]
    exact ⟨rfl, rfl⟩
  obtain ⟨hout, hbreakdown, hresponses⟩ :=
    dialogue_reset .none true "" defining calling ⟨defined, true, true, ""⟩ hdefining
  refine ⟨by rw [hdefining]; rfl, hbreakdown.trans hfresh.1, hout.trans hfresh.2, ?_⟩
  refine hresponses.trans (if_pos ?_)
  decide +kernel

/-- The records of evaluating the text `1`. -/
def stepsOfOne : String :=
  "DEBUG ether.parser: parsed 1 top-level statements\nDEBUG ether.lower: lowered program: 1;\n" ++
    "DEBUG ether.runner: evaluating 1 statements\n"

/-- After a reset a dialogue may write less than a fresh one: where records are shown, the text `1`
is evaluated with the record of the raised limit the first time only. -/
theorem dialogue_reset_ne :
    let begun := start .none true ""
    let r := { begun with session := begun.session.resume ⟨begun.session.store, "", []⟩ }
    let later := (begun.dialogue ([.text "1"] ++ .text "/reset" :: [.text "1"])).responses.drop 2
    let fresh := ({ begun with traceback := r.traceback }.dialogue [.text "1"]).responses
    begun.after? [.text "1"] = some r ∧ later = [⟨"1\n", stepsOfOne⟩, ⟨"\n", ""⟩] ∧
      fresh = [⟨"1\n", raised ++ stepsOfOne⟩, ⟨"\n", ""⟩] ∧ later ≠ fresh := by
  intro begun r later fresh
  let again : Repl := { r with session := r.session.reset }
  have hentry : evaluates (.text "1") = true := by decide +kernel
  have hplain : normalize "1" = "1" := by decide +kernel
  have hprinted : outcomeText false 5000 (.ok (.int 1)) = .ok ⟨"1\n", ""⟩ := by decide +kernel
  let one : Ast.Program := ⟨[.expr (.int 1 1) 1]⟩
  let steps : List Event := [.parsed 1, .lowered one, .evaluating 1]
  have hsteps : Event.log steps = stepsOfOne := by decide +kernel
  have htree : Surface.parse (.atMost 5000) "1" = .ok [.expr (.integer "1" 1) 1] := by
    rw [Surface.parse_eq_unrolled 100]
    with_unfolding_all rfl
  have hdesugar : desugar (.atMost 5000) [.expr (.integer "1" 1) 1] = .ok one := rfl
  have hfirst : begun.respond (.text "1") = .prompting ⟨"1\n", raised ++ stepsOfOne⟩ r := by
    have hevaluate : begun.session.evaluate "1" =
        (⟨.ok (.int 1), "", .limitSet 10000 :: steps⟩, r.session) := by
      rw [Session.evaluate_of_levels (by decide) (by decide) htree hdesugar]
      with_unfolding_all rfl
    have hlog : Event.log (.limitSet 10000 :: steps) = raised ++ stepsOfOne := by decide +kernel
    rw [respond_of_evaluate hentry hplain hevaluate hprinted, hlog]
    exact congrArg (Next.prompting · r) (append_printed _ _)
  have hagain : again.respond (.text "1") = .prompting ⟨"1\n", stepsOfOne⟩ again := by
    have hevaluate : again.session.evaluate "1" = (⟨.ok (.int 1), "", steps⟩, again.session) := by
      rw [Session.evaluate_of_levels (by decide) (by decide) htree hdesugar]
      with_unfolding_all rfl
    rw [respond_of_evaluate hentry hplain hevaluate hprinted, hsteps]
    exact congrArg (Next.prompting · again) (append_printed _ _)
  have hlater : later = [⟨"1\n", stepsOfOne⟩, ⟨"\n", ""⟩] := by
    simp only [later, List.singleton_append, dialogue, hfirst, respond_reset]
    change ((dialogue again [.text "1"]).responses) = _
    simp only [dialogue, hagain]
  have hfresh : fresh = [⟨"1\n", raised ++ stepsOfOne⟩, ⟨"\n", ""⟩] := by
    change (begun.dialogue [.text "1"]).responses = _
    simp only [dialogue, hfirst]
  refine ⟨?_, hlater, hfresh, ?_⟩
  · rw [after?, hfirst]
    rfl
  · rw [hlater, hfresh]
    decide +kernel

end Repl

end EtherLang
