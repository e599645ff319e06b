import EtherLang.Proofs.Surface.Recursion
import EtherLang.Proofs.Token.Joining

/-!
# The first impossible token

A text that is rejected is rejected at the first token, the end of the input included, with which
no program goes on. Each list of tokens before it begins the tokens of some program: the text is
cut behind them, and what is missing is written on the next line. With the token itself they begin
none, since every text with these tokens is rejected as this one is.
-/

namespace EtherLang

namespace Filler

/-- Fillers written out, each with a blank behind it. -/
def write : List Filler → List Char
  | [] => []
  | f :: fs => f.char :: ' ' :: write fs

/-- A filler and the blank behind it are scanned as the filler. -/
theorem scanFrom_char (line : Nat) (f : Filler) (rest : List Char) :
    (scanFrom line (f.char :: ' ' :: rest)).tokens =
      f.token line :: (scanFrom line rest).tokens := by
  have hblank : scanFrom line (' ' :: rest) = scanFrom line rest := scanFrom_blank
  cases f with
  | name =>
    have hword : isWord "x" = true := by decide
    exact scanFrom_word_blank hword
  | _ =>
    rw [← hblank]
    refine scanFrom_symbol rfl fun d hd => ?_
    cases hd
    rfl

/-- What is written for fillers is scanned as them. -/
theorem scanFrom_write (line : Nat) (fs : List Filler) :
    (scanFrom line (write fs)).tokens = fs.map (token line) := by
  induction fs with
  | nil => exact scanFrom_nil
  | cons f fs ih => rw [write, scanFrom_char, ih, List.map_cons]

end Filler

namespace Surface

open Grammar Surface.Parser

/-- The tokens of some program, the end of the input included, begin with these tokens. -/
def BeginsProgram (ts : List Token) : Prop :=
  ∃ source depth tree, parse depth source = .ok tree ∧ ts <+: tokenize source

/-- What begins the tokens of a program may be cut short. -/
theorem BeginsProgram.of_shorter {ts us : List Token} (h : BeginsProgram us) (hts : ts <+: us) :
    BeginsProgram ts := by
  obtain ⟨source, depth, tree, hparse, hus⟩ := h
  exact ⟨source, depth, tree, hparse, hts.trans hus⟩

/-- If a text has some tokens of another one and the token behind them, be it the end of the input,
then it goes on with that token. -/
theorem exists_sameNext {source source' : String} {ts us : List Token}
    (htokens : (tokenStream source).tokens = ts ++ us)
    (hstart : ts ++ [peek (tokenStream source).endLine us] <+: tokenize source') :
    ∃ us', (tokenStream source').tokens = ts ++ us' ∧
      SameNext (tokenStream source).endLine (tokenStream source').endLine us us' := by
  obtain ⟨tail, htail⟩ := hstart
  change _ = (tokenStream source').tokens ++ [Token.endOfInput (tokenStream source').endLine]
    at htail
  obtain rfl | ⟨vs, last, rfl⟩ := List.eq_nil_or_concat tail
  · -- The token is the end of both texts.
    rw [List.append_nil] at htail
    obtain ⟨hts, hend⟩ := List.append_inj' htail rfl
    refine ⟨[], by rw [← hts, List.append_nil], ?_⟩
    cases us with
    | nil => exact ⟨rfl, List.singleton_inj.mp hend⟩
    | cons u us =>
      have hu : u ∈ (tokenStream source).tokens := by rw [htokens]; simp
      have hkind := congrArg Token.kind (List.singleton_inj.mp hend)
      exact absurd hkind (kind_ne_endOfInput hu)
  · rw [List.concat_eq_append, ← List.append_assoc] at htail
    obtain ⟨hts, _⟩ := List.append_inj' htail rfl
    rw [List.append_assoc] at hts
    refine ⟨_, hts.symm, ?_⟩
    cases us with
    | nil =>
      have hend : Token.endOfInput (tokenStream source).endLine ∈ (tokenStream source').tokens := by
        rw [← hts]
        simp [peek]
      exact absurd rfl (kind_ne_endOfInput hend)
    | cons u us => exact .cons u _ _

/-- What can be finished begins the tokens of a program. -/
theorem beginsProgram_of_resumes {source : String} {ts us : List Token}
    (htokens : (tokenStream source).tokens = ts ++ us) (hts : Throughout Convertible ts)
    (hresumes : Resumes (fun ts => ∃ ss, Statements ts ss) ts) : BeginsProgram ts := by
  obtain ⟨before, _, hbefore⟩ := exists_prefix_of_tokens 1 source.toList us ts htokens
  obtain ⟨fillers, hfillers⟩ := hresumes
  let line := (scanFrom 1 before).endLine + 1
  let finished := String.ofList (before ++ '\n' :: Filler.write fillers)
  have hfinished : (tokenStream finished).tokens = ts ++ fillers.map (Filler.token line) := by
    rw [tokenStream, String.toList_ofList, scanFrom_append_newline, hbefore,
      Filler.scanFrom_write]
  have hconvertible : Throughout Convertible (ts ++ fillers.map (Filler.token line)) := by
    refine throughout_append.mpr ⟨hts, fun t ht => ?_⟩
    obtain ⟨f, _, rfl⟩ := List.mem_map.mp ht
    exact convertible_of_kind rfl f.kind_ne_integer
  obtain ⟨ss, hss⟩ := hfillers line
  refine ⟨finished, .unbounded, ss, ?_, ?_⟩
  · rw [parse, hfinished]
    exact statements_complete hss hconvertible
  · rw [tokenize, TokenStream.toList, hfinished, List.append_assoc]
    exact List.prefix_append _ _

/-- A program that is read to some depth is read without a bound. -/
theorem parse_unbounded_of_ok {depth : Depth} {source : String} {tree : List Stmt}
    (h : parse depth source = .ok tree) : parse .unbounded source = .ok tree := by
  obtain ⟨line, hdeep⟩ | hread := parse_of_le depth.le_unbounded source
  · rw [h] at hdeep
    cases hdeep
  · rw [hread, h]

/-- A token, or the end of the input, blocks a text that is rejected, and all texts that are the
same up to there. -/
theorem exists_blocking {depth : Depth} {source : String} {e : ParseError}
    (h : parse depth source = .error (.rejected e)) :
    ∃ ts us, (tokenStream source).tokens = ts ++ us ∧ Throughout Convertible ts ∧
      Blocks (tokenStream source).endLine [] (fun ts => ∃ ss, Statements ts ss) e ts us ∧
      ∀ depth' source', (ParseFailure.rejected e).Persists depth depth' →
        ts ++ [peek (tokenStream source).endLine us] <+: tokenize source' →
        parse depth' source' = .error (.rejected e) := by
  have hread := Reading.statements_eq_error_iff.mpr h
  obtain ⟨ts, us, htokens, hts, hblocks, hall⟩ := (statements_viable []).of_eq_error hread
  refine ⟨ts, us, htokens, hts, hblocks e rfl, fun depth' source' hpersists hstart => ?_⟩
  obtain ⟨us', hus', hnext⟩ := exists_sameNext htokens hstart
  have hread' := hall hpersists hnext
  rw [← hus'] at hread'
  exact Reading.statements_eq_error_iff.mp hread'

/-- A text is rejected at the first token with which it begins no program: for the line of that
token, and as every text is that has the same tokens up to there, on the same lines. -/
theorem rejected_at_first_impossible (depth : Depth) (source : String) (e : ParseError)
    (h : parse depth source = .error (.rejected e)) (hcause : e.cause ≠ .tooDeep) :
    ∃ k t, (tokenize source)[k]? = some t ∧ e.line = t.line ∧
      ¬BeginsProgram ((tokenize source).take (k + 1)) ∧
      (∀ j < k, BeginsProgram ((tokenize source).take (j + 1))) ∧
      ∀ source', (tokenize source').take (k + 1) = (tokenize source).take (k + 1) →
        parse depth source' = .error (.rejected e) := by
  obtain ⟨ts, us, htokens, hts, hblocks, hall⟩ := exists_blocking h
  have htokenize : ∃ vs,
      tokenize source = ts ++ peek (tokenStream source).endLine us :: vs := by
    rw [tokenize, TokenStream.toList, htokens, List.append_assoc]
    cases us with
    | nil => exact ⟨[], rfl⟩
    | cons u us => exact ⟨us ++ [_], rfl⟩
  obtain ⟨vs, htokenize⟩ := htokenize
  have htake : (tokenize source).take (ts.length + 1) =
      ts ++ [peek (tokenStream source).endLine us] := by
    rw [htokenize, List.append_cons]
    exact List.take_left' (by simp)
  refine ⟨ts.length, _, ?_, hblocks.line, ?_, fun j hj => ?_, fun source' hsource' => ?_⟩
  · rw [htokenize, List.getElem?_append_right (Nat.le_refl _), Nat.sub_self]
    rfl
  · rintro ⟨source', depth', tree, hparse, hstart⟩
    rw [htake] at hstart
    have hrejected := hall .unbounded source' (ParseFailure.persists_unbounded hcause depth) hstart
    rw [parse_unbounded_of_ok hparse] at hrejected
    cases hrejected
  · refine (beginsProgram_of_resumes htokens hts (hblocks.resumes hcause)).of_shorter ?_
    rw [htokenize, List.take_append_of_le_length (by omega)]
    exact List.take_prefix _ _
  · refine hall depth source' (ParseFailure.persists_self _ depth) ?_
    rw [← htake, ← hsource']
    exact List.take_prefix _ _

/-- A call whose arguments are broken off on the second line. -/
def openCall : String :=
  "f(1,\n2;"

/-- The semicolon is the first token with which no program goes on. -/
theorem rejected_at_first_impossible_openCall :
    parse (.atMost 3) openCall =
        .error (.rejected ⟨.expected (.listClose .rightParen) ⟨.semicolon, ";", 2⟩, 2⟩) ∧
      ∃ k t, (tokenize openCall)[k]? = some t ∧ 2 = t.line ∧
        ¬BeginsProgram ((tokenize openCall).take (k + 1)) ∧
        (∀ j < k, BeginsProgram ((tokenize openCall).take (j + 1))) ∧
        ∀ source', (tokenize source').take (k + 1) = (tokenize openCall).take (k + 1) →
          parse (.atMost 3) source' =
            .error (.rejected ⟨.expected (.listClose .rightParen) ⟨.semicolon, ";", 2⟩, 2⟩) := by
  have h : parse (.atMost 3) openCall =
      .error (.rejected ⟨.expected (.listClose .rightParen) ⟨.semicolon, ";", 2⟩, 2⟩) := by
    rw [parse_eq_unrolled 100]
    with_unfolding_all rfl
  exact ⟨h, rejected_at_first_impossible _ _ _ h (by decide)⟩

end Surface

end EtherLang
