import HostScript.Proofs.Grammar.Tracking
import HostScript.Proofs.Token.Cut
import HostScript.Proofs.Grammar.Completeness

namespace HostScript.Tree

open List

/-!
# The first token that no program has

A list of lexemes is viable if some program starts with it.
-/

variable {reached : State}

namespace Recognizer

open HostScript.Tree.Parser HostScript.Lexer

def run (state : State) (lexemes : List Lexeme) : Option State :=
  lexemes.foldlM (fun state lexeme => step state.stack state.role lexeme) state

theorem run_cons (state : State) (lex : Lexeme) (lexemes : List Lexeme) :
    run state (lex :: lexemes) =
      (step state.stack state.role lex).bind fun next => run next lexemes := rfl

variable {state : State}

theorem run_append (second : List Lexeme) (runs : run state first = some reached) :
    run state (first ++ second) = run reached second := by
  unfold run at runs ⊢
  rw [foldlM_append, runs]
  rfl

theorem exists_run_of_scan {tokens token} (stuck : scan state tokens = some token)
    (ends : ∃ last ∈ tokens, last.lexeme.stops) :
    ∃ front back reached, tokens = front ++ token :: back ∧
      run state (front.map Token.lexeme) = some reached ∧
      step reached.stack reached.role token.lexeme = none ∧
      ¬(token.lexeme = .endOfInput ∧ reached.isDone) := by
  induction tokens generalizing state with
  | nil =>
    obtain ⟨_, mem, _⟩ := ends
    cases mem
  | cons first tokens ih =>
    unfold scan at stuck
    cases stepped : step state.stack state.role first.lexeme with
    | some next =>
      simp only [stepped] at stuck
      have later : ∃ last ∈ tokens, last.lexeme.stops := by
        obtain ⟨last, mem, stops⟩ := ends
        rcases mem_cons.mp mem with rfl | later
        · rw [step_of_stops stops] at stepped
          cases stepped
        · exact ⟨last, later, stops⟩
      obtain ⟨front, back, reached, rfl, runs, fails⟩ := ih stuck later
      refine ⟨first :: front, back, reached, rfl, ?_, fails⟩
      rw [map_cons, run_cons, stepped]
      exact runs
    | none =>
      simp only [stepped] at stuck
      split at stuck
      · cases stuck
      · next notEnded =>
        cases stuck
        exact ⟨[], tokens, state, rfl, rfl, stepped, notEnded⟩

theorem scan_eq_none_iff {last} (ordinary : ∀ token ∈ pre, token.lexeme.stops = false)
    (stops : last.lexeme.stops) :
    scan state (pre ++ [last]) = none ↔ last.lexeme = .endOfInput ∧
      ∃ reached, run state (pre.map Token.lexeme) = some reached ∧ reached.isDone := by
  induction pre generalizing state with
  | nil =>
    rw [nil_append]
    unfold scan
    rw [step_of_stops stops]
    dsimp only
    constructor
    · intro accepted
      split at accepted
      · next ended => exact ⟨ended.1, state, rfl, ended.2⟩
      · cases accepted
    · rintro ⟨isEnd, reached, runs, done⟩
      cases runs
      exact if_pos ⟨isEnd, done⟩
  | cons first pre ih =>
    have firstOrdinary := ordinary first mem_cons_self
    have later := fun token mem => ordinary token (mem_cons_of_mem _ mem)
    rw [cons_append, map_cons, run_cons]
    unfold scan
    cases stepped : step state.stack state.role first.lexeme with
    | some next => exact ih later
    | none =>
      have notEnd : ¬(first.lexeme = .endOfInput ∧ state.isDone) := by
        intro ended
        rw [ended.1] at firstOrdinary
        cases firstOrdinary
      rw [if_neg notEnd]
      exact iff_of_false (Option.some_ne_none _) (by rintro ⟨_, _, runs, _⟩; cases runs)

/-- How a postfix and what it is part of can be ended. -/
def Context.ending : Context → List Filler
  | .inside _ closer => [.mark closer.last]
  | .statement =>
    [.mark .leftBracket, .name, .mark .rightBracket, .mark .assign, .name, .mark .semicolon]

def Frame.ending : Frame → List Filler
  | .braces => [.mark .rightBrace]
  | .block => [.mark .leftBrace, .mark .rightBrace]
  | .otherwise => []
  | .mark symbol => [.mark symbol]
  | .identifier => [.name]
  | .first => [.mark .bang, .name, .mark .semicolon]
  | .operand _ closer => [.name, .mark closer.last]
  | .opened _ closer => [.name, .mark .rightParen, .mark closer.last]
  | .openedName _ closer => [.mark .rightParen, .mark closer.last]
  | .cast _ closer => [.mark closer.last]
  | .name context => .name :: context.ending
  | .named context => context.ending
  | .arguments => [.mark .rightParen]
  | .after _ context => context.ending

theorem run_ending (stack : List Frame) (role : Role) (closes : frame ≠ .otherwise) :
    ∃ last, run ⟨frame :: stack, role⟩ (frame.ending.map Filler.lexeme) = some ⟨stack, last⟩ := by
  cases frame with
  | otherwise => exact absurd rfl closes
  | braces | block | first | identifier | arguments => exact ⟨_, rfl⟩
  | mark _ => exact ⟨.other, by simp [run, step, expects, Frame.ending, Filler.lexeme]⟩
  | operand plain closer => cases closer <;> exact ⟨_, rfl⟩
  | opened plain closer => cases closer <;> exact ⟨_, rfl⟩
  | openedName plain closer => cases closer <;> exact ⟨_, rfl⟩
  | cast plain closer => cases closer <;> exact ⟨_, rfl⟩
  | name ctx =>
    rcases ctx with _ | ⟨plain, closer⟩
    · exact ⟨_, rfl⟩
    · cases closer <;> exact ⟨_, rfl⟩
  | named ctx =>
    rcases ctx with _ | ⟨plain, closer⟩
    · exact ⟨_, rfl⟩
    · cases closer <;> exact ⟨_, rfl⟩
  | after accessible ctx =>
    rcases ctx with _ | ⟨plain, closer⟩
    · cases accessible <;> exact ⟨_, rfl⟩
    · cases accessible <;> cases closer <;> exact ⟨_, rfl⟩

theorem exists_run_endings (stack : List Frame) (role : Role) :
    ∃ reached, run ⟨stack, role⟩ ((stack.flatMap Frame.ending).map Filler.lexeme) = some reached ∧
      reached.isDone := by
  induction stack generalizing role with
  | nil => exact ⟨⟨[], role⟩, rfl, rfl⟩
  | cons frame stack ih =>
    by_cases closes : frame = .otherwise
    · subst closes
      obtain ⟨reached, runs, done⟩ := ih role
      rw [flatMap_cons, show Frame.ending .otherwise = [] from rfl, nil_append]
      cases endings : stack.flatMap Frame.ending with
      | nil =>
        rw [endings] at runs
        cases runs
        exact ⟨⟨.otherwise :: stack, role⟩, rfl, done⟩
      | cons filler _ =>
        have notElse : filler.lexeme ≠ .keyword .elseWord := by cases filler <;> exact nofun
        refine ⟨reached, ?_, done⟩
        rw [endings, map_cons, run_cons] at runs
        rw [map_cons, run_cons]
        exact (congrArg (Option.bind · _) (if_neg notElse)).trans runs
    · obtain ⟨last, closed⟩ := run_ending stack role closes
      rw [flatMap_cons, map_append, run_append _ closed]
      exact ih last

end Recognizer

/-- Some program starts with the given lexemes. -/
def Viable (lexemes : List Lexeme) : Prop :=
  ∃ source tree, parse source = .ok tree ∧
    lexemes <+: (Lexer.stream source.length (.start source)).map Token.lexeme

section

open Recognizer Lexer

theorem exists_parse_iff (src : Text) :
    (∃ tree, parse src = .ok tree) ↔ scan .initial (tokens src) = none := by
  have follows := program_follows (tokens src)
  unfold parse
  cases read : Parser.program (tokens src) with
  | ok tree =>
    rw [read] at follows
    exact iff_of_true ⟨tree, rfl⟩ follows.1
  | error _ =>
    rw [read] at follows
    obtain ⟨_, stuck, _⟩ := follows
    exact iff_of_false (fun ⟨_, accepted⟩ => nomatch accepted) (by rw [stuck]; exact nofun)

theorem viable_of_run (lexes : Lexes (.start src) front mid)
    (runs : run .initial (front.map Token.lexeme) = some reached) :
    Viable (front.map Token.lexeme) := by
  obtain ⟨used, _, _, again⟩ := lexes.cuts
  obtain ⟨final, closed, done⟩ := exists_run_endings reached.stack reached.role
  let fillers := reached.stack.flatMap Frame.ending
  have spelled := again (Filler.lines fillers)
    (.inr (endsBlank_of_lineFeed (Filler.head_lines fillers)))
  obtain ⟨others, off, further, lexemes⟩ := Filler.lexes_lines fillers mid.offset
  have whole : Lexes (.start (used ++ Filler.lines fillers)) (front ++ others) ⟨off, [10]⟩ :=
    spelled.trans further
  have isEnd : (next ⟨off, [10]⟩).1.lexeme = .endOfInput := rfl
  have stops : (next ⟨off, [10]⟩).1.lexeme.stops := rfl
  have accepted : scan .initial (tokens (used ++ Filler.lines fillers)) = none := by
    rw [whole.tokens_eq stops]
    refine (scan_eq_none_iff whole.ordinary stops).mpr ⟨isEnd, final, ?_, done⟩
    rw [map_append, run_append _ runs, lexemes]
    exact closed
  obtain ⟨tree, parsed⟩ := (exists_parse_iff _).mpr accepted
  obtain ⟨_, all, _⟩ := whole.all_eq
  refine ⟨_, tree, parsed, ?_⟩
  rw [all, append_assoc, map_append]
  exact prefix_append _ _

theorem not_viable_of_stuck {front lex}
    (runs : run .initial front = some reached) (fails : step reached.stack reached.role lex = none)
    (notEnded : ¬(lex = .endOfInput ∧ reached.isDone)) : ¬Viable (front ++ [lex]) := by
  rintro ⟨src, tree, parsed, starts⟩
  obtain ⟨_, _, lexes, stops⟩ := exists_lexes_start src
  have accepted := (exists_parse_iff src).mp ⟨tree, parsed⟩
  rw [lexes.tokens_eq stops] at accepted
  obtain ⟨isEnd, _, ends, done⟩ := (scan_eq_none_iff lexes.ordinary stops).mp accepted
  obtain ⟨_, all, nothing⟩ := lexes.all_eq
  obtain rfl := nothing isEnd
  rw [all, map_append, map_cons, map_nil, isEnd] at starts
  obtain ⟨rest, whole⟩ := starts
  cases rest using List.reverseRecOn with
  | nil =>
    -- The lexeme is the end of input, where the run of the program may end.
    rw [append_nil] at whole
    obtain ⟨rfl, same⟩ := append_inj' whole rfl
    cases same
    rw [ends] at runs
    cases runs
    exact notEnded ⟨rfl, done⟩
  | append_singleton rest _ =>
    rw [← append_assoc] at whole
    have inside := (append_inj' whole rfl).1
    rw [append_assoc] at inside
    rw [← inside, singleton_append, run_append _ runs, run_cons, fails] at ends
    cases ends

/-- A fault is reported at the first token that no program has there, after the start of some
program, and it is lexical exactly if the token is illegal. -/
theorem parse_fault_earliest
    (source : Text) (fault : ReadFault) (rejected : parse source = .error fault) :
    ∃ before token after,
      Lexer.stream source.length (.start source) = before ++ token :: after ∧
      fault.offset = token.offset ∧
      ¬Viable ((before ++ [token]).map Token.lexeme) ∧
      (∀ shorter, shorter <+: before → Viable (shorter.map Token.lexeme)) ∧
      (fault.stage = .lexical ↔ ∃ reason, token.lexeme = .illegal reason) ∧
      (fault.stage = .syntactic ↔ ∀ reason, token.lexeme ≠ .illegal reason) := by
  have follows := program_follows (tokens source)
  rw [show Parser.program (tokens source) = .error fault from rejected] at follows
  obtain ⟨token, stuck, place, stage⟩ := follows
  obtain ⟨whole, final, lexes, stops⟩ := exists_lexes_start source
  rw [lexes.tokens_eq stops] at stuck
  obtain ⟨before, after, _, split, runs, fails, notEnded⟩ :=
    exists_run_of_scan stuck ⟨_, List.mem_concat_self, stops⟩
  obtain ⟨others, all, _⟩ := lexes.all_eq
  have inside : before <+: whole := by
    have starts : before <+: whole ++ [(next final).1] := split ▸ List.prefix_append ..
    refine List.prefix_of_prefix_length_le starts (List.prefix_append ..) ?_
    have lengths := congrArg List.length split
    simp only [List.length_append, List.length_cons, List.length_nil] at lengths
    omega
  have viable : ∀ shorter, shorter <+: before → Viable (shorter.map Token.lexeme) := by
    rintro shorter ⟨_, rfl⟩
    obtain ⟨_, rfl⟩ := inside
    obtain ⟨_, read, _⟩ := lexes.split
    obtain ⟨source, tree, parsed, starts⟩ := viable_of_run read runs
    rw [List.map_append] at starts
    exact ⟨source, tree, parsed, (List.prefix_append _ _).trans starts⟩
  refine ⟨before, token, after ++ others, ?_, place, ?_, viable, stage, ?_⟩
  · rw [all, ← List.cons_append, ← List.append_assoc, ← split, List.append_assoc]
    rfl
  · rw [List.map_append]
    exact not_viable_of_stuck runs fails notEnded
  · rw [← not_exists, ← stage]
    cases fault <;> simp [ReadFault.stage]

/-- In `1.5=2;` the fault is at the sign of assignment: some programs start with `1.5`. -/
theorem number_not_assignable :
    parse (Text.ofString "1.5=2;") = .error (.notAssignable 3) ∧
      ∃ before token after,
        Lexer.stream (Text.ofString "1.5=2;").length (.start (Text.ofString "1.5=2;")) =
          before ++ token :: after ∧
        3 = token.offset ∧
        ¬Viable ((before ++ [token]).map Token.lexeme) ∧
        (∀ shorter, shorter <+: before → Viable (shorter.map Token.lexeme)) ∧
        (Stage.syntactic = .lexical ↔ ∃ reason, token.lexeme = .illegal reason) ∧
        (Stage.syntactic = .syntactic ↔ ∀ reason, token.lexeme ≠ .illegal reason) := by
  have isFault :
      (match parse (Text.ofString "1.5=2;") with
        | .error fault => some fault
        | .ok _ => none) = some (.notAssignable 3) := by
    decide +kernel
  cases read : parse (Text.ofString "1.5=2;") with
  | ok _ =>
    rw [read] at isFault
    cases isFault
  | error fault =>
    rw [read] at isFault
    cases isFault
    exact ⟨rfl, parse_fault_earliest _ _ read⟩

end

end HostScript.Tree

namespace HostScript.Tree

open List

/-!
# Sources and their programs

A source is read into a tree when its tokens reach the end of input and derive the tree.
-/

namespace Grammar

theorem Spells.mem_of_stops (spells : Spells phrase ts rest) (mem : token ∈ ts)
    (stops : token.lexeme.stops) : token ∈ rest := by
  induction spells <;> grind [Lexeme.stops, Denotes, cases Denotes]

theorem Says.mem_of_stops (derivation : Says passage ts rest) (mem : token ∈ ts)
    (stops : token.lexeme.stops) : token ∈ rest := by
  induction derivation <;> grind [Lexeme.stops, Spells.mem_of_stops]

theorem Says.rest_eq (derivation : Says passage ts rest) (stream : Token.Stream ts pre last)
    (ends : (Parser.current rest).lexeme = .endOfInput) : rest = [last] := by
  have kept := derivation.mem_of_stops
    (show last ∈ ts by rw [stream.split]; exact mem_concat_self) stream.stops
  obtain ⟨_, whole⟩ := derivation.suffix
  cases rest with
  | nil => cases kept
  | cons first others =>
    rw [stream.split] at whole
    cases others using List.reverseRecOn with
    | nil => exact (append_inj' whole rfl).2
    | append_singleton others _ =>
      -- The end of input would stand before the last token.
      rw [← cons_append, ← append_assoc] at whole
      have inside : first ∈ pre := by
        rw [← (append_inj' whole rfl).1]
        simp
      have ordinary := stream.ordinary first inside
      rw [show first.lexeme = .endOfInput from ends] at ordinary
      cases ordinary

end Grammar

namespace Parser

theorem program_sound (read : program ts = .ok tree) :
    ∃ body rest, Grammar.Says (.statements body) ts rest ∧
      (current rest).lexeme = .endOfInput ∧ tree = .mk 0 body := by
  have follows := Recognizer.program_follows ts
  rw [read] at follows
  exact follows.2

/-- A derivation of a program leaves the parser no other tree, and no fault. -/
theorem program_complete (legal : Grammar.Legal ts) (derives : Grammar.IsProgram ts tree) :
    program ts = .ok tree := by
  obtain ⟨_, off, derivation, rfl⟩ := derives
  have reads := statementReads_of_derivation derivation legal .endOfInput rfl (.inl rfl)
  have follows := Recognizer.program_follows ts
  cases read : program ts with
  | error _ =>
    obtain ⟨calls, done, enough⟩ := (reads.and (Filter.eventually_ge_atTop _)).exists
    have arrived : Recognizer.Arrived ts := by
      cases ts with
      | nil => exact nofun
      | cons first _ => exact legal first mem_cons_self
    have accepted := Recognizer.statements_follow arrived enough
    rw [done] at accepted
    rw [read] at follows
    obtain ⟨_, stuck, _⟩ := follows
    exact nomatch stuck.symm.trans accepted.2.2.2
  | ok other =>
    rw [read] at follows
    obtain ⟨_, _, _, said, ends, rfl⟩ := follows
    have again := statementReads_of_derivation said legal .endOfInput
      (by rw [ahead_zero, ends]; rfl) (.inl rfl)
    obtain ⟨_, first, second⟩ := (reads.and again).exists
    cases first.symm.trans second
    rfl

end Parser

/-- A source is read into a tree exactly when it has no lexical fault and its tokens derive
the tree in the grammar. -/
theorem parse_eq_ok_iff
    (source : Text) (tree : Block) :
    parse source = .ok tree ↔
      (Lexer.tokenize source).2 = none ∧ Grammar.IsProgram (Lexer.tokenize source).1 tree := by
  obtain ⟨_, last, stream⟩ := Lexer.tokens_stream source
  constructor
  · intro read
    obtain ⟨body, _, derivation, ends, rfl⟩ := Parser.program_sound read
    obtain rfl := derivation.rest_eq stream ends
    have noFault := (Lexer.tokenize_eq_none_iff stream).mpr ends
    refine ⟨noFault, body, last.offset, ?_, rfl⟩
    rw [Lexer.tokenize_tokens noFault, ← show last.lexeme = .endOfInput from ends]
    exact derivation
  · rintro ⟨noFault, derives⟩
    rw [Lexer.tokenize_tokens noFault] at derives
    refine Parser.program_complete ?_ derives
    intro token member fault isIllegal
    rw [stream.split] at member
    rcases List.mem_append.mp member with earlier | atEnd
    · have ordinary := stream.ordinary token earlier
      rw [isIllegal] at ordinary
      cases ordinary
    · obtain rfl := List.mem_singleton.mp atEnd
      rw [(Lexer.tokenize_eq_none_iff stream).mp noFault] at isIllegal
      cases isIllegal

end HostScript.Tree
