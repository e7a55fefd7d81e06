import HostScript.Proofs.Grammar.Basic

namespace HostScript.Tree

open Grammar
open List
open Filter (atTop)

/-!
# What is derived is read by the parser

The parser takes as much as it can, so it reads a phrase only up to a token that cannot continue
it.
-/

variable {level : Nat}

namespace Grammar

/-! The lexemes that may continue a phrase. -/

def ContinuesPrimary (lexeme : Lexeme) : Prop :=
  lexeme = .mark .leftParen

def ContinuesMember (lexeme : Lexeme) : Prop :=
  ContinuesPrimary lexeme ∨ lexeme = .mark .period ∨ lexeme = .mark .dollar

def ContinuesOperand (lexeme : Lexeme) : Prop :=
  ContinuesMember lexeme ∨ lexeme = .mark .leftBracket

def ContinuesChain (level : Nat) (lexeme : Lexeme) : Prop :=
  ContinuesOperand lexeme ∨
    ∃ tighter symbol op, level ≤ tighter ∧ Binds tighter symbol op ∧ lexeme = .mark symbol

def ContinuesExpression (lexeme : Lexeme) : Prop :=
  ContinuesChain 0 lexeme ∨ lexeme = .mark .question

def ContinuesList (lexeme : Lexeme) : Prop :=
  ContinuesExpression lexeme ∨ lexeme = .mark .comma

def Ends (continues : Lexeme → Prop) (rest : List Token) : Prop :=
  ¬continues (Parser.current rest).lexeme

theorem Binds.unique (binds : Binds level sym op) (again : Binds other sym another) :
    level = other ∧ op = another := by
  cases binds <;> cases again <;> exact ⟨rfl, rfl⟩

section

variable {rest : List Token}

theorem Ends.expression (ends : Ends ContinuesList rest) : Ends ContinuesExpression rest :=
  fun continues => ends (.inl continues)

theorem Ends.chain (ends : Ends ContinuesExpression rest) : Ends (ContinuesChain 0) rest :=
  fun continues => ends (.inl continues)

theorem Ends.operand (ends : Ends (ContinuesChain level) rest) : Ends ContinuesOperand rest :=
  fun continues => ends (.inl continues)

theorem Ends.tighter (ends : Ends (ContinuesChain level) rest) :
    Ends (ContinuesChain (level + 1)) rest := by
  rintro (continues | ⟨tighter, sym, op, above, binds, same⟩)
  · exact ends (.inl continues)
  · exact ends (.inr ⟨tighter, sym, op, Nat.le_of_succ_le above, binds, same⟩)

theorem Ends.member (ends : Ends ContinuesOperand rest) : Ends ContinuesMember rest :=
  fun continues => ends (.inl continues)

theorem Ends.primary (ends : Ends ContinuesMember rest) : Ends ContinuesPrimary rest :=
  fun continues => ends (.inl continues)

def IsCloser (symbol : Mark) : Prop :=
  symbol = .colon ∨ symbol = .rightParen ∨ symbol = .rightBracket ∨ symbol = .semicolon

theorem ends_closer (closer : IsCloser sym) : Ends ContinuesList (⟨.mark sym, off⟩ :: rest) := by
  show ¬ContinuesList (.mark sym)
  rcases closer with rfl | rfl | rfl | rfl <;>
    rintro (((((same | same | same) | same) | ⟨_, _, _, _, binds, same⟩) | same) | same) <;>
    cases same <;> cases binds

theorem ends_comma : Ends ContinuesExpression (⟨.mark .comma, off⟩ :: rest) := by
  show ¬ContinuesExpression (.mark .comma)
  rintro ((((same | same | same) | same) | ⟨_, _, _, _, binds, same⟩) | same) <;>
    cases same <;> cases binds

theorem ends_question : Ends (ContinuesChain level) (⟨.mark .question, off⟩ :: rest) := by
  show ¬ContinuesChain level (.mark .question)
  rintro (((same | same | same) | same) | ⟨_, _, _, _, binds, same⟩) <;> cases same <;> cases binds

theorem ends_operator (binds : Binds level sym op) :
    Ends (ContinuesChain (level + 1)) (⟨.mark sym, off⟩ :: rest) := by
  show ¬ContinuesChain (level + 1) (.mark sym)
  rintro (((same | same | same) | same) | ⟨_, _, _, _, again, same⟩)
  · cases same
    cases binds
  · cases same
    cases binds
  · cases same
    cases binds
  · cases same
    cases binds
  · cases same
    have equal := (binds.unique again).1
    omega

theorem ends_access (isAccess : sym = .period ∨ sym = .dollar) :
    Ends ContinuesPrimary (⟨.mark sym, off⟩ :: rest) := by
  show ¬Lexeme.mark sym = .mark .leftParen
  rcases isAccess with rfl | rfl <;> exact nofun

theorem ends_bracket : Ends ContinuesMember (⟨.mark .leftBracket, off⟩ :: rest) := by
  show ¬ContinuesMember (.mark .leftBracket)
  rintro (same | same | same) <;> cases same

end

def Phrase.Opens : Phrase → Lexeme → Prop
  | .arguments _, lexeme => lexeme = .mark .leftParen
  | .primary _, lexeme | .member _, lexeme | .indexed _, lexeme =>
    OpensOperand lexeme ∧ lexeme ≠ .mark .minus ∧ lexeme ≠ .mark .bang
  | _, lexeme => OpensOperand lexeme

variable {phrase : Phrase}

variable {rest : List Token}

theorem Spells.opens (spells : Spells phrase ts rest) :
    phrase.Opens (Parser.current ts).lexeme := by
  induction spells with
  | plain _ opens | conditional _ _ _ opens _ _ | tightest _ opens | tighter _ _ opens
  | operator _ _ _ opens _ | unindexed _ opens | index _ _ opens _ | memberless _ opens
  | property _ opens | lateProperty _ opens | invocation _ _ opens _
  | lateInvocation _ _ opens _ | one _ opens | more _ _ opens _ => exact opens
  | access _ _ opens => exact opens.1
  | negation => exact .minus
  | complement => exact .bang
  | cast | bare => exact .leftParen
  | literal denotes => exact ⟨.literal denotes, by cases denotes <;> exact ⟨nofun, nofun⟩⟩
  | name | call => exact ⟨.name _, nofun, nofun⟩
  | parenthesized => exact ⟨.leftParen, nofun, nofun⟩
  | noArguments | someArguments => rfl

variable {lex : Lexeme}

theorem OpensOperand.ne_rightParen (opens : OpensOperand lex) : lex ≠ .mark .rightParen := by
  cases opens with
  | literal denotes => cases denotes <;> exact nofun
  | _ => exact nofun

def Phrase.isAccess : Phrase → Bool
  | .primary _ | .member _ | .indexed _ => true
  | _ => false

theorem Spells.second {ts rest others name} (spells : Spells phrase ts rest)
    (isAccess : phrase.isAccess) (front : ts = ⟨.identifier name, off⟩ :: others) :
    others = rest ∨ ContinuesOperand (Parser.current others).lexeme := by
  induction spells with
  | unindexed _ second | memberless _ second => exact second rfl front
  | index _ _ second _ =>
    rcases second rfl front with rfl | continues
    · exact .inr (.inr rfl)
    · exact .inr continues
  | property _ second | invocation _ _ second _ =>
    rcases second rfl front with rfl | continues
    · exact .inr (.inl (.inr (.inl rfl)))
    · exact .inr continues
  | lateProperty _ second | lateInvocation _ _ second _ =>
    rcases second rfl front with rfl | continues
    · exact .inr (.inl (.inr (.inr rfl)))
    · exact .inr continues
  | literal denotes =>
    cases front
    cases denotes
  | name =>
    cases front
    exact .inl rfl
  | call =>
    cases front
    exact .inr (.inl (.inl rfl))
  | parenthesized => cases front
  | _ => cases isAccess

/-- A lexeme may start a statement; the rest of a block may not start with it. -/
def OpensStatement (lexeme : Lexeme) : Prop :=
  lexeme ≠ .endOfInput ∧ lexeme ≠ .mark .rightBrace ∧ lexeme ≠ .mark .leftBrace

theorem OpensOperand.opensStatement (opens : OpensOperand lex) : OpensStatement lex := by
  cases opens with
  | literal denotes => cases denotes <;> exact ⟨nofun, nofun, nofun⟩
  | _ => exact ⟨nofun, nofun, nofun⟩

theorem Says.opens (derivation : Says (.statement tree) ts rest) :
    OpensStatement (Parser.current ts).lexeme := by
  cases derivation with
  | ifThen | ifElse | whileLoop | breakLoop | continueLoop | leave | declaration | persistent =>
    exact ⟨nofun, nofun, nofun⟩
  | assignment phrase | call phrase | invocation phrase | lateInvocation phrase =>
    exact OpensOperand.opensStatement phrase.opens.1

theorem ends_statement (isEnd : sym = .assign ∨ sym = .semicolon) :
    Ends ContinuesOperand (⟨.mark sym, off⟩ :: rest) := by
  show ¬ContinuesOperand (.mark sym)
  rcases isEnd with rfl | rfl <;> rintro ((same | same | same) | same) <;> cases same

def Legal (tokens : List Token) : Prop :=
  ∀ token ∈ tokens, ∀ fault, token.lexeme ≠ .illegal fault

theorem Legal.tail (legal : Legal (first :: rest)) : Legal rest :=
  fun token member => legal token (mem_cons_of_mem _ member)

theorem suffix_of_cons (suffix : first :: rest <:+ ts) : rest <:+ ts :=
  (suffix_cons _ _).trans suffix

theorem Spells.suffix (spells : Spells phrase ts rest) : rest <:+ ts := by
  induction spells <;> grind [suffix_cons, List.IsSuffix.trans]

theorem Says.suffix (derivation : Says passage ts rest) : rest <:+ ts := by
  induction derivation <;>
    grind [suffix_cons, List.IsSuffix.trans, → suffix_of_cons, → Spells.suffix]

theorem Spells.legal (spells : Spells phrase ts rest) (legal : Legal ts) : Legal rest :=
  fun token member => legal token (spells.suffix.subset member)

theorem Says.legal (derivation : Says passage ts rest) (legal : Legal ts) : Legal rest :=
  fun token member => legal token (derivation.suffix.subset member)

end Grammar

namespace Parser

/-! What the small readers do with the tokens that they want. -/

theorem current_cons (first : Token) (others : List Token) :
    current (first :: others) = first := rfl

theorem ok_bind (val : α) (next : α → Except ε β) : (Except.ok val >>= next) = next val := rfl

section

variable {rest : List Token}

theorem arrive_ok (val : α) (legal : Legal rest) : arrive val rest = .ok (val, rest) := by
  cases rest with
  | nil => rfl
  | cons first _ =>
    obtain ⟨lex, _⟩ := first
    cases lex with
    | illegal fault => exact absurd rfl (legal _ mem_cons_self fault)
    | _ => rfl

theorem advance_ok (legal : Legal rest) : advance (first :: rest) = .ok ((), rest) :=
  arrive_ok () legal

theorem expect_ok (legal : Legal rest) :
    expect (.mark sym) (⟨.mark sym, off⟩ :: rest) = .ok (off, rest) := by
  unfold expect
  exact (if_pos rfl).trans (arrive_ok off legal)

theorem identifier_ok (legal : Legal rest) :
    identifier (⟨.identifier name, off⟩ :: rest) = .ok (⟨name, off⟩, rest) :=
  arrive_ok _ legal

theorem terminated_ok (statement : Statement) (legal : Legal rest) :
    terminated statement (⟨.mark .semicolon, off⟩ :: rest) = .ok (statement, rest) := by
  unfold terminated
  rw [expect_ok legal]
  rfl

end

/-- What cannot continue a phrase is no mark that continues it. -/
theorem not_ahead (ends : Ends continues rest) (continued : continues (.mark sym)) :
    ¬ahead 0 rest = .mark sym := by
  rw [ahead_zero]
  intro isMark
  rw [← kind_eq_mark.mp isMark] at continued
  exact ends continued

/-- A call takes one of the calls that a reader may make. -/
theorem eventually_succ {holds : Nat → Prop} (later : ∀ᶠ calls in atTop, holds (calls + 1)) :
    ∀ᶠ calls in atTop, holds calls := by
  rw [← Filter.map_add_atTop_eq_nat 1]
  exact later

def Reads : Phrase → List Token → List Token → Prop
  | .expression tree, tokens, rest => Ends ContinuesExpression rest →
      ∀ᶠ calls in atTop, expression calls tokens = .ok (tree, rest)
  | .chain level tree, tokens, rest => Ends (ContinuesChain (level + 1)) rest → ∀ result,
      (∀ᶠ calls in atTop, binaryRest calls level tree rest = result) →
      ∀ᶠ calls in atTop, binary calls level tokens = result
  | .operand tree, tokens, rest => Ends ContinuesOperand rest →
      ∀ᶠ calls in atTop, unary calls tokens = .ok (tree, rest)
  | .indexed tree, tokens, rest => Ends ContinuesMember rest → ∀ result,
      (∀ᶠ calls in atTop, indexLists calls tree rest = result) →
      ∀ᶠ calls in atTop, postfixChain calls tokens = result
  | .member tree, tokens, rest => Ends ContinuesPrimary rest → ∀ result,
      (∀ᶠ calls in atTop, members calls tree rest = result) →
      ∀ᶠ calls in atTop, (primary calls tokens >>= fun read => members calls read.1 read.2) = result
  | .primary tree, tokens, rest => Ends ContinuesPrimary rest →
      ∀ᶠ calls in atTop, primary calls tokens = .ok (tree, rest)
  | .arguments trees, tokens, rest => ∀ᶠ calls in atTop, arguments calls tokens = .ok (trees, rest)
  | .listed trees, tokens, rest => Ends ContinuesList rest →
      ∀ᶠ calls in atTop, expressions calls tokens = .ok (trees, rest)

section

variable {rest : List Token}

variable {tree : Expr}

theorem binaryRest_ok (none : operatorAt? level (current rest).lexeme = none) :
    ∀ᶠ calls in atTop, binaryRest calls level tree rest = .ok (tree, rest) := by
  refine eventually_succ (.of_forall fun _ => ?_)
  unfold binaryRest
  simp only [none]
  rfl

theorem Reads.chain (reads : Reads (.chain level tree) ts rest)
    (ends : Ends (ContinuesChain level) rest) :
    ∀ᶠ calls in atTop, binary calls level ts = .ok (tree, rest) := by
  refine reads ends.tighter _ (binaryRest_ok ?_)
  cases found : operatorAt? level (current rest).lexeme with
  | none => rfl
  | some op =>
    obtain ⟨sym, isMark, binds⟩ := operatorAt?_eq_some.mp found
    exact absurd (.inr ⟨level, sym, op, Nat.le_refl _, binds, isMark⟩) ends

theorem Reads.indexed (reads : Reads (.indexed tree) ts rest)
    (ends : Ends ContinuesOperand rest) :
    ∀ᶠ calls in atTop, postfixChain calls ts = .ok (tree, rest) := by
  refine reads ends.member _ (eventually_succ (.of_forall fun _ => ?_))
  unfold indexLists
  exact if_neg fun isBracket => ends (.inr isBracket)

theorem Reads.parenthesized
    (reads : Reads (.expression tree) ts (⟨.mark .rightParen, close⟩ :: rest))
    (inner : Spells (.expression tree) ts (⟨.mark .rightParen, close⟩ :: rest))
    (legal : Legal (⟨.mark .leftParen, start⟩ :: ts)) :
    ∀ᶠ calls in atTop,
      parenthesized calls (⟨.mark .leftParen, start⟩ :: ts) = .ok (tree, rest) := by
  refine eventually_succ ?_
  filter_upwards [reads (ends_closer (.inr (.inl rfl))).expression] with fewer read
  unfold Parser.parenthesized
  simp only [expect_ok legal.tail, ok_bind, read, expect_ok (inner.legal legal.tail).tail]
  rfl

theorem reads_of_spells (spells : Spells phrase ts rest) (legal : Legal ts) :
    Reads phrase ts rest := by
  induction spells with
  | plain chain reads =>
    intro ends
    refine eventually_succ ?_
    filter_upwards [(reads legal).chain ends.chain] with fewer read
    unfold expression
    rw [read, ok_bind]
    exact if_neg fun isQuestion => ends (.inr isQuestion)
  | conditional first branch other firstReads branchReads otherReads =>
    intro ends
    have secondLegal := (first.legal legal).tail
    have thirdLegal := (branch.legal secondLegal).tail
    refine eventually_succ ?_
    filter_upwards [(firstReads legal).chain ends_question,
      branchReads secondLegal (ends_closer (.inl rfl)).expression, otherReads thirdLegal ends]
      with fewer readFirst readBranch readOther
    unfold expression
    simp only [readFirst, ok_bind, current_cons, if_true, advance_ok secondLegal, readBranch,
      expect_ok thirdLegal, readOther]
    rfl
  | @tightest _ ts rest arg reads =>
    intro ends _ continued
    have none : operatorAt? levelCount (current rest).lexeme = none := by
      cases (current rest).lexeme <;> rfl
    refine eventually_succ ?_
    filter_upwards [reads legal ends.operand, binaryRest_ok none, continued]
      with fewer read stops same
    unfold binary
    rw [if_neg (show ¬levelCount < levels.length from Nat.lt_irrefl _), read, ← stops, same]
  | @tighter level _ _ _ within _ reads =>
    intro ends _ continued
    refine eventually_succ ?_
    filter_upwards [(reads legal).chain ends, continued] with fewer read same
    unfold binary
    rw [if_pos (show level < levels.length from within), read]
    exact same
  | @operator level _ sym op _ _ _ _ _ first binds last firstReads lastReads =>
    intro ends _ continued
    have secondLegal := (first.legal legal).tail
    have found : operatorAt? level (.mark sym) = some op :=
      operatorAt?_eq_some.mpr ⟨sym, rfl, binds⟩
    refine firstReads legal (ends_operator binds) _ (eventually_succ ?_)
    filter_upwards [(lastReads secondLegal).chain ends, continued] with fewer read same
    rw [binaryRest]
    simp only [current_cons, found, advance_ok secondLegal, ok_bind, read, same]
  | negation arg reads | complement arg reads =>
    intro ends
    refine eventually_succ ?_
    filter_upwards [reads legal.tail ends] with fewer read
    unfold unary
    simp only [current_cons, advance_ok legal.tail, ok_bind, read]
    rfl
  | @cast _ _ _ _ _ ts _ arg reads =>
    intro ends
    have starts : startsUnary (ahead 0 ts) := by
      rw [ahead_zero]
      exact startsUnary_kind.mpr arg.opens
    refine eventually_succ ?_
    filter_upwards [reads legal.tail.tail.tail ends] with fewer read
    unfold unary
    simp only [current_cons]
    rw [if_pos ⟨rfl, rfl⟩]
    simp only [advance_ok legal.tail, identifier_ok legal.tail.tail,
      advance_ok legal.tail.tail.tail, ok_bind, starts, if_true, read]
    rfl
  | @bare _ _ _ _ rest ends =>
    intro _
    have stops : ¬startsUnary (ahead 0 rest) := by
      rw [ahead_zero]
      exact fun starts => ends ((next_iff nofun).mpr (startsUnary_kind.mp starts))
    refine eventually_succ (.of_forall fun _ => ?_)
    unfold unary
    simp only [current_cons]
    rw [if_pos ⟨rfl, rfl⟩]
    simp only [advance_ok legal.tail, identifier_ok legal.tail.tail,
      advance_ok legal.tail.tail.tail, ok_bind]
    rw [if_neg stops]
    rfl
  | access other indexed reads =>
    intro ends
    refine eventually_succ ?_
    filter_upwards [(reads legal).indexed ends] with fewer read
    unfold unary
    dsimp only
    split
    · next isMinus => exact absurd isMinus indexed.opens.2.1
    · next isBang => exact absurd isBang indexed.opens.2.2
    · next isParen => rw [if_neg (mt (nameInParens_iff isParen).mpr other), read]
    · exact read
  | @unindexed tree _ rest member reads =>
    intro ends _ continued
    have stops : ∀ᶠ calls in atTop, members calls tree rest = .ok (tree, rest) := by
      refine eventually_succ (.of_forall fun _ => ?_)
      unfold members
      exact if_neg fun isAccess => ends (.inr isAccess)
    refine eventually_succ ?_
    filter_upwards [reads legal ends.primary _ stops, continued] with fewer same final
    obtain ⟨_, read, accesses⟩ := ok_of_bind same
    unfold postfixChain
    simp only [read, ok_bind, accesses, final]
  | index first listed firstReads listedReads =>
    intro ends _ continued
    have secondLegal := (first.legal legal).tail
    have restLegal := (listed.legal secondLegal).tail
    refine firstReads legal ends_bracket _ (eventually_succ ?_)
    filter_upwards [listedReads secondLegal (ends_closer (.inr (.inr (.inl rfl)))), continued]
      with fewer read same
    rw [indexLists]
    simp only [current_cons, if_true, advance_ok secondLegal, ok_bind, read, expect_ok restLegal,
      same]
  | memberless primary reads =>
    intro ends _ continued
    filter_upwards [reads legal ends, continued] with calls read same
    rw [read]
    exact same
  | property first reads | lateProperty first reads =>
    intro ends _ continued
    have accessLegal := (first.legal legal).tail
    refine reads legal (ends_access (by simp)) _ (eventually_succ ?_)
    filter_upwards [continued] with fewer same
    rw [members]
    simp only [current_cons, true_or, or_true, if_true, advance_ok accessLegal, ok_bind,
      identifier_ok accessLegal.tail]
    rw [if_neg (not_ahead ends rfl)]
    exact same
  | invocation first arguments firstReads argumentsReads
  | lateInvocation first arguments firstReads argumentsReads =>
    intro ends _ continued
    have accessLegal := (first.legal legal).tail
    refine firstReads legal (ends_access (by simp)) _ (eventually_succ ?_)
    filter_upwards [argumentsReads accessLegal.tail, continued] with fewer read same
    rw [members]
    simp only [current_cons, true_or, or_true, if_true, advance_ok accessLegal, ok_bind,
      identifier_ok accessLegal.tail]
    rw [if_pos (ahead_zero.trans (kind_eq_mark.mpr arguments.opens)), read]
    exact same
  | literal denotes =>
    intro _
    refine eventually_succ (.of_forall fun _ => ?_)
    unfold primary
    cases denotes <;> exact arrive_ok _ legal.tail
  | @name name off rest =>
    intro ends
    have notCall : ¬ahead 1 (⟨.identifier name, off⟩ :: rest) = .mark .leftParen :=
      not_ahead ends rfl
    refine eventually_succ (.of_forall fun _ => ?_)
    unfold primary
    simp only [current_cons]
    rw [if_neg notCall]
    exact arrive_ok _ legal.tail
  | @call _ _ off _ ts _ arguments reads =>
    intro _
    refine eventually_succ ?_
    filter_upwards [reads legal.tail] with fewer read
    unfold primary
    simp only [current_cons]
    rw [if_pos (show ahead 1 (_ :: ⟨.mark .leftParen, off⟩ :: ts) = .mark .leftParen from rfl)]
    simp only [identifier_ok legal.tail, ok_bind, read]
    rfl
  | parenthesized inner reads =>
    intro _
    refine eventually_succ ?_
    filter_upwards [(reads legal.tail).parenthesized inner legal] with fewer read
    unfold primary
    exact read
  | noArguments =>
    refine eventually_succ (.of_forall fun _ => ?_)
    unfold arguments
    simp only [expect_ok legal.tail, ok_bind]
    rw [if_pos (show ahead 0 (⟨.mark .rightParen, _⟩ :: _) = .mark .rightParen from rfl)]
    simp only [advance_ok legal.tail.tail, ok_bind]
    rfl
  | someArguments listed reads =>
    have restLegal := (listed.legal legal.tail).tail
    refine eventually_succ ?_
    filter_upwards [reads legal.tail (ends_closer (.inr (.inl rfl)))] with fewer read
    unfold arguments
    simp only [expect_ok legal.tail, ok_bind]
    rw [if_neg fun isClose => OpensOperand.ne_rightParen listed.opens
      (kind_eq_mark.mp (ahead_zero.symm.trans isClose))]
    simp only [read, ok_bind, expect_ok restLegal]
    rfl
  | one only reads =>
    intro ends
    refine eventually_succ ?_
    filter_upwards [reads legal ends.expression] with fewer read
    unfold expressions
    simp only [read, ok_bind]
    rw [if_neg (not_ahead ends (.inr rfl))]
    rfl
  | more first following firstReads followingReads =>
    intro ends
    have secondLegal := (first.legal legal).tail
    refine eventually_succ ?_
    filter_upwards [firstReads legal ends_comma, followingReads secondLegal ends]
      with fewer readFirst readOthers
    unfold expressions
    simp only [readFirst, ok_bind]
    rw [if_pos (show ahead 0 (⟨.mark .comma, _⟩ :: _) = .mark .comma from rfl)]
    simp only [advance_ok secondLegal, ok_bind, readOthers]
    rfl

def StatementReads : Passage → List Token → List Token → Prop
  | .statement tree, tokens, rest => ∀ᶠ calls in atTop, statement calls tokens = .ok (tree, rest)
  | .block tree, tokens, rest => ∀ᶠ calls in atTop, block calls tokens = .ok (tree, rest)
  | .statements trees, tokens, rest => ∀ stop, ahead 0 rest = stop →
      stop = .endOfInput ∨ stop = .mark .rightBrace →
      ∀ᶠ calls in atTop, statements calls stop tokens = .ok (trees, rest)

theorem statement_eq_simple (spells : Spells (.indexed phrase) ts rest)
    (ends : rest = ⟨.mark sym, off⟩ :: others) (isEnd : sym = .assign ∨ sym = .semicolon)
    (calls : Nat) : statement (calls + 1) ts = simpleStatement calls ts := by
  have opens := spells.opens.1
  unfold statement
  dsimp only
  split
  · next isIf =>
    rw [isIf] at opens
    rcases opens with ⟨⟨⟩⟩
  · next isWhile =>
    rw [isWhile] at opens
    rcases opens with ⟨⟨⟩⟩
  · next isBreak =>
    rw [isBreak] at opens
    rcases opens with ⟨⟨⟩⟩
  · next isContinue =>
    rw [isContinue] at opens
    rcases opens with ⟨⟨⟩⟩
  · next isReturn =>
    rw [isReturn] at opens
    rcases opens with ⟨⟨⟩⟩
  · next _ isName =>
    have front := eq_cons_of_current isName nofun
    have follows : ahead 1 ts = (current (ts.drop 1)).lexeme.kind := by
      rw [front]
      exact ahead_zero
    have isMark : ∃ mark, (current (ts.drop 1)).lexeme = .mark mark ∧ mark ≠ .bang := by
      rcases spells.second rfl front with last | ((isParen | isPeriod | isDollar) | isBracket)
      · rw [last, ends]
        exact ⟨sym, rfl, by rcases isEnd with rfl | rfl <;> exact nofun⟩
      · exact ⟨_, isParen, nofun⟩
      · exact ⟨_, isPeriod, nofun⟩
      · exact ⟨_, isDollar, nofun⟩
      · exact ⟨_, isBracket, nofun⟩
    obtain ⟨mark, same, notBang⟩ := isMark
    rw [follows, same, if_neg (show ¬(Lexeme.mark mark).kind = .identifier from nofun),
      if_neg (show ¬(Lexeme.mark mark).kind = .mark .bang from fun isBang => by
        cases isBang
        exact notBang rfl)]
  · rfl

theorem value_ok {close}
    (val : Spells (.expression tree) ts (⟨.mark .semicolon, close⟩ :: rest)) (legal : Legal ts) :
    ∀ᶠ calls in atTop, expression calls ts = .ok (tree, ⟨.mark .semicolon, close⟩ :: rest) :=
  reads_of_spells val legal (ends_closer (.inr (.inr (.inr rfl)))).expression

theorem statementReads_of_derivation (derivation : Says passage ts rest) (legal : Legal ts) :
    StatementReads passage ts rest := by
  induction derivation with
  | ifThen decides branch ends reads =>
    have secondLegal := (decides.legal legal.tail.tail).tail
    have condition := (reads_of_spells decides legal.tail.tail).parenthesized decides legal.tail
    refine eventually_succ ?_
    filter_upwards [condition, reads secondLegal] with fewer readCondition readYes
    unfold statement
    simp only [current_cons, advance_ok legal.tail, ok_bind, readCondition, readYes]
    rw [if_neg fun isElse =>
      ends ((next_iff nofun).mpr (kind_eq_keyword.mp (ahead_zero.symm.trans isElse)))]
    rfl
  | ifElse decides branch other branchReads otherReads =>
    have secondLegal := (decides.legal legal.tail.tail).tail
    have thirdLegal := (branch.legal secondLegal).tail
    have condition := (reads_of_spells decides legal.tail.tail).parenthesized decides legal.tail
    refine eventually_succ ?_
    filter_upwards [condition, branchReads secondLegal, otherReads thirdLegal]
      with fewer readCondition readYes readNo
    unfold statement
    simp only [current_cons, advance_ok legal.tail, ok_bind, readCondition, readYes]
    rw [if_pos (show ahead 0 (⟨.keyword .elseWord, _⟩ :: _) = .keyword .elseWord from rfl)]
    simp only [advance_ok thirdLegal, ok_bind, readNo]
    rfl
  | whileLoop decides repeated reads =>
    have secondLegal := (decides.legal legal.tail.tail).tail
    have condition := (reads_of_spells decides legal.tail.tail).parenthesized decides legal.tail
    refine eventually_succ ?_
    filter_upwards [condition, reads secondLegal] with fewer readCondition readBody
    unfold statement
    simp only [current_cons, advance_ok legal.tail, ok_bind, readCondition, readBody]
    rfl
  | breakLoop | continueLoop | leave =>
    refine eventually_succ (.of_forall fun _ => ?_)
    unfold statement
    simp only [current_cons, advance_ok legal.tail, ok_bind, terminated_ok _ legal.tail.tail]
  | declaration given =>
    have valueLegal := legal.tail.tail.tail
    refine eventually_succ ?_
    filter_upwards [value_ok given valueLegal] with fewer readValue
    unfold statement
    simp only [current_cons]
    rw [if_pos (show ahead 1 (_ :: ⟨.identifier _, _⟩ :: _) = .identifier from rfl)]
    unfold declaration
    simp only [identifier_ok legal.tail, identifier_ok legal.tail.tail, expect_ok valueLegal,
      ok_bind, readValue, terminated_ok _ (given.legal valueLegal).tail]
  | persistent =>
    refine eventually_succ (.of_forall fun _ => ?_)
    unfold statement
    simp only [current_cons]
    rw [if_neg (show ¬ahead 1 (_ :: ⟨.mark .bang, _⟩ :: _) = .identifier from nofun),
      if_pos (show ahead 1 (_ :: ⟨.mark .bang, _⟩ :: _) = .mark .bang from rfl)]
    unfold persistentDeclaration
    simp only [identifier_ok legal.tail, expect_ok legal.tail.tail,
      identifier_ok legal.tail.tail.tail, ok_bind, terminated_ok _ legal.tail.tail.tail.tail]
  | assignment place isAssignable given =>
    have valueLegal := (place.legal legal).tail
    refine eventually_succ ?_
    filter_upwards [(reads_of_spells place legal).indexed (ends_statement (.inl rfl)),
      value_ok given valueLegal] with fewer readPlace readValue
    rw [statement_eq_simple place rfl (.inl rfl)]
    unfold simpleStatement
    simp only [readPlace, ok_bind, current_cons, isAssignable, if_true, advance_ok valueLegal,
      readValue, terminated_ok _ (given.legal valueLegal).tail]
  | call called | invocation called | lateInvocation called =>
    refine eventually_succ ?_
    filter_upwards [(reads_of_spells called legal).indexed (ends_statement (.inr rfl))]
      with fewer readCall
    rw [statement_eq_simple called rfl (.inr rfl)]
    unfold simpleStatement
    simp only [readCall, ok_bind, current_cons, terminated_ok _ (called.legal legal).tail]
  | braces inner reads =>
    refine eventually_succ ?_
    filter_upwards [reads legal.tail (.mark .rightBrace) rfl (.inr rfl)] with fewer readBody
    unfold block
    simp only [current_cons, if_true, advance_ok legal.tail, ok_bind, readBody,
      advance_ok (inner.legal legal.tail).tail]
    rfl
  | single statement reads =>
    refine eventually_succ ?_
    filter_upwards [reads legal] with fewer read
    unfold block
    rw [if_neg statement.opens.2.2, read]
    rfl
  | done =>
    intro stop stops _
    refine eventually_succ (.of_forall fun _ => ?_)
    unfold statements
    rw [if_pos stops]
    rfl
  | @further _ _ ts _ _ statement following reads followingReads =>
    intro stop stops isStop
    have opens := statement.opens
    have goesOn : ¬ahead 0 ts = stop := by
      rw [ahead_zero]
      rcases isStop with rfl | rfl
      · intro isEnd
        cases lex : (current ts).lexeme <;> rw [lex] at isEnd <;> cases isEnd
        exact opens.1 lex
      · exact fun isBrace => opens.2.1 (kind_eq_mark.mp isBrace)
    refine eventually_succ ?_
    filter_upwards [reads legal, followingReads (statement.legal legal) stop stops isStop]
      with fewer readFirst readOthers
    unfold statements
    rw [if_neg goesOn]
    simp only [readFirst, ok_bind, readOthers]
    rfl

end

end Parser

end HostScript.Tree
