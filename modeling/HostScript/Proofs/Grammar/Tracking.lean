import HostScript.Proofs.Grammar.Recognizer

namespace HostScript.Tree.Recognizer

/-!
# The recogniser and the parser

The parser goes along with the recogniser: when a reader has read its phrase the recogniser is
where the phrase ends, and when a reader gives up at a token so does the recogniser.
-/

open HostScript.Tree.Parser Grammar

/-- No illegal token stands in front. -/
def Arrived (tokens : List Token) : Prop :=
  ∀ fault, (current tokens).lexeme ≠ .illegal fault

def Blames (fault : ReadFault) (token : Token) : Prop :=
  fault.offset = token.offset ∧ (fault.stage = .lexical ↔ ∃ reason, token.lexeme = .illegal reason)

/-- Where a recogniser gets stuck is told by the tokens that a reader leaves, or by its fault; what
it reads is as it should be. -/
def Follows (bound : Nat) (good : α → List Token → Prop) (stuck : Option Token)
    (onward : α → List Token → Option Token) : Except ReadFault (α × List Token) → Prop
  | .ok (value, rest) =>
    good value rest ∧ rest.length < bound ∧ Arrived rest ∧ stuck = onward value rest
  | .error fault => ∃ token, stuck = some token ∧ Blames fault token

variable {stack : List Frame} {closer : Closer} {level : Nat}

section

variable {stuck : Option Token} {bound : Nat}

variable {good : α → List Token → Prop} {fine : β → List Token → Prop}

theorem Follows.bind {mid onward next} (first : Follows bound good stuck mid res)
    (second : ∀ val rest, good val rest → rest.length < bound → Arrived rest →
      Follows limit fine (mid val rest) onward (next (val, rest))) :
    Follows limit fine stuck onward (res >>= next) := by
  cases res with
  | error _ => exact first
  | ok res =>
    obtain ⟨val, rest⟩ := res
    obtain ⟨isGood, shorter, arrived, rfl⟩ := first
    exact second val rest isGood shorter arrived

variable {onward : α → List Token → Option Token}

theorem Follows.imp {better} (follows : Follows bound good stuck onward res)
    (implies : ∀ val rest, good val rest → better val rest) :
    Follows bound better stuck onward res := by
  cases res with
  | error _ => exact follows
  | ok _ => exact ⟨implies _ _ follows.1, follows.2⟩

theorem Follows.mono (follows : Follows bound good stuck onward res) (wider : bound ≤ limit) :
    Follows limit good stuck onward res := by
  cases res with
  | error _ => exact follows
  | ok _ => exact ⟨follows.1, Nat.lt_of_lt_of_le follows.2.1 wider, follows.2.2⟩

theorem Follows.pure (isGood : good val ts) (shorter : ts.length < bound) (arrived : Arrived ts)
    (same : stuck = onward val ts) : Follows bound good stuck onward (.ok (val, ts)) :=
  ⟨isGood, shorter, arrived, same⟩

theorem scan_illegal (illegal : (current ts).lexeme = .illegal reason) :
    scan state ts = some (current ts) := by
  cases ts with
  | nil => cases illegal
  | cons _ ts =>
    rw [current] at illegal ⊢
    unfold scan
    rw [step_of_stops (by rw [illegal]; rfl), illegal]
    simp

theorem scan_eq_resume (goesOn : state.isDone = false ∨ (current ts).lexeme ≠ .endOfInput) :
    scan state ts = resume (step state.stack state.role) ts := by
  cases ts with
  | nil =>
    have notDone : state.isDone = false := goesOn.resolve_right fun notEnd => notEnd rfl
    unfold scan resume
    rw [notDone, current, step_of_stops rfl]
    rfl
  | cons token ts =>
    unfold scan resume
    rw [current]
    cases step state.stack state.role token.lexeme with
    | some _ => rfl
    | none =>
      refine if_neg fun ended => ?_
      rcases goesOn with notDone | notEnd
      · rw [notDone] at ended
        cases ended.2
      · exact notEnd ended.1

theorem resume_congr (same : first (current ts).lexeme = second (current ts).lexeme) :
    resume first ts = resume second ts := by
  unfold resume
  rw [same]

theorem resume_some {onward next} (leads : onward (current ts).lexeme = some next) :
    resume onward ts = scan next (ts.drop 1) := by
  unfold resume
  rw [leads]

theorem resume_none {onward} (fails : onward (current ts).lexeme = none) :
    resume onward ts = some (current ts) := by
  unfold resume
  rw [fails]

theorem blames_current {fault} (arrived : Arrived ts)
    (off : fault.offset = (current ts).offset) (stage : fault.stage = .syntactic) :
    Blames fault (current ts) := by
  refine ⟨off, ?_⟩
  rw [stage]
  exact iff_of_false nofun fun ⟨reason, illegal⟩ => arrived reason illegal

theorem length_drop_lt (front : (current ts).lexeme = lex) (notEnd : lex ≠ .endOfInput) :
    (ts.drop 1).length < ts.length := by
  cases ts with
  | nil => exact absurd front.symm notEnd
  | cons _ ts => exact Nat.lt_succ_self _

/-- While something is open, the recogniser goes on with the next token. -/
theorem Follows.onto (follows : Follows bound good stuck (fun _ rest => scan state rest) res)
    (isOpen : state.isDone = false) :
    Follows bound good stuck (fun _ rest => resume (step state.stack state.role) rest) res := by
  cases res with
  | error _ => exact follows
  | ok res =>
    obtain ⟨isGood, shorter, arrived, same⟩ := follows
    exact ⟨isGood, shorter, arrived, same.trans (scan_eq_resume (.inl isOpen))⟩

theorem arrive_follows (isGood : good val ts) (shorter : ts.length < bound)
    (same : scan state ts = onward val ts) :
    Follows bound good (scan state ts) onward (arrive val ts) := by
  unfold arrive
  split
  · next reason _ front =>
    have illegal : (current ts).lexeme = .illegal reason := by rw [front]
    refine ⟨current ts, scan_illegal illegal, ?_, ?_⟩
    · rw [front]
      rfl
    · exact iff_of_true rfl ⟨reason, illegal⟩
  · next legal =>
    refine ⟨isGood, shorter, fun reason illegal => legal reason (current ts).offset ?_, same⟩
    rw [← illegal]

theorem refuse_follows (arrived : Arrived ts) (fails : next (current ts).lexeme = none) :
    Follows bound good (resume next ts) onward (refuse ts) :=
  ⟨current ts, resume_none fails, blames_current arrived rfl rfl⟩

theorem advance_follows (state : State) (leads : next (current ts).lexeme = some state)
    (notEnd : (current ts).lexeme ≠ .endOfInput) :
    Follows ts.length (fun _ rest => ts = current ts :: rest) (resume next ts)
      (fun _ rest => scan state rest) (advance ts) := by
  rw [resume_some leads]
  exact arrive_follows (eq_cons_of_current rfl notEnd) (length_drop_lt rfl notEnd) rfl

theorem take_follows (state : State) (front : (current ts).lexeme = lex)
    (leads : next lex = some state := by rfl) (notEnd : lex ≠ .endOfInput := by nofun) :
    Follows ts.length (fun _ rest => ts = ⟨lex, (current ts).offset⟩ :: rest) (resume next ts)
      (fun _ rest => scan state rest) (advance ts) := by
  subst front
  exact advance_follows state leads notEnd

theorem expect_follows {sym role} (arrived : Arrived ts) :
    Follows ts.length (fun off rest => ts = ⟨.mark sym, off⟩ :: rest)
      (resume (expects sym role stack) ts) (fun _ rest => scan ⟨stack, role⟩ rest)
      (expect (.mark sym) ts) := by
  unfold expect
  dsimp only
  split
  · next isSymbol =>
    have front := kind_eq_mark.mp isSymbol
    rw [resume_some (show expects sym role stack (current ts).lexeme = some ⟨stack, role⟩
      by rw [expects, if_pos front])]
    exact arrive_follows (eq_cons_of_current front Lexeme.noConfusion)
      (length_drop_lt front Lexeme.noConfusion) rfl
  · next notSymbol =>
    have front : (current ts).lexeme ≠ .mark sym := fun same => notSymbol (kind_eq_mark.mpr same)
    exact ⟨current ts, resume_none (by rw [expects, if_neg front]), blames_current arrived rfl rfl⟩

theorem identifier_follows (arrived : Arrived ts) :
    Follows ts.length (fun name rest => ts = ⟨.identifier name.name, name.offset⟩ :: rest)
      (resume (expectsName stack) ts) (fun _ rest => scan ⟨stack, .other⟩ rest)
      (identifier ts) := by
  unfold identifier
  split
  · next name _ front =>
    have isName : (current ts).lexeme = .identifier name := by rw [front]
    rw [resume_some (show expectsName stack (current ts).lexeme = some ⟨stack, .other⟩ by
      rw [isName]; rfl)]
    refine arrive_follows ?_ (length_drop_lt isName nofun) rfl
    have shape := eq_cons_of_current isName nofun
    rwa [front] at shape
  · next other =>
    have notName : ¬(current ts).lexeme.kind = .identifier := by
      intro isName
      obtain ⟨name, front⟩ := kind_eq_identifier.mp isName
      exact other name (current ts).offset (by rw [← front])
    exact ⟨current ts, resume_none (by rw [expectsName, if_neg notName]),
      blames_current arrived rfl rfl⟩

theorem terminated_follows {good role} (arrived : Arrived ts) (within : ts.length ≤ bound)
    (isGood : ∀ close rest, ts = ⟨.mark .semicolon, close⟩ :: rest → good stmt rest) :
    Follows bound good (resume (expects .semicolon role stack) ts)
      (fun _ rest => scan ⟨stack, role⟩ rest) (terminated stmt ts) := by
  unfold terminated
  exact (expect_follows arrived).bind fun close rest shape shorter arrivedRest =>
    .pure (isGood close rest shape) (Nat.lt_of_lt_of_le shorter within) arrivedRest rfl

end

/-! Small facts about the steps of the recogniser. -/

theorem ahead_one (ts : List Token) : ahead 1 ts = (current (ts.drop 1)).lexeme.kind := by
  rcases ts with _ | ⟨_, _ | _⟩ <;> rfl

theorem ahead_two (ts : List Token) : ahead 2 ts = ahead 1 (ts.drop 1) := by
  cases ts <;> rfl

theorem masked_of_other (plain : Bool) (other : role tree = .other) :
    masked plain (role tree) = .other := by
  rw [other]
  cases plain <;> rfl

theorem resume_close (closer : Closer) {role} (single : closer.isList = false) :
    resume (close closer role stack) ts = resume (finish closer role stack) ts := by
  refine resume_congr (if_neg fun both => ?_)
  rw [single] at both
  cases both.1

theorem isOperator_succ (level : Nat) (lex : Lexeme) :
    isOperator (level + 1) lex = (isOperator level lex || (operatorAt? level lex).isSome) := by
  simp [isOperator, List.range_succ]

theorem settle_succ {role} (none : operatorAt? level lex = none) :
    settle (level + 1) closer role stack lex = settle level closer role stack lex := by
  unfold settle
  rw [isOperator_succ, none, Option.isSome_none, Bool.or_false]

theorem settle_operator {role op} (found : operatorAt? level lex = some op) :
    settle (level + 1) closer role stack lex = some ⟨.operand false closer :: stack, .other⟩ := by
  unfold settle
  rw [isOperator_succ, found, Option.isSome_some, Bool.or_true, if_pos rfl]

theorem resume_followName {role} (isOpen : (current ts).lexeme = .mark .leftParen) :
    resume (step (.named ctx :: stack) role) ts =
      resume (expects .leftParen .other (.arguments :: .after true ctx :: stack)) ts := by
  apply resume_congr
  rw [isOpen]
  rfl

theorem resume_follow {role} (notOpen : (current ts).lexeme ≠ .mark .leftParen) :
    resume (step (.named ctx :: stack) role) ts = resume (follow true ctx .place stack) ts :=
  resume_congr (if_neg notOpen)

theorem resume_opened (front : (current ts).lexeme = .mark .leftParen)
    (notCast : ¬(ahead 1 ts = .identifier ∧ ahead 2 ts = .mark .rightParen)) :
    resume (beginOperand plain closer stack) ts =
      resume (begin (.inside plain closer) stack) ts := by
  rw [resume_some (show beginOperand plain closer stack (current ts).lexeme =
      some ⟨.opened plain closer :: stack, .other⟩ by rw [front]; rfl),
    resume_some (show begin (.inside plain closer) stack (current ts).lexeme =
      some ⟨.operand true .parenthesis :: .after true (.inside plain closer) :: stack, .other⟩ by
        rw [front]; rfl),
    scan_eq_resume (.inl rfl), scan_eq_resume (.inl rfl)]
  rw [ahead_two, ahead_one, ahead_one] at notCast
  by_cases isName : (current (ts.drop 1)).lexeme.kind = .identifier
  · obtain ⟨_, same⟩ := kind_eq_identifier.mp isName
    have notClosed : (current ((ts.drop 1).drop 1)).lexeme ≠ .mark .rightParen :=
      fun closed => notCast ⟨isName, kind_eq_mark.mpr closed⟩
    rw [resume_some (show step (.opened plain closer :: stack) .other _ =
        some ⟨.openedName plain closer :: stack, .other⟩ from if_pos isName),
      resume_some (show step (.operand true .parenthesis :: _ :: stack) .other _ =
        some ⟨.named (.inside true .parenthesis) :: .after true (.inside plain closer) :: stack,
          .other⟩ by rw [same]; rfl),
      scan_eq_resume (.inl rfl), scan_eq_resume (.inl rfl)]
    exact resume_congr (if_neg notClosed)
  · exact resume_congr (if_neg isName)

theorem begin_literal (found : literal? lex = some val) :
    begin ctx stack lex = some ⟨.after true ctx :: stack, .other⟩ := by
  cases lex with
  | integer | float | string => rfl
  | keyword word => cases word <;> first | rfl | cases found
  | _ => cases found

theorem begin_refused (notName : ∀ name, lex ≠ .identifier name)
    (notOpen : lex ≠ .mark .leftParen) (missing : literal? lex = none) :
    begin ctx stack lex = none := by
  unfold begin
  split
  · next name => exact absurd rfl (notName name)
  · exact absurd rfl notOpen
  · rw [missing]
    rfl

/-! What each reader of phrases does when it has enough calls. -/

def ExpressionTracks (calls : Nat) : Prop :=
  ∀ {plain closer stack tokens}, Arrived tokens → 16 * tokens.length + 14 ≤ calls →
    Follows tokens.length (fun tree => Spells (.expression tree) tokens)
      (resume (beginOperand plain closer stack) tokens)
      (fun tree rest => resume (close closer (masked plain (role tree)) stack) rest)
      (Parser.expression calls tokens)

def BinaryTracks (calls : Nat) : Prop :=
  ∀ {level plain closer stack tokens}, level ≤ levels.length → Arrived tokens →
    16 * tokens.length + 13 ≤ calls + level →
    Follows tokens.length (fun tree => Spells (.chain level tree) tokens)
      (resume (beginOperand plain closer stack) tokens)
      (fun tree rest => resume (settle level closer (masked plain (role tree)) stack) rest)
      (Parser.binary calls level tokens)

def BinaryRestTracks (calls : Nat) : Prop :=
  ∀ {level left plain closer stack tokens whole}, Spells (.chain level left) whole tokens →
    level < levels.length → Arrived tokens → 16 * tokens.length + 1 ≤ calls →
    Follows (tokens.length + 1) (fun tree => Spells (.chain level tree) whole)
      (resume (settle (level + 1) closer (masked plain (role left)) stack) tokens)
      (fun tree rest => resume (settle level closer (masked plain (role tree)) stack) rest)
      (Parser.binaryRest calls level left tokens)

def UnaryTracks (calls : Nat) : Prop :=
  ∀ {plain closer stack tokens}, Arrived tokens → 16 * tokens.length + 4 ≤ calls →
    Follows tokens.length (fun tree => Spells (.operand tree) tokens)
      (resume (beginOperand plain closer stack) tokens)
      (fun tree rest => resume (settle levels.length closer (masked plain (role tree)) stack) rest)
      (Parser.unary calls tokens)

def PostfixChainTracks (calls : Nat) : Prop :=
  ∀ {context stack tokens}, Arrived tokens → 16 * tokens.length + 3 ≤ calls →
    Follows tokens.length (fun tree => Spells (.indexed tree) tokens)
      (resume (begin context stack) tokens)
      (fun tree rest => resume (conclude context (role tree) stack) rest)
      (Parser.postfixChain calls tokens)

def MembersTracks (calls : Nat) : Prop :=
  ∀ {target context stack tokens whole}, Spells (.member target) whole tokens →
    Arrived tokens → 16 * tokens.length + 1 ≤ calls →
    Follows (tokens.length + 1) (fun tree => Spells (.member tree) whole)
      (resume (follow true context (role target) stack) tokens)
      (fun tree rest => resume (follow false context (role tree) stack) rest)
      (Parser.members calls target tokens)

def IndexListsTracks (calls : Nat) : Prop :=
  ∀ {target context stack tokens whole}, Spells (.indexed target) whole tokens →
    Arrived tokens → 16 * tokens.length + 1 ≤ calls →
    Follows (tokens.length + 1) (fun tree => Spells (.indexed tree) whole)
      (resume (follow false context (role target) stack) tokens)
      (fun tree rest => resume (conclude context (role tree) stack) rest)
      (Parser.indexLists calls target tokens)

def ArgumentsTracks (calls : Nat) : Prop :=
  ∀ {stack tokens}, Arrived tokens → 16 * tokens.length + 1 ≤ calls →
    Follows tokens.length (fun trees => Spells (.arguments trees) tokens)
      (resume (expects .leftParen .other (.arguments :: stack)) tokens)
      (fun _ rest => scan ⟨stack, .call⟩ rest) (Parser.arguments calls tokens)

def ExpressionsTracks (calls : Nat) : Prop :=
  ∀ {closer stack tokens}, closer.isList = true → Arrived tokens → 16 * tokens.length + 15 ≤ calls →
    Follows tokens.length (fun trees => Spells (.listed trees) tokens)
      (resume (beginOperand false closer stack) tokens)
      (fun _ rest => resume (finish closer .other stack) rest) (Parser.expressions calls tokens)

def PrimaryTracks (calls : Nat) : Prop :=
  ∀ {context stack tokens}, Arrived tokens → 16 * tokens.length + 2 ≤ calls →
    Follows tokens.length (fun tree => Spells (.primary tree) tokens)
      (resume (begin context stack) tokens)
      (fun tree rest => scan ⟨.after true context :: stack, role tree⟩ rest)
      (Parser.primary calls tokens)

def ParenthesizedTracks (calls : Nat) : Prop :=
  ∀ {plain stack tokens}, Arrived tokens → 16 * tokens.length + 1 ≤ calls → Follows tokens.length
      (fun tree rest => ∃ start close inner, tokens = ⟨.mark .leftParen, start⟩ :: inner ∧
        Spells (.expression tree) inner (⟨.mark .rightParen, close⟩ :: rest))
      (resume (expects .leftParen .other (.operand plain .parenthesis :: stack)) tokens)
      (fun tree rest => scan ⟨stack, masked plain (role tree)⟩ rest)
      (Parser.parenthesized calls tokens)

structure Tracks (calls : Nat) : Prop where
  expression : ExpressionTracks calls
  binary : BinaryTracks calls
  binaryRest : BinaryRestTracks calls
  unary : UnaryTracks calls
  postfixChain : PostfixChainTracks calls
  members : MembersTracks calls
  indexLists : IndexListsTracks calls
  arguments : ArgumentsTracks calls
  expressions : ExpressionsTracks calls
  primary : PrimaryTracks calls
  parenthesized : ParenthesizedTracks calls

namespace Tracks

section

variable {calls : Nat} (tracks : Tracks calls)

include tracks

theorem expression_succ : ExpressionTracks (calls + 1) := by
  intro plain closer stack _ arrived _
  unfold Parser.expression
  refine (tracks.binary (Nat.zero_le _) arrived (by omega)).bind
    fun _ _ chain shorter atSecond => ?_
  dsimp only
  split
  · next isQuestion =>
    refine ((take_follows ⟨.operand false .branch :: .operand false closer :: stack, .other⟩
      isQuestion).onto rfl).bind fun _ _ question _ atThird => ?_
    rw [question] at chain
    refine (tracks.expression atThird (by omega)).bind fun _ _ yes _ atFourth => ?_
    rw [resume_close .branch rfl]
    refine ((expect_follows atFourth).onto rfl).bind fun _ _ colon _ atFifth => ?_
    rw [colon] at yes
    refine (tracks.expression atFifth (by omega)).bind fun _ _ no _ atLast => ?_
    dsimp only
    exact .pure (.conditional chain yes no) (by omega) atLast
      (by rw [masked_of_other plain rfl]; rfl)
  · next notQuestion =>
    refine .pure (.plain chain) shorter atSecond (resume_congr ?_)
    unfold settle
    rw [if_neg notQuestion]
    rfl

theorem binary_succ : BinaryTracks (calls + 1) := by
  intro level _ _ _ _ inside arrived _
  unfold Parser.binary
  split
  · next further =>
    refine (tracks.binary further arrived (by omega)).bind fun _ _ chain shorter atSecond => ?_
    have bounded : level ≤ 8 := inside
    exact (tracks.binaryRest (.tighter further chain) further atSecond (by omega)).mono shorter
  · next _ =>
    obtain rfl : level = levels.length := by omega
    have eight : levels.length = 8 := rfl
    exact (tracks.unary arrived (by omega)).imp fun _ _ => .tightest

theorem binaryRest_succ : BinaryRestTracks (calls + 1) := by
  intro _ left plain closer stack ts _ chain inside arrived _
  unfold Parser.binaryRest
  dsimp only
  split
  · next none =>
    exact .pure chain (Nat.lt_succ_self _) arrived (resume_congr (settle_succ none))
  · next op found =>
    obtain ⟨_, isMark, binds⟩ := operatorAt?_eq_some.mp found
    refine ((take_follows ⟨.operand false closer :: stack, .other⟩ isMark
      (by rw [← isMark]; exact settle_operator found)).onto rfl).bind fun _ _ sign _ atSecond => ?_
    rw [sign] at chain
    refine (tracks.binary inside atSecond (by omega)).bind fun right _ last _ atThird => ?_
    rw [show masked false (role right) = masked plain
      (role (.operator (current ts).offset op left right)) from (masked_of_other plain rfl).symm]
    exact (tracks.binaryRest (.operator chain binds last) inside atThird (by omega)).mono (by omega)

theorem unary_succ : UnaryTracks (calls + 1) := by
  intro plain closer stack ts arrived _
  unfold Parser.unary
  dsimp only
  split
  case h_1 front | h_2 front =>
    refine ((take_follows ⟨.operand false closer :: stack, .other⟩ front).onto rfl).bind
      fun _ _ sign _ atSecond => ?_
    refine (tracks.unary atSecond (by omega)).bind fun _ _ operand _ atLast => ?_
    dsimp only
    refine .pure ?_ (by omega) atLast (by rw [masked_of_other plain rfl]; rfl)
    rw [sign]
    constructor
    exact operand
  · next isOpen =>
    split
    · next isCast =>
      refine (take_follows ⟨.opened plain closer :: stack, .other⟩ isOpen).bind
        fun _ second opened _ atSecond => ?_
      obtain ⟨_, place, _, name, inner⟩ := (nameInParens_iff isOpen).mpr isCast
      obtain rfl := (List.cons.inj opened).2
      have expects : ∀ rest,
          resume (step (.opened plain closer :: stack) .other) (⟨.identifier name, place⟩ :: rest) =
            resume (expectsName (.openedName plain closer :: stack)) (⟨.identifier name, place⟩ ::
              rest) := fun _ => rfl
      rw [scan_eq_resume (.inl rfl), expects]
      refine (identifier_follows atSecond).bind fun read _ named _ _ => ?_
      obtain ⟨_, _⟩ := read
      cases named
      rw [scan_eq_resume (.inl rfl)]
      refine ((take_follows ⟨.cast plain closer :: stack, .other⟩ rfl).onto rfl).bind
        fun _ fourth closed _ atFourth => ?_
      obtain rfl := (List.cons.inj closed).2
      dsimp only
      split
      · next starts =>
        rw [ahead_zero] at starts
        rw [show resume (step (.cast plain closer :: stack) .other) inner =
          resume (beginOperand false closer stack) inner from resume_congr (if_pos starts)]
        refine (tracks.unary atFourth (by omega)).bind fun _ _ operand _ atLast => ?_
        exact .pure (.cast operand) (by simp only [List.length_cons]; omega) atLast
          (by rw [masked_of_other plain rfl]; rfl)
      · next ends =>
        rw [ahead_zero] at ends
        refine .pure (.bare fun opens => ends (startsUnary_kind.mpr ?_))
          (by simp only [List.length_cons]; omega) atFourth (resume_congr (if_neg ends))
        exact (next_iff nofun).mp opens
    · next notCast =>
      rw [resume_opened isOpen notCast]
      exact (tracks.postfixChain arrived (by omega)).imp
        fun _ _ => .access (mt (nameInParens_iff isOpen).mp notCast)
  · next notMinus notBang notOpen =>
    have same : beginOperand plain closer stack (current ts).lexeme =
        begin (.inside plain closer) stack (current ts).lexeme := by
      unfold beginOperand
      split
      · next front => exact absurd front notMinus
      · next front => exact absurd front notBang
      · next front => exact absurd front notOpen
      · rfl
    rw [resume_congr same]
    refine (tracks.postfixChain arrived (by omega)).imp fun _ _ => .access ?_
    rintro ⟨⟩
    exact notOpen rfl

theorem postfixChain_succ : PostfixChainTracks (calls + 1) := by
  intro _ _ _ arrived _
  unfold Parser.postfixChain
  refine (tracks.primary arrived (by omega)).bind fun _ _ primary _ atSecond => ?_
  rw [scan_eq_resume (.inl rfl)]
  refine (tracks.members (.memberless primary) atSecond (by omega)).bind
    fun _ _ member _ atThird => ?_
  exact (tracks.indexLists (.unindexed member) atThird (by omega)).mono (by omega)

theorem members_succ : MembersTracks (calls + 1) := by
  intro tgt ctx stack ts _ member arrived _
  unfold Parser.members
  dsimp only
  split
  · next isAccess =>
    have leads : follow true ctx (role tgt) stack (current ts).lexeme =
        some ⟨.name ctx :: stack, .other⟩ := if_pos ⟨rfl, isAccess⟩
    have notEnd : (current ts).lexeme ≠ .endOfInput := by
      rcases isAccess with front | front <;> rw [front] <;> exact nofun
    refine ((advance_follows _ leads notEnd).onto rfl).bind fun _ _ sign _ atSecond => ?_
    refine ((identifier_follows atSecond).onto rfl).bind fun _ third named _ atThird => ?_
    rw [sign, named] at member
    generalize current ts = accessed at isAccess member ⊢
    obtain ⟨_, _⟩ := accessed
    dsimp only at isAccess ⊢
    split
    · next isOpen =>
      rw [resume_followName (ahead_eq_mark.mp isOpen)]
      refine (tracks.arguments atThird (by omega)).bind fun _ fourth given _ atFourth => ?_
      dsimp only
      rw [scan_eq_resume (.inl rfl)]
      refine .mono ?_ (show fourth.length + 1 ≤ _ by omega)
      rcases isAccess with rfl | rfl
      · exact tracks.members (.invocation member given) atFourth (by omega)
      · exact tracks.members (.lateInvocation member given) atFourth (by omega)
    · next notOpen =>
      rw [resume_follow fun isOpen => notOpen (ahead_eq_mark.mpr isOpen)]
      refine .mono ?_ (show third.length + 1 ≤ _ by omega)
      rcases isAccess with rfl | rfl
      · exact tracks.members (.property member) atThird (by omega)
      · exact tracks.members (.lateProperty member) atThird (by omega)
  · next notAccess =>
    refine .pure member (Nat.lt_succ_self _) arrived (resume_congr ?_)
    simp only [follow, notAccess, and_false]

theorem indexLists_succ : IndexListsTracks (calls + 1) := by
  intro _ ctx stack _ _ indexed arrived _
  unfold Parser.indexLists
  dsimp only
  split
  · next isBracket =>
    refine ((take_follows ⟨.operand false .subscript :: .after false ctx :: stack, .other⟩
      isBracket).onto rfl).bind fun _ _ opened _ atSecond => ?_
    rw [opened] at indexed
    refine (tracks.expressions rfl atSecond (by omega)).bind fun _ _ listed _ atThird => ?_
    refine ((expect_follows atThird).onto rfl).bind fun _ _ closed _ atFourth => ?_
    rw [closed] at listed
    dsimp only
    exact .mono (tracks.indexLists (.index indexed listed) atFourth (by omega)) (by omega)
  · next notBracket =>
    refine .pure indexed (Nat.lt_succ_self _) arrived (resume_congr ?_)
    unfold follow
    rw [if_neg (fun both => nomatch both.1), if_neg notBracket]

theorem arguments_succ : ArgumentsTracks (calls + 1) := by
  intro stack _ arrived _
  unfold Parser.arguments
  refine ((expect_follows arrived).onto rfl).bind fun _ second opened _ atSecond => ?_
  rw [opened]
  dsimp only
  split
  · next isEmpty =>
    refine (take_follows ⟨stack, .call⟩ (ahead_eq_mark.mp isEmpty)).bind
      fun _ _ closed _ atThird => ?_
    rw [closed]
    exact .pure .noArguments (by dsimp only [List.length]; omega) atThird rfl
  · next notEmpty =>
    have front : (current second).lexeme ≠ .mark .rightParen :=
      fun same => notEmpty (ahead_eq_mark.mpr same)
    rw [show resume (step (.arguments :: stack) .other) second =
      resume (beginOperand false .argument stack) second from resume_congr (if_neg front)]
    refine (tracks.expressions rfl atSecond (by omega)).bind fun _ _ listed _ atThird => ?_
    refine (expect_follows atThird).bind fun _ _ closed _ atFourth => ?_
    rw [closed] at listed
    exact .pure (.someArguments listed) (by dsimp only [List.length]; omega) atFourth rfl

theorem expressions_succ : ExpressionsTracks (calls + 1) := by
  intro closer stack _ isList arrived _
  unfold Parser.expressions
  refine (tracks.expression arrived (by omega)).bind fun _ _ spelled shorter atSecond => ?_
  dsimp only
  split
  · next isComma =>
    have front := ahead_eq_mark.mp isComma
    refine ((take_follows ⟨.operand false closer :: stack, .other⟩ front
      (if_pos ⟨isList, rfl⟩)).onto rfl).bind fun _ _ comma _ atThird => ?_
    rw [comma] at spelled
    refine (tracks.expressions isList atThird (by omega)).bind fun _ _ following _ atLast => ?_
    exact .pure (.more spelled following) (by dsimp only; omega) atLast rfl
  · next notComma =>
    refine .pure (.one spelled) shorter atSecond (resume_congr (if_neg fun both => ?_))
    exact notComma (ahead_eq_mark.mpr both.2)

theorem primary_succ : PrimaryTracks (calls + 1) := by
  intro ctx stack ts arrived _
  unfold Parser.primary
  dsimp only
  split
  · next _ isName =>
    have leads : begin ctx stack (current ts).lexeme = some ⟨.named ctx :: stack, .other⟩ := by
      rw [isName]
      rfl
    have isNamed : (current ts).lexeme.kind = .identifier := by
      rw [isName]
      rfl
    split
    · next isOpen =>
      rw [show resume (begin ctx stack) ts =
        resume (expectsName (.named ctx :: stack)) ts from
          resume_congr (leads.trans (if_pos isNamed).symm)]
      refine (identifier_follows arrived).bind fun _ second named _ atSecond => ?_
      rw [named, ahead_one] at isOpen
      have front : (current second).lexeme = .mark .leftParen := kind_eq_mark.mp isOpen
      rw [scan_eq_resume (.inl rfl), resume_followName front]
      refine (tracks.arguments atSecond (by omega)).bind fun _ _ given _ atLast => ?_
      dsimp only
      refine .pure ?_ (by omega) atLast rfl
      have shape := eq_cons_of_current front nofun
      rw [shape] at given
      rw [named, shape]
      exact .call given
    · next notOpen =>
      rw [ahead_one] at notOpen
      rw [resume_some leads]
      refine arrive_follows ?_ (length_drop_lt isName nofun) ?_
      · rw [eq_cons_of_current isName nofun]
        exact .name
      · rw [scan_eq_resume (.inl rfl), scan_eq_resume (.inl rfl)]
        exact resume_follow fun isOpen => notOpen (kind_eq_mark.mpr isOpen)
  · next isOpen =>
    rw [show resume (begin ctx stack) ts =
      resume (expects .leftParen .other
        (.operand true .parenthesis :: .after true ctx :: stack)) ts from
        resume_congr (by rw [isOpen]; rfl)]
    refine (tracks.parenthesized arrived (by omega)).imp ?_
    rintro _ _ ⟨_, _, _, rfl, spelled⟩
    exact .parenthesized spelled
  · next _ notName notOpen =>
    split
    · next _ found =>
      have denotes := literal?_eq_some.mp found
      have notEnd : (current ts).lexeme ≠ .endOfInput := by
        intro isEnd
        rw [isEnd] at found
        cases found
      rw [resume_some (begin_literal found)]
      refine arrive_follows ?_ (length_drop_lt rfl notEnd) rfl
      rw [eq_cons_of_current rfl notEnd]
      exact .literal denotes
    · next missing =>
      exact refuse_follows arrived (begin_refused notName notOpen missing)

theorem parenthesized_succ : ParenthesizedTracks (calls + 1) := by
  intro _ _ _ arrived _
  unfold Parser.parenthesized
  refine ((expect_follows arrived).onto rfl).bind fun start second opened _ atSecond => ?_
  refine (tracks.expression atSecond (by omega)).bind fun _ _ spelled _ atThird => ?_
  dsimp only
  rw [resume_close .parenthesis rfl]
  refine (expect_follows atThird).bind fun close _ closed _ atFourth => ?_
  rw [closed] at spelled
  exact .pure ⟨start, close, second, opened, spelled⟩ (by dsimp only; omega) atFourth rfl

end

end Tracks

theorem tracks (calls : Nat) : Tracks calls := by
  induction calls with
  | zero =>
    have eight : levels.length = 8 := rfl
    constructor <;> intro _ <;> intros <;> omega
  | succ calls ih =>
    exact
      { expression := ih.expression_succ
        binary := ih.binary_succ
        binaryRest := ih.binaryRest_succ
        unary := ih.unary_succ
        postfixChain := ih.postfixChain_succ
        members := ih.members_succ
        indexLists := ih.indexLists_succ
        arguments := ih.arguments_succ
        expressions := ih.expressions_succ
        primary := ih.primary_succ
        parenthesized := ih.parenthesized_succ }

/-! ## Statements -/

theorem isAssignable_iff (tree : Expr) : tree.isAssignable ↔ role tree = .place := by
  cases tree <;> simp [Expr.isAssignable, role]

section

variable {calls : Nat} (arrived : Arrived ts)

include arrived

theorem value_follows {build : Expr → Statement} {good : Statement → List Token → Prop}
    (enough : 16 * ts.length + 14 ≤ calls) (within : ts.length ≤ bound)
    (isGood : ∀ val close rest, Spells (.expression val) ts (⟨.mark .semicolon, close⟩ :: rest) →
      good (build val) rest) :
    Follows bound good (scan ⟨.operand false .value :: stack, .other⟩ ts)
      (fun _ rest => scan ⟨stack, .other⟩ rest)
      (do
        let (val, ts) ← expression calls ts
        terminated (build val) ts) := by
  rw [scan_eq_resume (.inl rfl)]
  refine ((tracks calls).expression arrived enough).bind fun val _ spelled _ atSecond => ?_
  rw [resume_close .value rfl]
  exact terminated_follows atSecond (by omega) fun close rest shape =>
    isGood val close rest (shape ▸ spelled)

theorem simpleStatement_follows (enough : 16 * ts.length + 3 ≤ calls) :
    Follows ts.length (fun tree => Says (.statement tree) ts) (resume (begin .statement stack) ts)
      (fun _ rest => scan ⟨stack, .other⟩ rest) (simpleStatement calls ts) := by
  unfold simpleStatement
  refine ((tracks calls).postfixChain arrived enough).bind fun tgt second place _ atSecond => ?_
  dsimp only
  split
  · next isAssign =>
    split
    · next isAssignable =>
      refine (take_follows ⟨.operand false .value :: stack, .other⟩ isAssign
        (if_pos ⟨rfl, (isAssignable_iff tgt).mp isAssignable⟩)).bind fun _ _ sign _ atThird => ?_
      rw [sign] at place
      exact value_follows atThird (by omega) (by omega) fun _ _ _ => .assignment place isAssignable
    · next notAssignable =>
      refine ⟨current second, resume_none ?_, blames_current atSecond rfl rfl⟩
      have notPlace : role tgt ≠ .place :=
        fun isPlace => notAssignable ((isAssignable_iff tgt).mpr isPlace)
      simp [conclude, isAssign, notPlace]
  · next isEnd =>
    have called : role tgt = .call → resume (conclude .statement (role tgt) stack) second =
          resume (expects .semicolon .other stack) second := by
      intro isCall
      apply resume_congr
      simp [conclude, expects, isEnd, isCall]
    split
    case h_1 | h_2 | h_3 =>
      rw [called rfl]
      refine terminated_follows atSecond (by omega) fun _ _ shape => ?_
      rw [shape] at place
      constructor
      exact place
    · next notCall notInvocation notLate =>
      have notCalled : role tgt ≠ .call := by
        intro isCall
        cases tgt with
        | call off name given => exact notCall off name given rfl
        | invocation off tgt name given =>
          exact notInvocation off tgt name given rfl
        | lateInvocation off tgt name given => exact notLate off tgt name given rfl
        | _ => cases isCall
      refine refuse_follows atSecond ?_
      simp [conclude, isEnd, notCalled]
  · next notAssign notEnd =>
    refine refuse_follows atSecond ?_
    exact (if_neg fun both => notAssign both.1).trans (if_neg fun both => notEnd both.1)

theorem declaration_follows (isNamed : ahead 1 ts = .identifier)
    (enough : 16 * ts.length + 3 ≤ calls) :
    Follows ts.length (fun tree => Says (.statement tree) ts)
      (resume (expectsName (.first :: stack)) ts)
      (fun _ rest => scan ⟨stack, .other⟩ rest) (declaration calls ts) := by
  unfold declaration
  refine (identifier_follows arrived).bind fun _ second typed _ atSecond => ?_
  rw [typed, ahead_one] at isNamed
  rw [scan_eq_resume (.inl rfl), show resume (step (.first :: stack) .other) second =
    resume (expectsName (.mark .assign :: .operand false .value :: stack)) second from
      resume_congr ((if_pos isNamed).trans (if_pos isNamed).symm)]
  refine ((identifier_follows atSecond).onto rfl).bind fun _ _ named _ atThird => ?_
  refine (expect_follows atThird).bind fun _ _ sign _ atFourth => ?_
  refine value_follows atFourth (by omega) (by omega) fun _ _ _ given => ?_
  rw [typed, named, sign]
  exact .declaration given

theorem persistentDeclaration_follows (isKept : ahead 1 ts = .mark .bang) :
    Follows ts.length (fun tree => Says (.statement tree) ts)
      (resume (expectsName (.first :: stack)) ts)
      (fun _ rest => scan ⟨stack, .other⟩ rest) (persistentDeclaration ts) := by
  unfold persistentDeclaration
  refine (identifier_follows arrived).bind fun _ second typed _ atSecond => ?_
  rw [typed, ahead_one] at isKept
  have front : (current second).lexeme = .mark .bang := kind_eq_mark.mp isKept
  rw [scan_eq_resume (.inl rfl), show resume (step (.first :: stack) .other) second =
    resume (expects .bang .other (.identifier :: .mark .semicolon :: stack)) second from
      resume_congr (by rw [front]; rfl)]
  refine ((expect_follows atSecond).onto rfl).bind fun _ _ sign _ atThird => ?_
  refine ((identifier_follows atThird).onto rfl).bind fun _ _ named _ atFourth => ?_
  refine terminated_follows atFourth (by omega) fun _ _ closed => ?_
  rw [typed, sign, named, closed]
  exact .persistent

end

theorem resume_first (isName : (current ts).lexeme = .identifier name)
    (notDeclaration : ¬ahead 1 ts = .identifier) (notKept : ¬ahead 1 ts = .mark .bang) :
    resume (start stack) ts = resume (begin .statement stack) ts := by
  rw [ahead_one] at notDeclaration notKept
  rw [resume_some (show start stack (current ts).lexeme = some ⟨.first :: stack, .other⟩ by
      rw [isName]; rfl),
    resume_some (show begin .statement stack (current ts).lexeme =
      some ⟨.named .statement :: stack, .other⟩ by rw [isName]; rfl),
    scan_eq_resume (.inl rfl), scan_eq_resume (.inl rfl)]
  exact resume_congr ((if_neg notDeclaration).trans
    (if_neg fun isBang => notKept (kind_eq_mark.mpr isBang)))

theorem scan_otherwise {role} (notElse : (current ts).lexeme ≠ .keyword .elseWord) :
    scan ⟨.otherwise :: stack, role⟩ ts = scan ⟨stack, role⟩ ts := by
  have done : (State.mk (.otherwise :: stack) role).isDone = (State.mk stack role).isDone := rfl
  cases ts with
  | nil =>
    unfold scan
    rw [done]
  | cons token ts =>
    have same : step (.otherwise :: stack) role token.lexeme = step stack role token.lexeme :=
      if_neg notElse
    unfold scan
    rw [done]
    rw [same]

/-! What each reader of statements does when it has enough calls. -/

def StatementsTracks (calls : Nat) : Prop :=
  ∀ {stop stack tokens},
    (∀ tokens, ¬ahead 0 tokens = stop → scan ⟨stack, .other⟩ tokens = resume (start stack) tokens) →
    Arrived tokens → 16 * tokens.length + 5 ≤ calls →
    Follows (tokens.length + 1)
      (fun trees rest => Says (.statements trees) tokens rest ∧ ahead 0 rest = stop)
      (scan ⟨stack, .other⟩ tokens) (fun _ rest => scan ⟨stack, .other⟩ rest)
      (Parser.statements calls stop tokens)

def BlockTracks (calls : Nat) : Prop :=
  ∀ {stack tokens}, Arrived tokens → 16 * tokens.length + 5 ≤ calls →
    Follows tokens.length (fun tree => Says (.block tree) tokens)
      (scan ⟨.block :: stack, .other⟩ tokens) (fun _ rest => scan ⟨stack, .other⟩ rest)
      (Parser.block calls tokens)

def StatementTracks (calls : Nat) : Prop :=
  ∀ {stack tokens}, Arrived tokens → 16 * tokens.length + 4 ≤ calls →
    Follows tokens.length (fun tree => Says (.statement tree) tokens)
      (resume (start stack) tokens) (fun _ rest => scan ⟨stack, .other⟩ rest)
      (Parser.statement calls tokens)

structure StatementsTrack (calls : Nat) : Prop where
  statements : StatementsTracks calls
  block : BlockTracks calls
  statement : StatementTracks calls

namespace StatementsTrack

section

variable {calls : Nat} (track : StatementsTrack calls)

include track

theorem statements_succ : StatementsTracks (calls + 1) := by
  intro _ _ ts loops arrived _
  unfold Parser.statements
  split
  · next stops => exact .pure ⟨.done, stops⟩ (Nat.lt_succ_self _) arrived rfl
  · next goesOn =>
    rw [loops ts goesOn]
    refine (track.statement arrived (by omega)).bind fun _ _ first _ atSecond => ?_
    refine (track.statements loops atSecond (by omega)).bind fun _ _ following _ atLast => ?_
    exact .pure ⟨.further first following.1, following.2⟩ (by omega) atLast rfl

theorem block_succ : BlockTracks (calls + 1) := by
  intro stack ts arrived _
  unfold Parser.block
  rw [scan_eq_resume (.inl rfl)]
  dsimp only
  split
  · next isOpen =>
    refine (take_follows ⟨.braces :: stack, .other⟩ isOpen).bind fun _ _ opened _ atSecond => ?_
    refine (track.statements (fun ts goesOn => ?_) atSecond (by omega)).bind fun _ _ inner _ _ => ?_
    · rw [scan_eq_resume (.inl rfl)]
      exact resume_congr (if_neg fun isClosed => goesOn (ahead_eq_mark.mpr isClosed))
    · obtain ⟨said, stops⟩ := inner
      rw [scan_eq_resume (.inl rfl)]
      refine (take_follows ⟨stack, .other⟩ (ahead_eq_mark.mp stops)).bind
        fun _ _ closed _ atLast => ?_
      rw [closed] at said
      dsimp only
      refine .pure ?_ (by omega) atLast rfl
      rw [opened]
      exact .braces said
  · next notOpen =>
    rw [show resume (step (.block :: stack) .other) ts = resume (start stack) ts from
      resume_congr (if_neg notOpen)]
    refine (track.statement arrived (by omega)).bind fun _ _ said shorter atLast => ?_
    refine .pure ?_ shorter atLast rfl
    cases ts with
    | nil =>
      cases said with
      | assignment place | call place | invocation place | lateInvocation place =>
        exact absurd place.length_lt (Nat.not_lt_zero _)
    | cons _ _ => exact .single said

theorem statement_succ : StatementTracks (calls + 1) := by
  intro stack ts arrived _
  unfold Parser.statement
  dsimp only
  split
  · next isIf =>
    refine ((take_follows ⟨.mark .leftParen :: .operand false .parenthesis :: .block ::
      .otherwise :: stack, .other⟩ isIf).onto rfl).bind fun _ _ word _ atSecond => ?_
    refine ((tracks calls).parenthesized atSecond (by omega)).bind fun _ _ decides _ atThird => ?_
    obtain ⟨_, _, _, opened, spelled⟩ := decides
    rw [opened] at word
    refine (track.block atThird (by omega)).bind fun _ _ branch _ atFourth => ?_
    dsimp only
    split
    · next isElse =>
      rw [ahead_zero] at isElse
      have front := kind_eq_keyword.mp isElse
      rw [scan_eq_resume (.inr (by rw [front]; exact nofun))]
      refine (take_follows ⟨.block :: stack, .other⟩ front).bind fun _ _ passed _ atFifth => ?_
      rw [passed] at branch
      refine (track.block atFifth (by omega)).bind fun _ _ other _ atLast => ?_
      refine .pure ?_ (by dsimp only; omega) atLast rfl
      rw [word]
      exact .ifElse spelled branch other
    · next notElse =>
      rw [ahead_zero] at notElse
      refine .pure ?_ (by omega) atFourth
        (scan_otherwise fun isElse => notElse (kind_eq_keyword.mpr isElse))
      rw [word]
      refine .ifThen spelled branch fun isElse => notElse (kind_eq_keyword.mpr ?_)
      exact (next_iff nofun).mp isElse
  · next isWhile =>
    refine ((take_follows ⟨.mark .leftParen :: .operand false .parenthesis :: .block :: stack,
      .other⟩ isWhile).onto rfl).bind fun _ _ word _ atSecond => ?_
    refine ((tracks calls).parenthesized atSecond (by omega)).bind fun _ _ decides _ atThird => ?_
    obtain ⟨_, _, _, opened, spelled⟩ := decides
    rw [opened] at word
    refine (track.block atThird (by omega)).bind fun _ _ repeated _ atLast => ?_
    refine .pure ?_ (by dsimp only; omega) atLast rfl
    rw [word]
    exact .whileLoop spelled repeated
  case h_3 front | h_4 front | h_5 front =>
    refine ((take_follows ⟨.mark .semicolon :: stack, .other⟩ front).onto rfl).bind
      fun _ _ word shorter atSecond => ?_
    refine terminated_follows atSecond (Nat.le_of_lt shorter) fun _ _ closed => ?_
    rw [word, closed]
    constructor
  · next name isName =>
    have first : resume (start stack) ts = resume (expectsName (.first :: stack)) ts :=
      resume_congr (by rw [isName]; rfl)
    split
    · next isDeclaration =>
      rw [first]
      exact declaration_follows arrived isDeclaration (by omega)
    · next notDeclaration =>
      split
      · next isKept =>
        rw [first]
        exact persistentDeclaration_follows arrived isKept
      · next notKept =>
        rw [resume_first isName notDeclaration notKept]
        exact simpleStatement_follows arrived (by omega)
  · next notIf notWhile notBreak notContinue notReturn notName =>
    have same : start stack (current ts).lexeme = begin .statement stack (current ts).lexeme := by
      unfold start
      split
      · next front => exact absurd front notIf
      · next front => exact absurd front notWhile
      · next front => exact absurd front notBreak
      · next front => exact absurd front notContinue
      · next front => exact absurd front notReturn
      · next name front => exact absurd front (notName name)
      · rfl
    rw [resume_congr same]
    exact simpleStatement_follows arrived (by omega)

end

end StatementsTrack

theorem statementsTrack (calls : Nat) : StatementsTrack calls := by
  induction calls with
  | zero => constructor <;> intro _ <;> intros <;> omega
  | succ calls ih => exact ⟨ih.statements_succ, ih.block_succ, ih.statement_succ⟩

/-- Nothing is open at the start of a program. -/
def State.initial : State := ⟨[], .other⟩

theorem scan_end (isEnd : (current ts).lexeme = .endOfInput) (done : state.isDone) :
    scan state ts = none := by
  cases ts with
  | nil => exact if_pos done
  | cons token ts =>
    have ended : token.lexeme = .endOfInput := isEnd
    unfold scan
    rw [step_of_stops (by rw [ended]; rfl)]
    exact if_pos ⟨ended, done⟩

theorem statements_follow (arrived : Arrived ts) (enough : 16 * ts.length + 5 ≤ calls) :
    Follows (ts.length + 1)
      (fun trees rest => Says (.statements trees) ts rest ∧ ahead 0 rest = .endOfInput)
      (scan .initial ts) (fun _ rest => scan .initial rest) (statements calls .endOfInput ts) := by
  refine (statementsTrack calls).statements (fun ts goesOn => ?_) arrived enough
  rw [ahead_zero] at goesOn
  exact scan_eq_resume (.inr fun isEnd => goesOn (by rw [isEnd]; rfl))

/-- The recogniser accepts what is a program, and otherwise gets stuck at the token of
the fault. -/
theorem program_follows (ts : List Token) :
    match program ts with
    | .ok tree => scan .initial ts = none ∧ ∃ body rest, Says (.statements body) ts rest ∧
        (current rest).lexeme = .endOfInput ∧ tree = .mk 0 body
    | .error fault => ∃ token, scan .initial ts = some token ∧ Blames fault token := by
  have reads : Follows (ts.length + 1)
      (fun trees rest => Says (.statements trees) ts rest ∧ ahead 0 rest = .endOfInput)
      (scan .initial ts) (fun _ rest => scan .initial rest) (arrive () ts >>= fun arrived =>
        statements (callBound arrived.2) .endOfInput arrived.2) := by
    have arrives : Follows (ts.length + 1) (fun _ rest => rest = ts) (scan .initial ts)
        (fun _ rest => scan .initial rest) (arrive () ts) :=
      arrive_follows rfl (Nat.lt_succ_self _) rfl
    refine arrives.bind fun _ rest same _ arrived => ?_
    obtain rfl : rest = ts := same
    exact statements_follow arrived (by simp only [callBound]; omega)
  have whole : program ts = (arrive () ts >>= fun arrived =>
      statements (callBound arrived.2) .endOfInput arrived.2) >>=
        fun res => .ok (.mk 0 res.1) := by
    unfold program
    cases arrive () ts <;> rfl
  rw [whole]
  revert reads
  generalize (arrive () ts >>= fun arrived =>
    statements (callBound arrived.2) .endOfInput arrived.2) = res
  intro reads
  cases res with
  | error _ => exact reads
  | ok res =>
    obtain ⟨body, last⟩ := res
    obtain ⟨⟨said, stops⟩, _, _, same⟩ := reads
    have ends : (current last).lexeme = .endOfInput := by
      rw [ahead_zero] at stops
      cases same : (current last).lexeme <;> rw [same] at stops <;> first | rfl | cases stops
    exact ⟨same.trans (scan_end ends rfl), body, last, said, ends, rfl⟩

end HostScript.Tree.Recognizer
