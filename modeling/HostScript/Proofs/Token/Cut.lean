import HostScript.Proofs.Token.Stream

namespace HostScript.Lexer

open List

/-!
# Sources that are cut after a token

A lexeme depends on its own bytes and on at most one byte after them, and a blank or the end of
the source ends every lexeme.
-/

def EndsBlank (text : Text) : Prop :=
  ∀ byte ∈ text.head?, isBlank byte = true

/-- Whether a text can stand where another one does without a change to the lexeme before. -/
def EndsLike (text others : Text) : Prop :=
  text.head? = others.head? ∨ EndsBlank text

theorem endsBlank_of_lineFeed {text} (lineFeed : text.head? = some 10) : EndsBlank text := by
  intro _ atFront
  rw [lineFeed] at atFront
  cases atFront
  rfl

theorem mem_of_isBlank (blank : isBlank byte) : byte ∈ [9, 10, 11, 12, 13, 32] := by
  have all : ∀ number : Fin 256, isBlank ⟨⟨number⟩⟩ →
      (⟨⟨number⟩⟩ : UInt8) ∈ [(9 : UInt8), 10, 11, 12, 13, 32] := by decide +kernel
  exact all byte.toBitVec.toFin blank

theorem not_of_isBlank (holds : UInt8 → Bool) (never : [9, 10, 11, 12, 13, 32].all (!holds ·))
    (blank : isBlank byte) : holds byte = false := by
  simpa using all_eq_true.mp never byte (mem_of_isBlank blank)

theorem EndsLike.head {text others : Text} (alike : EndsLike text others) {holds : UInt8 → Bool}
    (never : [9, 10, 11, 12, 13, 32].all (!holds ·))
    (ends : ∀ first ∈ others.head?, holds first = false) :
    ∀ first ∈ text.head?, holds first = false := by
  intro first atFront
  rcases alike with same | blanks
  · exact ends first (same ▸ atFront)
  · exact not_of_isBlank holds never (blanks first atFront)

theorem span_append {text : Text} (all : ∀ byte ∈ bytes, holds byte)
    (ends : ∀ first ∈ text.head?, holds first = false) :
    (bytes ++ text).takeWhile holds = bytes ∧ (bytes ++ text).dropWhile holds = text := by
  rw [takeWhile_append_of_pos all, dropWhile_append_of_pos all]
  cases text with
  | nil => exact ⟨append_nil _, rfl⟩
  | cons first _ =>
    have isEnd := ends first rfl
    rw [takeWhile_cons_of_neg (by rw [isEnd]; exact nofun),
      dropWhile_cons_of_neg (by rw [isEnd]; exact nofun)]
    exact ⟨append_nil _, rfl⟩

theorem all_takeWhile (holds : UInt8 → Bool) (src : Text) :
    ∀ byte ∈ src.takeWhile holds, holds byte :=
  all_eq_true.mp List.all_takeWhile

theorem head_dropWhile (holds : UInt8 → Bool) (src : Text) :
    ∀ first ∈ (src.dropWhile holds).head?, holds first = false := by
  intro first atFront
  have ends := head?_dropWhile_not holds src
  rwa [atFront] at ends

/-- A lexeme with the bytes it takes after its first, and what follows them. -/
structure Cuts (first : UInt8) (rest taken others : Text) : Prop where
  whole : rest = taken ++ others
  length : (lexeme first rest).2 = taken.length + 1
  same : ∀ text, EndsLike text others → lexeme first (taken ++ text) = lexeme first rest

variable {first byte : UInt8} {rest : Text}

theorem lexeme_of_letter (letter : isLetter first) (text : Text) :
    lexeme first text = (wordLexeme (first :: text.takeWhile isNameByte),
      (text.takeWhile isNameByte).length + 1) := by
  have nameByte : isNameByte first := by simp [isNameByte, letter]
  unfold lexeme
  rw [if_pos letter]
  simp only [takeWhile_cons_of_pos nameByte, length_cons]

theorem word_cuts (rest : Text) (letter : isLetter first) :
    Cuts first rest (rest.takeWhile isNameByte) (rest.dropWhile isNameByte) := by
  have read := lexeme_of_letter letter
  refine ⟨takeWhile_append_dropWhile.symm, by rw [read], fun text alike => ?_⟩
  rw [read, read,
    (span_append (all_takeWhile _ rest) (alike.head (by decide) (head_dropWhile _ rest))).1]

theorem EndsLike.spoils (alike : EndsLike text others) (ends : spoilsNumber others.head? = false) :
    spoilsNumber text.head? = false := by
  rcases alike with same | blanks
  · rwa [same]
  · cases atFront : text.head? with
    | none => rfl
    | some first =>
      exact not_of_isBlank (fun byte => spoilsNumber (some byte)) (by decide) (blanks first atFront)

section

variable {digits fraction text : Text} (digit : isDigit first)
  (all : ∀ byte ∈ digits, isDigit byte) (ends : ∀ byte ∈ text.head?, isDigit byte = false)
  (unspoiled : spoilsNumber text.head? = false)

include digit all ends unspoiled

theorem number_integer :
    number (first :: (digits ++ text)) = (integerLexeme (first :: digits), digits.length + 1) := by
  obtain ⟨taken, dropped⟩ := span_append (forall_mem_cons.mpr ⟨digit, all⟩) ends
  rw [cons_append] at taken dropped
  unfold number
  rw [taken, dropped]
  cases text with
  | nil => rfl
  | cons _ _ =>
    simp only [spoilsNumber, head?_cons, Bool.or_eq_false_iff] at unspoiled
    simp [unspoiled.1, unspoiled.2]

theorem number_float (allFraction : ∀ byte ∈ fraction, isDigit byte) :
    number (first :: ((digits ++ Text.byte '.' :: fraction) ++ text)) =
      (floatLexeme (first :: digits) fraction, digits.length + 1 + 1 + fraction.length) := by
  have endsAtPoint : ∀ byte ∈ (Text.byte '.' :: (fraction ++ text)).head?,
      isDigit byte = false := by
    intro byte atFront
    cases atFront
    rfl
  obtain ⟨taken, dropped⟩ := span_append (forall_mem_cons.mpr ⟨digit, all⟩) endsAtPoint
  obtain ⟨fractionTaken, fractionDropped⟩ := span_append allFraction ends
  rw [cons_append] at taken dropped
  rw [append_assoc, cons_append]
  unfold number
  rw [taken, dropped]
  simp [fractionTaken, fractionDropped, unspoiled]

end

theorem number_cuts (digit : isDigit first) (legal : (number (first :: rest)).1.stops = false) :
    ∃ taken others, rest = taken ++ others ∧ (number (first :: rest)).2 = taken.length + 1 ∧
      ∀ text, EndsLike text others →
        number (first :: (taken ++ text)) = number (first :: rest) := by
  have all := all_takeWhile isDigit rest
  have ends := head_dropWhile isDigit rest
  have whole : rest = rest.takeWhile isDigit ++ rest.dropWhile isDigit :=
    takeWhile_append_dropWhile.symm
  by_cases unspoiled : spoilsNumber (rest.dropWhile isDigit).head? = false
  · have read := number_integer digit all ends unspoiled
    rw [← whole] at read
    refine ⟨_, _, whole, by rw [read], fun text alike => ?_⟩
    rw [read, number_integer digit all (alike.head (by decide) ends) (alike.spoils unspoiled)]
  -- Only a decimal point can follow the digits, and then more digits that nothing spoils.
  cases after : rest.dropWhile isDigit with
  | nil =>
    rw [after] at unspoiled
    exact absurd rfl unspoiled
  | cons following more =>
    have taken : (first :: rest).takeWhile isDigit = first :: rest.takeWhile isDigit :=
      takeWhile_cons_of_pos digit
    have dropped : (first :: rest).dropWhile isDigit = following :: more := by
      rw [dropWhile_cons_of_pos digit, after]
    have point : following = Text.byte '.' := by
      by_contra notPoint
      have letter : isLetter following := by
        simpa [after, spoilsNumber, notPoint] using unspoiled
      unfold number at legal
      rw [dropped] at legal
      simp [notPoint, letter, Lexeme.stops] at legal
    subst point
    have fractionEnds := head_dropWhile isDigit more
    have fractionAll := all_takeWhile isDigit more
    have fractionUnspoiled : spoilsNumber (more.dropWhile isDigit).head? = false := by
      refine Bool.eq_false_iff.mpr fun spoiled => ?_
      unfold number at legal
      rw [dropped] at legal
      simp [spoiled, Lexeme.stops] at legal
    have split : rest = (rest.takeWhile isDigit ++ Text.byte '.' :: more.takeWhile isDigit) ++
        more.dropWhile isDigit := by
      rw [append_assoc, cons_append, takeWhile_append_dropWhile, ← after]
      exact whole
    have read := number_float digit all fractionEnds fractionUnspoiled fractionAll
    rw [← split] at read
    refine ⟨_, _, split, ?_, fun text alike => ?_⟩
    · rw [read, length_append, length_cons]
      omega
    · rw [read, number_float digit all (alike.head (by decide) fractionEnds)
        (alike.spoils fractionUnspoiled) fractionAll]

theorem string?_quote (rest : Text) (isQuote : (byte == Text.byte '"')) :
    string? (byte :: rest) = some ([], 1) := by
  rw [string?.eq_def]
  exact if_pos isQuote

theorem string?_escape (rest : Text) (notQuote : ¬(byte == Text.byte '"'))
    (isEscape : (byte == Text.byte '\\')) :
    string? (byte :: rest) =
      match rest with
      | [] => none
      | escaped :: after =>
        (string? after).map fun (val, length) => (unescape escaped :: val, length + 2) := by
  rw [string?.eq_def]
  exact (if_neg notQuote).trans (if_pos isEscape)

theorem string?_plain (rest : Text) (notQuote : ¬(byte == Text.byte '"'))
    (notEscape : ¬(byte == Text.byte '\\')) :
    string? (byte :: rest) = (string? rest).map fun (val, length) => (byte :: val, length + 1) := by
  rw [string?.eq_def]
  exact (if_neg notQuote).trans (if_neg notEscape)

theorem string?_cuts {rest val length} (read : string? rest = some (val, length)) :
    ∃ taken others, rest = taken ++ others ∧ length = taken.length ∧
      ∀ text, string? (taken ++ text) = some (val, length) := by
  induction rest using string?.induct generalizing val length with
  | case1 => cases read
  | case2 byte rest isQuote =>
    rw [string?_quote rest isQuote] at read
    cases read
    exact ⟨[byte], rest, rfl, rfl, fun text => string?_quote text isQuote⟩
  | case3 byte notQuote isEscape =>
    rw [string?_escape [] notQuote isEscape] at read
    cases read
  | case4 byte notQuote isEscape escaped _ ih =>
    rw [string?_escape _ notQuote isEscape] at read
    obtain ⟨⟨inner, count⟩, found, same⟩ := Option.map_eq_some_iff.mp read
    cases same
    obtain ⟨taken, others, rfl, rfl, again⟩ := ih found
    refine ⟨byte :: escaped :: taken, others, rfl, rfl, fun text => ?_⟩
    rw [cons_append, cons_append, string?_escape _ notQuote isEscape]
    simp only [again, Option.map_some]
  | case5 byte rest notQuote notEscape ih =>
    rw [string?_plain _ notQuote notEscape] at read
    obtain ⟨⟨inner, count⟩, found, same⟩ := Option.map_eq_some_iff.mp read
    cases same
    obtain ⟨taken, others, rfl, rfl, again⟩ := ih found
    refine ⟨byte :: taken, others, rfl, rfl, fun text => ?_⟩
    rw [cons_append, string?_plain _ notQuote notEscape]
    simp only [again, Option.map_some]

theorem mark?_cuts {mark length} (read : mark? first rest.head? = some (mark, length)) :
    ∃ taken others, rest = taken ++ others ∧ length = taken.length + 1 ∧
      ∀ text, EndsLike text others → mark? first (taken ++ text).head? = some (mark, length) := by
  have noBlank : ∀ entry ∈ pairedMarks, isBlank (Text.byte entry.2.1) = false := by decide
  unfold mark? at read ⊢
  cases found : pairedMarks.find? fun entry => Text.byte entry.1 == first with
  | none =>
    rw [found] at read
    refine ⟨[], rest, rfl, ?_, fun _ _ => read⟩
    obtain ⟨_, _, same⟩ := Option.map_eq_some_iff.mp read
    cases same
    rfl
  | some entry =>
    obtain ⟨_, second, _, _⟩ := entry
    have noBlank := noBlank _ (mem_of_find?_eq_some found)
    rw [found] at read
    dsimp only at read noBlank ⊢
    split at read
    · next isPair =>
      cases read
      rw [beq_iff_eq] at isPair
      obtain ⟨others, rfl⟩ := head?_eq_some_iff.mp isPair
      exact ⟨[Text.byte second], others, rfl, rfl, fun text _ => if_pos (beq_self_eq_true _)⟩
    · next isLone =>
      cases read
      refine ⟨[], rest, rfl, rfl, fun text alike => if_neg ?_⟩
      rw [beq_iff_eq] at isLone ⊢
      rw [nil_append]
      rcases alike with same | blanks
      · rwa [same]
      · intro atFront
        rw [blanks _ atFront] at noBlank
        cases noBlank

theorem exists_cuts (legal : (lexeme first rest).1.stops = false) :
    ∃ taken others, Cuts first rest taken others := by
  by_cases letter : isLetter first
  · exact ⟨_, _, word_cuts rest letter⟩
  by_cases digit : isDigit first
  · have read : ∀ text, lexeme first text = number (first :: text) := by
      intro text
      unfold lexeme
      rw [if_neg letter, if_pos digit]
    rw [read] at legal
    obtain ⟨taken, others, whole, length, same⟩ := number_cuts digit legal
    exact ⟨taken, others, whole, by rw [read, length], fun text alike => by
      rw [read, read, same text alike]⟩
  by_cases quote : (first == Text.byte '"')
  · have read : ∀ {text val length}, string? text = some (val, length) →
        lexeme first text = (.string val, length + 1) := by
      intro text val length found
      unfold lexeme
      rw [if_neg letter, if_neg digit, if_pos quote, found]
    cases found : string? rest with
    | none =>
      unfold lexeme at legal
      rw [if_neg letter, if_neg digit, if_pos quote, found] at legal
      cases legal
    | some _ =>
      obtain ⟨taken, others, whole, length, same⟩ := string?_cuts found
      exact ⟨taken, others, whole, by rw [read found, length], fun text _ => by
        rw [read found, read (same text)]⟩
  · have read : ∀ {text mark length}, mark? first text.head? = some (mark, length) →
        lexeme first text = (.mark mark, length) := by
      intro text mark length found
      unfold lexeme
      rw [if_neg letter, if_neg digit, if_neg quote, found]
    cases found : mark? first rest.head? with
    | none =>
      unfold lexeme at legal
      rw [if_neg letter, if_neg digit, if_neg quote, found] at legal
      cases legal
    | some mark =>
      obtain ⟨taken, others, whole, length, same⟩ := mark?_cuts found
      exact ⟨taken, others, whole, by rw [read found, length], fun text alike => by
        rw [read found, read (same text alike)]⟩

/-- Blanks and comments; only at the end of a source may a comment lack its line feed. -/
inductive IsGap (atEnd : Bool) : Text → Prop where
  | nil : IsGap atEnd []
  | blank {byte : UInt8} {text : Text} (isBlank : isBlank byte = true) (rest : IsGap atEnd text) :
      IsGap atEnd (byte :: text)
  | comment {line text : Text} (oneLine : 10 ∉ line) (rest : IsGap atEnd text) :
      IsGap atEnd (Text.byte '/' :: Text.byte '/' :: (line ++ 10 :: text))
  | lastComment {line : Text} (oneLine : 10 ∉ line) (isEnd : atEnd = true) :
      IsGap atEnd (Text.byte '/' :: Text.byte '/' :: line)

theorem skipBlanks_line (oneLine : 10 ∉ line) (off : Nat) (rest : Text) :
    skipBlanks true off (line ++ 10 :: rest) = skipBlanks false (off + (line.length + 1)) rest := by
  induction line generalizing off with
  | nil => rfl
  | cons byte line ih =>
    rw [mem_cons, not_or] at oneLine
    have goesOn : (byte != 10) := by simpa using Ne.symm oneLine.1
    rw [cons_append, skipBlanks, goesOn, ih oneLine.2, length_cons]
    congr 1
    omega

theorem IsGap.skipBlanks (isGap : IsGap false gap) (off : Nat) (rest : Text) :
    skipBlanks false off (gap ++ rest) = skipBlanks false (off + gap.length) rest := by
  induction isGap generalizing off with
  | nil => rfl
  | blank isBlank _ ih =>
    rw [cons_append, Lexer.skipBlanks, if_pos isBlank, ih, length_cons]
    congr 1
    omega
  | @comment line text oneLine _ ih =>
    rw [cons_append, cons_append, append_assoc, cons_append]
    have opened : Lexer.skipBlanks false off
        (Text.byte '/' :: Text.byte '/' :: (line ++ 10 :: (text ++ rest))) =
        Lexer.skipBlanks true (off + 2) (line ++ 10 :: (text ++ rest)) := rfl
    rw [opened, skipBlanks_line oneLine, ih]
    simp only [length_cons, length_append]
    congr 1
    omega
  | lastComment _ isEnd => cases isEnd

/-- What is skipped, and what is left: nothing more of it would be skipped. -/
structure Skips (offset : Nat) (source gap : Text) (after : Cursor) : Prop where
  source : source = gap ++ after.rest
  offset : after.offset = offset + gap.length
  isGap : IsGap after.rest.isEmpty gap
  rest : ∀ place, skipBlanks false place after.rest = ⟨place, after.rest⟩

/-- What is skipped is a gap; inside of a comment, the line comes before it. -/
theorem exists_skips (src : Text) (off : Nat) :
    (∃ gap, Skips off src gap (skipBlanks false off src)) ∧ ∃ line, 10 ∉ line ∧
        (src = line ∧ skipBlanks true off src = ⟨off + line.length, []⟩ ∨
          ∃ rest gap, src = line ++ 10 :: rest ∧
            Skips (off + (line.length + 1)) rest gap (skipBlanks true off src)) := by
  induction src generalizing off with
  | nil => exact ⟨⟨[], rfl, rfl, .nil, fun _ => rfl⟩, [], not_mem_nil, .inl ⟨rfl, rfl⟩⟩
  | cons byte src ih =>
    obtain ⟨⟨gap, plain⟩, line, oneLine, inside⟩ := ih (off + 1)
    constructor
    · unfold skipBlanks
      split
      · next blank =>
        refine ⟨byte :: gap, congrArg (byte :: ·) plain.source, ?_, .blank blank plain.isGap,
          plain.rest⟩
        rw [plain.offset, length_cons]
        omega
      · next notBlank =>
        split
        · next opens =>
          rw [Bool.and_eq_true, beq_iff_eq, beq_iff_eq] at opens
          obtain ⟨rfl, second⟩ := opens
          obtain ⟨src, rfl⟩ := head?_eq_some_iff.mp second
          -- The second byte of the comment is the first one of its line.
          cases line with
          | nil =>
            rcases inside with ⟨isNil, _⟩ | ⟨rest, gap, isLine, _⟩
            · cases isNil
            · exact absurd (List.cons.inj isLine).1 (by decide)
          | cons _ line =>
            rw [mem_cons, not_or] at oneLine
            rcases inside with ⟨isLine, same⟩ | ⟨rest, gap, isLine, skips⟩
            · obtain ⟨rfl, rfl⟩ := List.cons.inj isLine
              rw [same]
              exact ⟨_, (append_nil _).symm, by simp only [length_cons]; omega,
                .lastComment oneLine.2 rfl, fun _ => rfl⟩
            · obtain ⟨rfl, rfl⟩ := List.cons.inj isLine
              refine ⟨_ :: _ :: (line ++ 10 :: gap), ?_, ?_, .comment oneLine.2 skips.isGap,
                skips.rest⟩
              · nth_rewrite 1 [skips.source]
                simp only [cons_append, append_assoc]
                rfl
              · rw [skips.offset]
                simp only [length_cons, length_append]
                omega
        · next notOpens =>
          refine ⟨[], rfl, rfl, .nil, fun _ => ?_⟩
          rw [skipBlanks, if_neg notBlank, if_neg notOpens]
    · by_cases lineFeed : byte = 10
      · subst lineFeed
        exact ⟨[], not_mem_nil, .inr ⟨src, gap, rfl, plain⟩⟩
      · have goesOn : (byte != 10) := by simpa using lineFeed
        refine ⟨byte :: line, fun member => ?_, ?_⟩
        · exact (mem_cons.mp member).elim (Ne.symm lineFeed) oneLine
        rw [skipBlanks, goesOn]
        have counted : off + 1 + line.length = off + (byte :: line).length := by
          rw [length_cons]
          omega
        rcases inside with ⟨rfl, same⟩ | ⟨rest, gap, rfl, skips⟩
        · exact .inl ⟨rfl, counted ▸ same⟩
        · refine .inr ⟨rest, gap, rfl, ?_⟩
          rwa [← Nat.add_assoc, counted] at skips

theorem skipBlanks_of_front (notBlank : isBlank first = false)
    (noComment : first = Text.byte '/' → rest.head? ≠ some (Text.byte '/')) (place : Nat) :
    skipBlanks false place (first :: rest) = ⟨place, first :: rest⟩ := by
  rw [skipBlanks, notBlank, if_neg Bool.false_ne_true, if_neg]
  rw [Bool.and_eq_true, beq_iff_eq, beq_iff_eq]
  exact fun opens => noComment opens.1 opens.2

theorem front_of_skipBlanks {place}
    (ends : skipBlanks false place (first :: rest) = ⟨place, first :: rest⟩) :
    isBlank first = false ∧ (first = Text.byte '/' → rest.head? ≠ some (Text.byte '/')) := by
  have moved : ∀ comment, skipBlanks comment (place + 1) rest ≠ ⟨place, first :: rest⟩ := by
    intro comment same
    have shorter := (suffix_skipBlanks comment (place + 1) rest).length_le
    rw [same, length_cons] at shorter
    omega
  unfold skipBlanks at ends
  split at ends
  · exact absurd ends (moved false)
  · next notBlank =>
    split at ends
    · exact absurd ends (moved true)
    · next notOpens =>
      rw [Bool.and_eq_true, beq_iff_eq, beq_iff_eq] at notOpens
      exact ⟨by simpa using notBlank, fun slash second => notOpens ⟨slash, second⟩⟩

theorem next_of_skipped {cursor : Cursor}
    (skipped : skipBlanks false cursor.offset cursor.rest = ⟨place, first :: rest⟩) :
    next cursor = (⟨(lexeme first rest).1, place⟩,
        ⟨place + (lexeme first rest).2, (first :: rest).drop (lexeme first rest).2⟩) := by
  unfold next
  simp only [skipped, Cursor.skip]

/-- A token that is read, with the gap before it and its bytes, which are the same token elsewhere
if what follows does not change it. -/
structure Reads (cursor : Cursor) (gap span : Text) (token : Token) (after : Cursor) : Prop where
  source : cursor.rest = gap ++ (span ++ after.rest)
  isGap : IsGap false gap
  nonempty : span ≠ []
  offset : token.offset = cursor.offset + gap.length
  place : after.offset = token.offset + span.length
  again : ∀ {lead : Text}, IsGap false lead → ∀ offset text, EndsLike text after.rest →
    next ⟨offset, lead ++ (span ++ text)⟩ =
      (⟨token.lexeme, offset + lead.length⟩, ⟨offset + lead.length + span.length, text⟩)

theorem exists_reads (ordinary : (next cursor).1.lexeme.stops = false) :
    ∃ gap span, Reads cursor gap span (next cursor).1 (next cursor).2 := by
  obtain ⟨gap, skips⟩ := (exists_skips cursor.rest cursor.offset).1
  cases skipped : skipBlanks false cursor.offset cursor.rest with
  | mk place rest =>
    rw [skipped] at skips
    cases rest with
    | nil =>
      unfold next at ordinary
      rw [skipped] at ordinary
      cases ordinary
    | cons first rest =>
      have read := next_of_skipped skipped
      rw [read] at ordinary ⊢
      obtain ⟨taken, others, cuts⟩ := exists_cuts ordinary
      have left : (first :: rest).drop (lexeme first rest).2 = others := by
        rw [cuts.length, drop_succ_cons, cuts.whole, drop_left]
      rw [left]
      refine ⟨gap, first :: taken, ⟨?_, skips.isGap, cons_ne_nil _ _, skips.offset, ?_,
        fun {lead} isGap off text alike => ?_⟩⟩
      · rw [skips.source, cons_append, ← cuts.whole]
      · rw [cuts.length, length_cons]
      · have harmless : (taken ++ text).head? = some (Text.byte '/') →
            rest.head? = some (Text.byte '/') := by
          rw [cuts.whole]
          cases taken with
          | cons => exact id
          | nil =>
            rw [nil_append]
            rcases alike with same | blanks
            · rw [same]
              exact id
            · exact fun atFront => absurd (blanks _ atFront) (by decide)
        obtain ⟨notBlank, noComment⟩ := front_of_skipBlanks (skips.rest place)
        have skippedAgain := skipBlanks_of_front notBlank
          (fun slash second => noComment slash (harmless second)) (off + lead.length)
        rw [← isGap.skipBlanks off] at skippedAgain
        have readAgain : next ⟨off, lead ++ first :: (taken ++ text)⟩ = _ :=
          next_of_skipped skippedAgain
        rw [cuts.same text alike, cuts.length, drop_succ_cons, drop_left] at readAgain
        rw [cons_append, readAgain, length_cons]

/-- The tokens before a place can be read from every source that goes on from there without
a change to the last of them. -/
theorem Lexes.cuts (lexes : Lexes cursor ts final) :
    ∃ used, cursor.rest = used ++ final.rest ∧ final.offset = cursor.offset + used.length ∧
      ∀ text, EndsLike text final.rest →
        Lexes ⟨cursor.offset, used ++ text⟩ ts ⟨final.offset, text⟩ := by
  induction lexes with
  | done => exact ⟨[], rfl, rfl, fun _ _ => .done⟩
  | @further cursor after final _ ts read ordinary _ ih =>
    obtain ⟨used, rest, counted, again⟩ := ih
    obtain ⟨gap, span, reads⟩ := exists_reads (show (next cursor).1.lexeme.stops = false by
      rw [read]; exact ordinary)
    rw [read] at reads
    refine ⟨gap ++ (span ++ used), ?_, ?_, fun text alike => ?_⟩
    · rw [reads.source, rest]
      simp only [append_assoc]
    · rw [counted, reads.place, reads.offset]
      simp only [length_append]
      omega
    · have alikeAfter : EndsLike (used ++ text) after.rest := by
        cases used with
        | nil => exact rest.symm ▸ alike
        | cons => exact .inl (by rw [rest]; rfl)
      have same := reads.again reads.isGap cursor.offset _ alikeAfter
      rw [← reads.offset, ← reads.place] at same
      simp only [append_assoc]
      exact .further same ordinary (again text alike)

theorem next_of_isGap (isGap : IsGap false gap) (off : Nat) :
    (next ⟨off, gap⟩).1 = ⟨.endOfInput, off + gap.length⟩ := by
  have skipped := isGap.skipBlanks off []
  rw [append_nil] at skipped
  unfold next
  rw [skipped]
  rfl

theorem Lexes.tokenize_eq (lexes : Lexes (.start src) pre final)
    (isEnd : (next final).1 = ⟨.endOfInput, place⟩) :
    tokenize src = (pre ++ [⟨.endOfInput, place⟩], none) := by
  have stops : (next final).1.lexeme.stops := by rw [isEnd]; rfl
  have read := lexes.tokens_eq stops
  have noFault := (tokenize_eq_none_iff ⟨read, lexes.ordinary, stops⟩).mpr (by rw [isEnd])
  rw [← tokenize_tokens noFault, isEnd] at read
  exact Prod.ext read noFault

/-- Lexemes that can be put after a cut. -/
inductive Filler where
  | mark (symbol : Mark)
  | name

namespace Filler

def lexeme : Filler → Lexeme
  | .mark symbol => .mark symbol
  | .name => .identifier "x"

/-- Its bytes. -/
def spelling : Filler → Text
  | .mark symbol => symbol.spelling
  | .name => "x"

def lines : List Filler → Text
  | [] => [10]
  | filler :: fillers => 10 :: (filler.spelling ++ lines fillers)

theorem head_lines (fillers : List Filler) : (lines fillers).head? = some 10 := by
  cases fillers <;> rfl

theorem next_line (filler : Filler) (off : Nat) (rest : Text) :
    next ⟨off, 10 :: (filler.spelling ++ 10 :: rest)⟩ =
      (⟨filler.lexeme, off + 1⟩, ⟨off + 1 + filler.spelling.length, 10 :: rest⟩) := by
  cases filler with
  | mark sym => cases sym <;> cbv
  | name => cbv

theorem lexes_lines (fillers : List Filler) (off : Nat) :
    ∃ ts final, Lexes ⟨off, lines fillers⟩ ts ⟨final, [10]⟩ ∧
      ts.map Token.lexeme = fillers.map lexeme := by
  induction fillers generalizing off with
  | nil => exact ⟨[], off, .done, rfl⟩
  | cons filler fillers ih =>
    obtain ⟨rest, same⟩ := head?_eq_some_iff.mp (head_lines fillers)
    obtain ⟨ts, final, lexes, spelled⟩ := ih (off + 1 + filler.spelling.length)
    rw [same] at lexes
    have read := next_line filler off rest
    refine ⟨_, final, .further (by rw [lines, same]; exact read) ?_ lexes, ?_⟩
    · cases filler <;> rfl
    · rw [map_cons, map_cons, spelled]

end Filler

end HostScript.Lexer
