import HostScript.Proofs.Token.Cut

namespace HostScript.Lexer

open List

/-!
# Tokens tile the source

The tokens of a source and the gaps between them are all of it.
-/

/-- Bytes after an opening quote that do not close it; a backslash may be the last of them. -/
inductive StaysOpen : Text → Prop where
  | nil : StaysOpen []
  | cut : StaysOpen [Text.byte '\\']
  | escape {escaped rest} (others : StaysOpen rest) : StaysOpen (Text.byte '\\' :: escaped :: rest)
  | plain {byte rest} (notQuote : byte ≠ Text.byte '"')
      (notEscape : byte ≠ Text.byte '\\') (others : StaysOpen rest) : StaysOpen (byte :: rest)

def AreDigits (text : Text) : Prop :=
  text ≠ [] ∧ ∀ byte ∈ text, isDigit byte = true

/-- What stands where reading stops with a fault. -/
def Stuck : LexicalFault → Text → Prop
  | .unexpectedCharacter byte, source =>
      source.head? = some byte ∧ isNameByte byte = false ∧ byte ≠ Text.byte '"' ∧
        isBlank byte = false ∧ ∀ symbol : Mark, byte ∉ symbol.spelling
  | .malformedNumber, source =>
      ∃ digits rest, AreDigits digits ∧
        (source = digits ++ rest ∧ (∃ byte ∈ rest.head?, isLetter byte = true) ∨
          ∃ fraction, (∀ byte ∈ fraction, isDigit byte = true) ∧
            source = digits ++ Text.byte '.' :: (fraction ++ rest) ∧
            ∃ byte ∈ rest.head?, byte = Text.byte '.' ∨ isLetter byte = true)
  | .malformedFloat, source =>
      ∃ digits fraction rest, AreDigits digits ∧ (∀ byte ∈ fraction, isDigit byte = true) ∧
        source = digits ++ Text.byte '.' :: (fraction ++ rest) ∧
        Binary.single.ofDecimal? (digitsValue (digits ++ fraction)) fraction.length = none
  | .integerOverflow, source =>
      ∃ digits rest, AreDigits digits ∧ source = digits ++ rest ∧
        (∀ byte ∈ rest.head?, isDigit byte = false) ∧ Nat.pow 2 31 ≤ digitsValue digits
  | .unterminatedString, source => ∃ text, source = Text.byte '"' :: text ∧ StaysOpen text

/-- A source from an offset on as gaps and the bytes of its tokens, up to the end of input. -/
inductive Tiles : Nat → Text → List Token → Prop where
  | finish {offset : Nat} {gap : Text} (isGap : IsGap true gap) :
      Tiles offset gap [⟨.endOfInput, offset + gap.length⟩]
  | token {offset : Nat} {gap span rest : Text} {meant : Lexeme} {tokens : List Token}
      (isGap : IsGap false gap) (nonempty : span ≠ [])
      (alone : tokenize span = ([⟨meant, 0⟩, ⟨.endOfInput, span.length⟩], none))
      (others : Tiles (offset + gap.length + span.length) rest tokens) :
      Tiles offset (gap ++ (span ++ rest)) (⟨meant, offset + gap.length⟩ :: tokens)

namespace Tiles

theorem le_offset (tiles : Tiles off src ts) : ∀ token ∈ ts, off ≤ token.offset := by
  induction tiles with
  | finish => simp
  | token _ _ _ _ ih =>
    refine forall_mem_cons.mpr ⟨Nat.le_add_right _ _, fun token mem => ?_⟩
    have later := ih token mem
    omega

theorem ascending (tiles : Tiles off src ts) : (ts.map Token.offset).Pairwise (· < ·) := by
  induction tiles with
  | finish => exact pairwise_singleton _ _
  | @token off _ _ _ _ _ _ nonempty _ others ih =>
    refine pairwise_cons.mpr ⟨fun _ mem => ?_, ih⟩
    obtain ⟨token, isToken, rfl⟩ := mem_map.mp mem
    have later := others.le_offset token isToken
    have bytes := length_pos_iff.mpr nonempty
    dsimp only
    omega

theorem getLast?_eq (tiles : Tiles off src ts) :
    ts.getLast? = some ⟨.endOfInput, off + src.length⟩ := by
  induction tiles with
  | finish => rfl
  | @token off _ _ _ _ ts _ _ _ _ ih =>
    rw [getLast?_cons, ih]
    simp only [Option.getD_some, length_append]
    congr 2
    omega

end Tiles

theorem Lexes.tiles (lexes : Lexes cursor ts final) (rest : Tiles final.offset final.rest others) :
    Tiles cursor.offset cursor.rest (ts ++ others) := by
  induction lexes with
  | done => exact rest
  | @further cursor _ final token ts read ordinary _ ih =>
    obtain ⟨_, span, reads⟩ := exists_reads (show (next cursor).1.lexeme.stops = false by
      rw [read]; exact ordinary)
    rw [read] at reads
    have once := reads.again .nil 0 [] (.inr nofun)
    rw [nil_append, append_nil] at once
    have alone : Lexes (.start span) [⟨token.lexeme, 0⟩] ⟨span.length, []⟩ :=
      .further (by rw [Cursor.start, once]; simp) ordinary .done
    have tiled := ih rest
    rw [reads.place, reads.offset] at tiled
    have whole := Tiles.token reads.isGap reads.nonempty (alone.tokenize_eq rfl) tiled
    rw [← reads.offset, ← reads.source] at whole
    exact whole

theorem lexeme_ne_endOfInput (first : UInt8) (rest : Text) :
    (lexeme first rest).1 ≠ .endOfInput := by
  intro isEnd
  unfold lexeme at isEnd
  split at isEnd
  · unfold wordLexeme at isEnd
    dsimp only at isEnd
    split at isEnd <;> cases isEnd
  · split at isEnd
    · unfold number integerLexeme floatLexeme at isEnd
      dsimp only at isEnd
      repeat' split at isEnd
      all_goals cases isEnd
    · split at isEnd <;> split at isEnd <;> cases isEnd

theorem tiles_of_endOfInput (isEnd : (next cursor).1.lexeme = .endOfInput) :
    Tiles cursor.offset cursor.rest [(next cursor).1] := by
  obtain ⟨gap, skips⟩ := (exists_skips cursor.rest cursor.offset).1
  cases skipped : skipBlanks false cursor.offset cursor.rest with
  | mk place rest =>
    rw [skipped] at skips
    cases rest with
    | nil =>
      have read : (next cursor).1 = ⟨.endOfInput, place⟩ := by
        unfold next
        rw [skipped]
      have whole := skips.source
      rw [append_nil] at whole
      rw [read, show place = cursor.offset + gap.length from skips.offset, whole]
      exact .finish skips.isGap
    | cons first rest =>
      rw [next_of_skipped skipped] at isEnd
      exact absurd isEnd (lexeme_ne_endOfInput first rest)

theorem staysOpen_of_string? (read : string? src = none) : StaysOpen src := by
  induction src using string?.induct with
  | case1 => exact .nil
  | case2 byte rest isQuote =>
    rw [string?_quote rest isQuote] at read
    cases read
  | case3 byte notQuote isEscape =>
    rw [beq_iff_eq] at isEscape
    exact isEscape ▸ .cut
  | case4 byte notQuote isEscape _ _ ih =>
    rw [string?_escape _ notQuote isEscape] at read
    rw [beq_iff_eq] at isEscape
    exact isEscape ▸ .escape (ih (Option.map_eq_none_iff.mp read))
  | case5 byte rest notQuote notEscape ih =>
    rw [string?_plain _ notQuote notEscape] at read
    rw [beq_iff_eq] at notQuote notEscape
    exact .plain notQuote notEscape (ih (Option.map_eq_none_iff.mp read))

variable {rest : Text} {fault : LexicalFault}

theorem stuck_of_integerLexeme (areDigits : AreDigits digits)
    (ends : ∀ byte ∈ rest.head?, isDigit byte = false)
    (illegal : integerLexeme digits = .illegal fault) : Stuck fault (digits ++ rest) := by
  unfold integerLexeme at illegal
  dsimp only at illegal
  split at illegal
  · cases illegal
  · next great =>
    cases illegal
    exact ⟨digits, rest, areDigits, rfl, ends, Nat.le_of_not_lt great⟩

theorem stuck_of_number (digit : isDigit first)
    (illegal : (number (first :: rest)).1 = .illegal fault) : Stuck fault (first :: rest) := by
  have areDigits : AreDigits ((first :: rest).takeWhile isDigit) :=
    ⟨by rw [takeWhile_cons_of_pos digit]; exact nofun, all_takeWhile _ _⟩
  have ends := head_dropWhile isDigit (first :: rest)
  have whole : (first :: rest).takeWhile isDigit ++ (first :: rest).dropWhile isDigit =
      first :: rest := takeWhile_append_dropWhile
  unfold number at illegal
  dsimp only at illegal
  rw [← whole]
  split at illegal
  · next none =>
    rw [none] at ends ⊢
    exact stuck_of_integerLexeme areDigits ends illegal
  · next following after some =>
    rw [some] at ends ⊢
    split at illegal
    · next point =>
      rw [beq_iff_eq] at point
      subst point
      have fraction := all_takeWhile isDigit after
      have split : after = after.takeWhile isDigit ++ after.dropWhile isDigit :=
        takeWhile_append_dropWhile.symm
      rw [split]
      split at illegal
      · next spoiled =>
        cases illegal
        refine ⟨_, _, areDigits, .inr ⟨_, fraction, rfl, ?_⟩⟩
        cases front : (after.dropWhile isDigit).head? with
        | none => rw [front] at spoiled; cases spoiled
        | some byte =>
          rw [front, spoilsNumber, Bool.or_eq_true, beq_iff_eq] at spoiled
          exact ⟨byte, rfl, spoiled⟩
      · unfold floatLexeme at illegal
        dsimp only at illegal
        split at illegal
        · cases illegal
        · next tooGreat =>
          cases illegal
          exact ⟨_, _, _, areDigits, fraction, rfl, tooGreat⟩
    · split at illegal
      · next letter =>
        cases illegal
        exact ⟨_, _, areDigits, .inl ⟨rfl, following, rfl, letter⟩⟩
      · exact stuck_of_integerLexeme areDigits ends illegal

theorem not_mem_spelling (noMark : mark? first following = none) (sym : Mark) :
    first ∉ sym.spelling := by
  have starts : ∀ mark ∈ Mark.all, ∀ byte ∈ mark.spelling, (mark? byte none).isSome := by
    decide +kernel
  intro mem
  have found := starts sym (by cases sym <;> decide) first mem
  unfold mark? at noMark found
  cases paired : pairedMarks.find? fun entry => Text.byte entry.1 == first with
  | none =>
    rw [paired] at noMark found
    rw [noMark] at found
    cases found
  | some entry =>
    rw [paired] at noMark
    dsimp only at noMark
    split at noMark <;> cases noMark

theorem stuck_of_lexeme (notBlank : isBlank first = false)
    (illegal : (lexeme first rest).1 = .illegal fault) : Stuck fault (first :: rest) := by
  unfold lexeme at illegal
  split at illegal
  · unfold wordLexeme at illegal
    dsimp only at illegal
    split at illegal <;> cases illegal
  · next notLetter =>
    split at illegal
    · next digit => exact stuck_of_number digit illegal
    · next notDigit =>
      split at illegal
      · next quote =>
        rw [beq_iff_eq] at quote
        subst quote
        split at illegal
        · cases illegal
        · next unclosed =>
          cases illegal
          exact ⟨rest, rfl, staysOpen_of_string? unclosed⟩
      · next notQuote =>
        split at illegal
        · cases illegal
        · next noMark =>
          cases illegal
          refine ⟨rfl, ?_, by simpa using notQuote, notBlank, not_mem_spelling noMark⟩
          simp [isNameByte, notLetter, notDigit]

/-- Where reading stops with a fault, the source before that place has the tokens read so
far, and what stands there explains the fault. -/
theorem Lexes.stuck (lexes : Lexes (.start src) pre final)
    (illegal : (next final).1 = ⟨.illegal fault, place⟩) :
    place < src.length ∧ tokenize (src.take place) = (pre ++ [⟨.endOfInput, place⟩], none) ∧
      Stuck fault (src.drop place) := by
  obtain ⟨gap, skips⟩ := (exists_skips final.rest final.offset).1
  obtain ⟨used, whole, counted, again⟩ := lexes.cuts
  cases skipped : skipBlanks false final.offset final.rest with
  | mk reached rest =>
    rw [skipped] at skips
    cases rest with
    | nil =>
      unfold next at illegal
      rw [skipped] at illegal
      cases illegal
    | cons first rest =>
      rw [next_of_skipped skipped, Token.mk.injEq] at illegal
      obtain ⟨isIllegal, rfl⟩ := illegal
      have split : src = (used ++ gap) ++ first :: rest := by
        rw [append_assoc, ← skips.source]
        exact whole
      have measured : reached = (used ++ gap).length := by
        have isOffset : final.offset = 0 + used.length := counted
        have isPlace : reached = final.offset + gap.length := skips.offset
        rw [length_append]
        omega
      have alike : EndsLike gap final.rest := by
        rw [skips.source]
        cases gap with
        | nil => exact .inr nofun
        | cons => exact .inl rfl
      have isEnd := next_of_isGap skips.isGap final.offset
      rw [← show reached = final.offset + gap.length from skips.offset] at isEnd
      have read := Lexes.tokenize_eq (again gap alike) isEnd
      obtain ⟨notBlank, _⟩ := front_of_skipBlanks (skips.rest reached)
      rw [split, measured, take_left, drop_left, ← measured]
      refine ⟨?_, read, stuck_of_lexeme notBlank isIllegal⟩
      simp only [measured, length_append, length_cons]
      omega

/-- The tokens of every source tile it up to the end of input, or up to the fault that is
reported. -/
theorem tokenize_tiles (source : Text) :
    match tokenize source with
    | (tokens, none) =>
        Tiles 0 source tokens ∧ (tokens.map Token.offset).Pairwise (· < ·) ∧
          tokens.getLast? = some ⟨.endOfInput, source.length⟩
    | (tokens, some (place, fault)) =>
        place < source.length ∧
          tokenize (source.take place) = (tokens ++ [⟨.endOfInput, place⟩], none) ∧
          Stuck fault (source.drop place) := by
  obtain ⟨before, final, lexes, stops⟩ := exists_lexes_start source
  have read := lexes.tokens_eq stops
  cases last : (next final).1 with
  | mk meant place =>
    rw [last] at stops
    cases meant with
    | endOfInput =>
      rw [lexes.tokenize_eq last]
      have tiles := lexes.tiles (tiles_of_endOfInput (by rw [last]))
      rw [last] at tiles
      exact ⟨tiles, tiles.ascending, Nat.zero_add source.length ▸ tiles.getLast?_eq⟩
    | illegal fault =>
      have faulty : tokenize source = (before, some (place, fault)) := by
        unfold tokenize
        dsimp only
        rw [read, last, List.getLast?_concat, List.dropLast_concat]
      rw [faulty]
      exact lexes.stuck last
    | _ => cases stops

end HostScript.Lexer
