import HostScript.Proofs.Token.Cut

namespace HostScript

open List

/-!
# Written tokens

A token is written as its bytes: a number in base ten, a string between quotes with a backslash
before every quote and backslash in it.
-/

/-- A string as it stands between quotes. -/
def Text.escaped : Text → Text
  | [] => []
  | byte :: rest =>
      if byte == Text.byte '"' || byte == Text.byte '\\' then
        Text.byte '\\' :: byte :: escaped rest
      else byte :: escaped rest

namespace Lexeme

def isWritable : Lexeme → Bool
  | .identifier name => name.isIdentifier
  | .integer value => value.toNat < Nat.pow 2 31
  | .string _ | .keyword _ | .mark _ => true
  | .endOfInput | .illegal _ | .float _ => false

def spelling : Lexeme → Text
  | .identifier name => name
  | .integer value => Text.decimal value.toNat
  | .string value => Text.byte '"' :: (value.escaped ++ [Text.byte '"'])
  | .keyword word => word.spelling
  | .mark symbol => symbol.spelling
  | .endOfInput | .illegal _ | .float _ => []

end Lexeme

namespace Lexer

/-- A lexeme that can be written. -/
structure Word where
  lexeme : Lexeme
  isWritable : lexeme.isWritable = true

/-- What stands between two tokens: blanks, then comments up to the ends of their lines, each
with blanks after it. -/
structure Gap where
  text : Text
  isGap : IsGap false text
  blank : ∃ byte rest, text = byte :: rest ∧ isBlank byte = true

/-- Tokens with gaps between them, and with or without a gap after the last one. -/
inductive Page where
  | empty
  | last (word : Word)
  | further (word : Word) (gap : Gap) (others : Page)

namespace Page

def written : Page → Text
  | .empty => []
  | .last word => word.lexeme.spelling
  | .further word gap others => word.lexeme.spelling ++ (gap.text ++ others.written)

def tokens : (offset : Nat) → Page → List Token
  | _, .empty => []
  | offset, .last word => [⟨word.lexeme, offset⟩]
  | offset, .further word gap others =>
      ⟨word.lexeme, offset⟩ ::
        tokens (offset + word.lexeme.spelling.length + gap.text.length) others

end Page

theorem byte_toNat_of_isDigit {digit} (isDigit : digit.isDigit) :
    (Text.byte digit).toNat = digit.toNat := by
  simp only [Char.isDigit, ge_iff_le, Bool.and_eq_true, decide_eq_true_eq, UInt32.le_iff_toNat_le]
    at isDigit
  have small : digit.toNat ≤ 57 := isDigit.2
  simp only [Text.byte, UInt8.toNat_ofNat']
  omega

theorem digitsValue_decimal (number : Nat) : digitsValue (Text.decimal number) = number := by
  unfold digitsValue Text.decimal
  rw [foldl_map]
  refine Eq.trans ?_ (Nat.ofDigitChars_toDigits (show 1 < 10 by decide) (Nat.le_refl 10))
  refine foldl_ext _ _ _ fun _ _ mem => ?_
  rw [byte_toNat_of_isDigit
    (Nat.isDigit_of_mem_toDigits (by decide) (Nat.le_refl 10) mem), Nat.mul_comm]
  rfl

theorem isDigit_of_mem_decimal {number byte} (mem : byte ∈ Text.decimal number) : isDigit byte := by
  obtain ⟨_, isMember, rfl⟩ := mem_map.mp mem
  have decimal := Nat.isDigit_of_mem_toDigits (by decide) (Nat.le_refl 10) isMember
  have same := byte_toNat_of_isDigit decimal
  simp only [Char.isDigit, ge_iff_le, Bool.and_eq_true, decide_eq_true_eq, UInt32.le_iff_toNat_le]
    at decimal
  simp only [isDigit, Bool.and_eq_true, decide_eq_true_eq, UInt8.le_iff_toNat_le, same]
  exact decimal

theorem string?_escaped (val : Text) :
    string? (val.escaped ++ [Text.byte '"']) = some (val, val.escaped.length + 1) := by
  induction val with
  | nil => exact string?_quote [] rfl
  | cons byte val ih =>
    unfold Text.escaped
    split
    · next special =>
      rw [cons_append, cons_append, string?_escape _ (by decide) rfl]
      have kept : unescape byte = byte := by
        rw [Bool.or_eq_true, beq_iff_eq, beq_iff_eq] at special
        rcases special with rfl | rfl <;> rfl
      simp only [ih, Option.map_some, kept, length_cons]
    · next plain =>
      rw [Bool.or_eq_true, not_or] at plain
      rw [cons_append, string?_plain _ plain.1 plain.2]
      simp only [ih, Option.map_some, length_cons]

/-- A text that is the bytes of one lexeme. -/
structure Spells (text : Text) (meant : Lexeme) : Prop where
  nonempty : ∃ first rest, text = first :: rest ∧ lexeme first rest = (meant, rest.length + 1)
  /-- No blank is taken from its front, and no comment starts there. -/
  front : ∀ place, skipBlanks false place text = ⟨place, text⟩

theorem ne_blank_of_isNameByte (isName : isNameByte byte) :
    isBlank byte = false ∧ byte ≠ Text.byte '/' := by
  constructor
  · refine Bool.eq_false_iff.mpr fun blank => ?_
    rw [not_of_isBlank isNameByte (by decide) blank] at isName
    cases isName
  · rintro rfl
    cases isName

theorem spells_word (letter : isLetter first) (names : ∀ byte ∈ rest, isNameByte byte) :
    Spells (first :: rest) (wordLexeme (first :: rest)) := by
  obtain ⟨notBlank, notSlash⟩ := ne_blank_of_isNameByte
    (show isNameByte first by simp [isNameByte, letter])
  refine ⟨⟨first, rest, rfl, ?_⟩, skipBlanks_of_front notBlank fun slash => absurd slash notSlash⟩
  rw [lexeme_of_letter letter, takeWhile_eq_self_iff.mpr names]

theorem spells_keyword (reserved : Keyword) : Spells reserved.spelling (.keyword reserved) := by
  have facts : ∀ word ∈ Keyword.all, (∃ first ∈ word.spelling.head?, isLetter first) ∧
      (∀ byte ∈ word.spelling.tail, isNameByte byte) ∧
      wordLexeme word.spelling = .keyword word := by decide +kernel
  obtain ⟨⟨first, atFront, letter⟩, names, meant⟩ := facts reserved (by cases reserved <;> decide)
  obtain ⟨_, same⟩ := head?_eq_some_iff.mp atFront
  rw [same] at names meant ⊢
  exact meant ▸ spells_word letter names

theorem spells_mark (sym : Mark) : Spells sym.spelling (.mark sym) := by
  have facts : ∀ mark ∈ Mark.all, ∃ first ∈ mark.spelling.head?,
      lexeme first mark.spelling.tail = (.mark mark, mark.spelling.tail.length + 1) ∧
        isBlank first = false ∧ mark.spelling.tail.head? ≠ some (Text.byte '/') := by
    decide +kernel
  obtain ⟨first, atFront, read, notBlank, noComment⟩ := facts sym (by cases sym <;> decide)
  obtain ⟨rest, same⟩ := head?_eq_some_iff.mp atFront
  rw [same] at read noComment ⊢
  exact ⟨⟨first, rest, rfl, read⟩, skipBlanks_of_front notBlank fun _ => noComment⟩

theorem spells_integer {val} (small : val.toNat < Nat.pow 2 31) :
    Spells (Text.decimal val.toNat) (.integer val) := by
  cases digits : Text.decimal val.toNat with
  | nil => exact absurd (map_eq_nil_iff.mp digits) Nat.toDigits_ne_nil
  | cons first rest =>
    have all : ∀ byte ∈ first :: rest, isDigit byte :=
      fun _ mem => isDigit_of_mem_decimal (digits ▸ mem)
    obtain ⟨digit, others⟩ := forall_mem_cons.mp all
    obtain ⟨notBlank, notSlash⟩ := ne_blank_of_isNameByte
      (show isNameByte first by simp [isNameByte, digit])
    refine ⟨⟨first, rest, rfl, ?_⟩, skipBlanks_of_front notBlank fun slash => absurd slash notSlash⟩
    have read : number (first :: (rest ++ [])) = _ :=
      number_integer digit others (by rintro _ ⟨⟩) rfl
    rw [append_nil] at read
    have meant : integerLexeme (first :: rest) = .integer val := by
      unfold integerLexeme
      rw [← digits, digitsValue_decimal]
      simp only [small, if_true, BitVec.ofNat_toNat, BitVec.setWidth_eq]
    have notLetter : ∀ number : Fin 256, isDigit ⟨⟨number⟩⟩ →
        ¬isLetter ⟨⟨number⟩⟩ := by decide +kernel
    unfold lexeme
    rw [if_neg (notLetter first.toBitVec.toFin digit), if_pos digit, read, meant]

theorem spells_string (val : Text) : Spells (Lexeme.string val).spelling (.string val) := by
  refine ⟨⟨Text.byte '"', _, rfl, ?_⟩, skipBlanks_of_front (by decide) fun slash => ?_⟩
  · unfold lexeme
    rw [if_neg (by decide), if_neg (by decide), if_pos (by decide), string?_escaped, length_append]
    rfl
  · exact absurd slash (by decide)

theorem spells_spelling (word : Word) : Spells word.lexeme.spelling word.lexeme := by
  obtain ⟨meant, writable⟩ := word
  cases meant with
  | endOfInput | illegal | float => cases writable
  | identifier name =>
    cases name with
    | nil => cases writable
    | cons first rest =>
      have isIdentifier : Text.isIdentifier (first :: rest) := writable
      simp only [Text.isIdentifier, Bool.and_eq_true, all_eq_true] at isIdentifier
      have spells := spells_word isIdentifier.1.1 isIdentifier.1.2
      unfold wordLexeme at spells
      rwa [Option.isNone_iff_eq_none.mp isIdentifier.2] at spells
  | keyword reserved => exact spells_keyword reserved
  | mark sym => exact spells_mark sym
  | integer val => exact spells_integer (of_decide_eq_true writable)
  | string val => exact spells_string val

theorem Spells.next (spells : Spells text meant) (ordinary : meant.stops = false)
    (isGap : IsGap false lead) (off : Nat) (ends : EndsBlank rest) :
    next ⟨off, lead ++ (text ++ rest)⟩ =
      (⟨meant, off + lead.length⟩, ⟨off + lead.length + text.length, rest⟩) := by
  obtain ⟨first, more, rfl, read⟩ := spells.nonempty
  -- Alone, the text is one token without a gap before it.
  have alone : Lexer.next ⟨0, first :: more⟩ = (⟨meant, 0⟩, ⟨0 + (more.length + 1), []⟩) := by
    have shown : Lexer.next ⟨0, first :: more⟩ = _ := next_of_skipped (spells.front 0)
    rw [shown, read]
    exact congrArg (fun left => (_, Cursor.mk _ left)) drop_length
  obtain ⟨gap, span, reads⟩ := exists_reads
    (show (Lexer.next ⟨0, first :: more⟩).1.lexeme.stops = false by rwa [alone])
  rw [alone] at reads
  have noGap : gap = [] := by
    have atStart : 0 = 0 + gap.length := reads.offset
    exact eq_nil_of_length_eq_zero (by omega)
  have isSpan : first :: more = span := by
    have src := reads.source
    rwa [noGap, nil_append, append_nil] at src
  rw [isSpan]
  exact reads.again isGap off rest (.inr ends)

theorem stops_of_isWritable (word : Word) : word.lexeme.stops = false := by
  obtain ⟨meant, writable⟩ := word
  cases meant <;> first | rfl | cases writable

theorem Page.lexes (page : Page) (isGap : IsGap false lead) (off : Nat) :
    ∃ final, Lexes ⟨off, lead ++ page.written⟩ (page.tokens (off + lead.length)) final ∧
      (Lexer.next final).1 = ⟨.endOfInput, off + lead.length + page.written.length⟩ := by
  induction page generalizing lead off with
  | empty =>
    exact ⟨_, .done, by rw [Page.written, append_nil]; exact next_of_isGap isGap off⟩
  | last word =>
    have read : Lexer.next ⟨off, lead ++ (word.lexeme.spelling ++ [])⟩ = _ :=
      (spells_spelling word).next (stops_of_isWritable word) isGap off nofun
    rw [append_nil] at read
    exact ⟨_, .further read (stops_of_isWritable word) .done, rfl⟩
  | further word gap others ih =>
    obtain ⟨_, _, starts, blank⟩ := gap.blank
    have ends : EndsBlank (gap.text ++ others.written) := by
      rw [starts]
      rintro _ ⟨⟩
      exact blank
    have read := (spells_spelling word).next (stops_of_isWritable word) isGap off ends
    obtain ⟨final, lexes, isEnd⟩ := ih gap.isGap (off + lead.length + word.lexeme.spelling.length)
    refine ⟨final, .further read (stops_of_isWritable word) lexes, isEnd.trans ?_⟩
    simp only [Page.written, length_append]
    congr 1
    omega

/-- Reading undoes writing: the tokens of a page, each at the place where it is written, and
the end of input are read from its bytes. -/
theorem tokenize_written (page : Page) :
    tokenize page.written = (page.tokens 0 ++ [⟨.endOfInput, page.written.length⟩], none) := by
  obtain ⟨_, lexes, isEnd⟩ := page.lexes .nil 0
  simp only [List.length_nil, Nat.zero_add] at isEnd
  exact lexes.tokenize_eq isEnd

end Lexer

end HostScript
