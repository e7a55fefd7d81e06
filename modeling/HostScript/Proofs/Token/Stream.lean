import Mathlib
import HostScript.Token.Lexer

namespace HostScript

open List

/-!
# Token streams

Every token but the end of input takes at least one byte.
-/

def Lexeme.stops : Lexeme → Bool
  | .endOfInput | .illegal _ => true
  | _ => false

/-- Ordinary tokens up to one that stops. -/
structure Token.Stream (tokens before : List Token) (last : Token) : Prop where
  split : tokens = before ++ [last]
  ordinary : ∀ token ∈ before, token.lexeme.stops = false
  stops : last.lexeme.stops = true

namespace Lexer

theorem suffix_skipBlanks (comment : Bool) (off : Nat) (src : Text) :
    (skipBlanks comment off src).rest <:+ src := by
  induction src generalizing comment off with
  | nil => cases comment <;> exact suffix_rfl
  | cons _ _ ih =>
    cases comment with
    | true => exact (ih _ _).trans (suffix_cons _ _)
    | false =>
      unfold skipBlanks
      split
      · exact (ih _ _).trans (suffix_cons _ _)
      · split
        · exact (ih _ _).trans (suffix_cons _ _)
        · exact suffix_rfl

theorem length_takeWhile_pos (rest : Text) (begins : holds first) :
    0 < ((first :: rest).takeWhile holds).length := by
  rw [takeWhile_cons_of_pos begins, length_cons]
  exact Nat.succ_pos _

theorem number_pos (rest : Text) (begins : isDigit first) : 0 < (number (first :: rest)).2 := by
  have digits := length_takeWhile_pos rest begins
  unfold number
  split
  · exact digits
  · split
    · split <;> (dsimp only; omega)
    · split <;> exact digits

theorem mark?_pos {following mark length}
    (found : mark? first following = some (mark, length)) : 0 < length := by
  unfold mark? at found
  split at found
  · split at found <;> cases found <;> decide
  · obtain ⟨_, _, same⟩ := Option.map_eq_some_iff.mp found
    cases same
    decide

theorem lexeme_pos (first : UInt8) (rest : Text) : 0 < (lexeme first rest).2 := by
  unfold lexeme
  split
  · next letter => exact length_takeWhile_pos rest (by simp [isNameByte, letter])
  · split
    · next digit => exact number_pos rest digit
    · split
      · split <;> exact Nat.succ_pos _
      · split
        · next found => exact mark?_pos found
        · exact Nat.one_pos

theorem next_length_lt (cursor : Cursor) (goesOn : (next cursor).1.lexeme ≠ .endOfInput) :
    (next cursor).2.rest.length < cursor.rest.length := by
  have shorter := (suffix_skipBlanks false cursor.offset cursor.rest).length_le
  unfold next at goesOn ⊢
  dsimp only at goesOn ⊢
  split
  · next empty =>
    rw [empty] at goesOn
    exact absurd rfl goesOn
  · next first rest front =>
    have takes := lexeme_pos first rest
    rw [front, length_cons] at shorter
    simp only [Cursor.skip, front, length_drop, length_cons]
    omega

theorem next_endOfInput {cursor} (empty : cursor.rest = []) :
    (next cursor).1.lexeme = .endOfInput := by
  unfold next
  rw [empty]
  rfl

/-- Ordinary tokens that are read one after the other from one place up to another. -/
inductive Lexes : Cursor → List Token → Cursor → Prop where
  | done {cursor} : Lexes cursor [] cursor
  | further {cursor after final token tokens} (read : next cursor = (token, after))
      (ordinary : token.lexeme.stops = false) (others : Lexes after tokens final) :
      Lexes cursor (token :: tokens) final

theorem further_steps {cursor after token} (read : next cursor = (token, after))
    (ordinary : token.lexeme.stops = false) (enough : cursor.rest.length ≤ steps) :
    token.lexeme ≠ .endOfInput ∧ ∃ fewer, steps = fewer + 1 ∧ after.rest.length ≤ fewer := by
  have goesOn : token.lexeme ≠ .endOfInput := by
    intro isEnd
    rw [isEnd] at ordinary
    cases ordinary
  have shorter := next_length_lt cursor (by rwa [read])
  rw [read] at shorter
  dsimp only at shorter
  exact ⟨goesOn, steps - 1, by omega, by omega⟩

namespace Lexes

variable {cursor final : Cursor} {tokens : List Token}

theorem trans (first : Lexes cursor tokens final) (second : Lexes final others last) :
    Lexes cursor (tokens ++ others) last := by
  induction first with
  | done => exact second
  | further read ordinary _ ih =>
    exact .further read ordinary (ih second)

theorem ordinary (lexes : Lexes cursor tokens final) :
    ∀ token ∈ tokens, token.lexeme.stops = false := by
  induction lexes with
  | done => exact nofun
  | further _ ordinary _ ih =>
    exact forall_mem_cons.mpr ⟨ordinary, ih⟩

theorem split (lexes : Lexes cursor (front ++ back) final) :
    ∃ mid, Lexes cursor front mid ∧ Lexes mid back final := by
  induction front generalizing cursor with
  | nil => exact ⟨cursor, .done, lexes⟩
  | cons _ front ih =>
    cases lexes with
    | further read ordinary others =>
      obtain ⟨mid, first, second⟩ := ih others
      exact ⟨mid, .further read ordinary first, second⟩

theorem legalStream_eq (lexes : Lexes cursor tokens final)
    (stops : (next final).1.lexeme.stops) (enough : cursor.rest.length ≤ steps) :
    legalStream steps cursor = tokens ++ [(next final).1] := by
  induction lexes generalizing steps with
  | @done cursor =>
    cases steps with
    | zero => rfl
    | succ steps =>
      unfold legalStream
      dsimp only
      split
      · rfl
      · rfl
      · next goesOn legal =>
        cases same : (next cursor).1.lexeme with
        | endOfInput => exact absurd same goesOn
        | illegal fault => exact absurd same (legal fault)
        | _ => rw [same] at stops; cases stops
  | @further cursor _ final _ tokens read ordinary _ ih =>
    obtain ⟨goesOn, _, rfl, remaining⟩ := further_steps read ordinary enough
    unfold legalStream
    simp only [read]
    split
    · next isEnd => exact absurd isEnd goesOn
    · next isIllegal => rw [isIllegal] at ordinary; cases ordinary
    · rw [ih stops remaining, cons_append]

theorem stream_eq (lexes : Lexes cursor tokens final) (enough : cursor.rest.length ≤ steps) :
    ∃ others, stream steps cursor = tokens ++ (next final).1 :: others ∧
      ((next final).1.lexeme = .endOfInput → others = []) := by
  induction lexes generalizing steps with
  | @done cursor =>
    cases steps with
    | zero => exact ⟨[], rfl, fun _ => rfl⟩
    | succ steps =>
      by_cases isEnd : (next cursor).1.lexeme = .endOfInput
      · exact ⟨[], if_pos isEnd, fun _ => rfl⟩
      · exact ⟨_, if_neg isEnd, fun ended => absurd ended isEnd⟩
  | @further cursor _ final _ tokens read ordinary _ ih =>
    obtain ⟨goesOn, _, rfl, remaining⟩ := further_steps read ordinary enough
    obtain ⟨others, rest, ended⟩ := ih remaining
    refine ⟨others, ?_, ended⟩
    unfold stream
    simp only [read, if_neg goesOn, rest, cons_append]

end Lexes

theorem exists_lexes {cursor} (enough : cursor.rest.length ≤ steps) :
    ∃ tokens final, Lexes cursor tokens final ∧ (next final).1.lexeme.stops := by
  induction steps generalizing cursor with
  | zero =>
    have isEnd := next_endOfInput (eq_nil_of_length_eq_zero (Nat.le_zero.mp enough))
    exact ⟨[], cursor, .done, by rw [isEnd]; rfl⟩
  | succ steps ih =>
    cases ordinary : (next cursor).1.lexeme.stops with
    | true => exact ⟨[], cursor, .done, ordinary⟩
    | false =>
      have shorter := next_length_lt cursor (fun isEnd => by rw [isEnd] at ordinary; cases ordinary)
      obtain ⟨tokens, final, lexes, stops⟩ := ih (show (next cursor).2.rest.length ≤ steps by omega)
      exact ⟨_, final, .further rfl ordinary lexes, stops⟩

section

variable {final : Cursor}

theorem Lexes.tokens_eq (lexes : Lexes (.start src) pre final)
    (stops : (next final).1.lexeme.stops) : tokens src = pre ++ [(next final).1] :=
  lexes.legalStream_eq stops (Nat.le_refl _)

theorem Lexes.all_eq (lexes : Lexes (.start src) pre final) :
    ∃ others, stream src.length (.start src) = pre ++ (next final).1 :: others ∧
      ((next final).1.lexeme = .endOfInput → others = []) :=
  lexes.stream_eq (Nat.le_refl _)

end

theorem exists_lexes_start (src : Text) :
    ∃ pre final, Lexes (.start src) pre final ∧ (next final).1.lexeme.stops :=
  exists_lexes (Nat.le_refl _)

theorem tokens_stream (src : Text) : ∃ pre last, Token.Stream (tokens src) pre last := by
  obtain ⟨pre, final, lexes, stops⟩ := exists_lexes_start src
  exact ⟨pre, (next final).1, lexes.tokens_eq stops, lexes.ordinary, stops⟩

theorem tokenize_eq_none_iff (stream : Token.Stream (tokens src) pre last) :
    (tokenize src).2 = none ↔ last.lexeme = .endOfInput := by
  have atEnd : (tokens src).getLast? = some last := by
    rw [stream.split, getLast?_concat]
  have stops := stream.stops
  unfold tokenize
  dsimp only
  rw [atEnd]
  obtain ⟨lexeme, _⟩ := last
  cases lexeme with
  | endOfInput => exact iff_of_true rfl rfl
  | illegal _ => exact iff_of_false nofun nofun
  | _ => cases stops

theorem tokenize_tokens (legal : (tokenize src).2 = none) : (tokenize src).1 = tokens src := by
  unfold tokenize at legal ⊢
  dsimp only at legal ⊢
  split at legal
  · cases legal
  · rfl

end Lexer

end HostScript
