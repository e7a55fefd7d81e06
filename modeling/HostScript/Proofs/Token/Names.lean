import HostScript.Binding.Basic
import HostScript.Proofs.Token.Writing

namespace HostScript

open List Lexer

/-!
# Names that scripts can write

A binding accepts the names that are read, each for itself, as one identifier.
-/

namespace Lexer

/-- Alone, the text is read as one identifier, which is all of it. -/
def IsName (text : Text) : Prop :=
  ∃ place, tokenize text = ([⟨.identifier text, 0⟩, ⟨.endOfInput, place⟩], none)

variable {name rest : Text}

theorem next_name (isIdentifier : name.isIdentifier) (isGap : IsGap false gap)
    (ends : ∀ byte ∈ rest.head?, isNameByte byte = false) (off : Nat) :
    next ⟨off, gap ++ (name ++ rest)⟩ =
      (⟨.identifier name, off + gap.length⟩, ⟨off + gap.length + name.length, rest⟩) := by
  cases name with
  | nil => cases isIdentifier
  | cons first more =>
    simp only [Text.isIdentifier, Bool.and_eq_true, all_eq_true] at isIdentifier
    obtain ⟨⟨letter, names⟩, notKeyword⟩ := isIdentifier
    obtain ⟨notBlank, notSlash⟩ := ne_blank_of_isNameByte
      (show isNameByte first by simp [isNameByte, letter])
    have skipped : skipBlanks false off (gap ++ (first :: more ++ rest)) =
        ⟨off + gap.length, first :: (more ++ rest)⟩ := by
      rw [isGap.skipBlanks]
      exact skipBlanks_of_front notBlank (fun slash => absurd slash notSlash) _
    have read : lexeme first (more ++ rest) = (.identifier (first :: more), more.length + 1) := by
      rw [lexeme_of_letter letter, (span_append names ends).1, wordLexeme,
        Option.isNone_iff_eq_none.mp notKeyword]
    rw [next_of_skipped skipped, read, ← cons_append, ← length_cons, drop_left]

theorem isName_of_isIdentifier (isIdentifier : name.isIdentifier) : IsName name := by
  have read : next ⟨0, name ++ []⟩ = _ := next_name isIdentifier .nil (by simp) 0
  rw [append_nil] at read
  exact ⟨_, Lexes.tokenize_eq (.further read rfl .done) rfl⟩

theorem head?_legalStream (steps : Nat) (cursor : Cursor) :
    (legalStream steps cursor).head? = some (next cursor).1 := by
  cases steps with
  | zero => rfl
  | succ steps =>
    unfold legalStream
    dsimp only
    split <;> rfl

/-- An identifier starts with a letter and goes on as long as letters and digits follow. -/
theorem lexeme_identifier (read : (lexeme first rest).1 = .identifier name) :
    isLetter first ∧ first :: rest.takeWhile isNameByte = name ∧ Keyword.ofText? name = none := by
  by_cases letter : isLetter first
  · rw [lexeme_of_letter letter, wordLexeme] at read
    split at read
    · cases read
    · next notKeyword =>
      cases read
      exact ⟨letter, rfl, notKeyword⟩
  · unfold lexeme at read
    rw [if_neg letter] at read
    split at read
    · unfold number integerLexeme floatLexeme at read
      dsimp only at read
      repeat' split at read
      all_goals cases read
    · split at read <;> split at read <;> cases read

theorem isIdentifier_of_isName (isName : IsName name) : name.isIdentifier := by
  obtain ⟨_, read⟩ := isName
  have front : (next (.start name)).1 = ⟨.identifier name, 0⟩ := by
    have all := tokenize_tokens (show (tokenize name).2 = none by rw [read])
    have front := head?_legalStream name.length (.start name)
    rw [← tokens, ← all, read] at front
    exact (Option.some.inj front).symm
  obtain ⟨gap, skips⟩ := (exists_skips name 0).1
  cases skipped : skipBlanks false 0 name with
  | mk place rest =>
    rw [skipped] at skips
    cases rest with
    | nil =>
      simp only [next, Cursor.start, skipped] at front
      cases front
    | cons first rest =>
      rw [Cursor.start, next_of_skipped skipped, Token.mk.injEq] at front
      obtain ⟨isIdentifier, rfl⟩ := front
      have noGap : gap = [] := by
        have atStart : 0 = 0 + gap.length := skips.offset
        exact eq_nil_of_length_eq_zero (by omega)
      obtain rfl : name = first :: rest := by
        have src := skips.source
        rwa [noGap] at src
      obtain ⟨letter, taken, notKeyword⟩ := lexeme_identifier isIdentifier
      have names := takeWhile_eq_self_iff.mp (tail_eq_of_cons_eq taken)
      simpa [Text.isIdentifier, letter, notKeyword] using names

end Lexer

namespace Binding

variable {binding changed : Binding} {name : Text} {symbol : Text → Symbol}

theorem add_invalid_iff :
    binding.add name symbol = .error (.cause (.invalidName (binding.mapping name))) ↔
      ¬(binding.mapping name).isIdentifier := by
  unfold add
  dsimp only
  split
  · next isIdentifier =>
    refine iff_of_false ?_ (not_not_intro isIdentifier)
    split <;> exact nofun
  · next invalid => exact iff_of_true rfl invalid

theorem find?_of_add (added : binding.add name symbol = .ok changed)
    (named : (symbol (binding.mapping name)).name = binding.mapping name) :
    changed.symbols.find? (binding.mapping name) =
      some (symbol (binding.mapping name)) := by
  unfold add SymbolTable.add at added
  dsimp only at added
  split at added
  · rw [named] at added
    split at added
    · next unknown =>
      split at unknown
      · cases unknown
      · next absent =>
        cases unknown
        cases added
        rw [Option.not_isSome_iff_eq_none] at absent
        unfold SymbolTable.find? at absent ⊢
        rw [find?_append, absent]
        simp [named]
    · cases added
  · cases added

end Binding

/-- What a binding accepts is found under its name, and the name is read as one identifier wherever
a script writes it. -/
theorem bindable_iff_isName :
    (∀ name : Text, name.isIdentifier = true ↔ IsName name) ∧
      ∀ (binding : Binding) (name : Text) (symbol : Text → Symbol),
        let mapped := binding.mapping name
        (binding.add name symbol = .error (.cause (.invalidName mapped)) ↔ ¬IsName mapped) ∧
          ∀ changed, binding.add name symbol = .ok changed →
            IsName mapped ∧
              ((symbol mapped).name = mapped →
                changed.symbols.find? mapped = some (symbol mapped)) ∧
              ∀ offset gap rest, IsGap false gap →
                (∀ byte ∈ rest.head?, isNameByte byte = false) →
                next ⟨offset, gap ++ (mapped ++ rest)⟩ =
                  (⟨.identifier mapped, offset + gap.length⟩,
                    ⟨offset + gap.length + mapped.length, rest⟩) := by
  have names : ∀ name : Text, name.isIdentifier = true ↔ IsName name :=
    fun name => ⟨isName_of_isIdentifier, isIdentifier_of_isName⟩
  refine ⟨names, ?_⟩
  intro binding name symbol mapped
  refine ⟨by rw [← names]; exact Binding.add_invalid_iff, ?_⟩
  intro changed added
  have isIdentifier : mapped.isIdentifier := by
    by_contra invalid
    rw [Binding.add_invalid_iff.mpr invalid] at added
    cases added
  exact ⟨(names _).mp isIdentifier, Binding.find?_of_add added,
    fun off _ _ isGap ends => next_name isIdentifier isGap ends off⟩

/-- A name with something prepended is taken in and can be written. -/
theorem prepended_isName :
    let changed : Binding :=
      { mapping := ([Text.byte 'm'] ++ ·)
        symbols := [.typeName [Text.byte 'm', Text.byte 'x'] .single] }
    Binding.add { mapping := changed.mapping } [Text.byte 'x'] (.typeName · .single) = .ok changed ∧
      IsName [Text.byte 'm', Text.byte 'x'] ∧
      next ⟨4, [32] ++ ([Text.byte 'm', Text.byte 'x'] ++ [Text.byte ';'])⟩ =
        (⟨.identifier [Text.byte 'm', Text.byte 'x'], 5⟩, ⟨7, [Text.byte ';']⟩) := by
  intro changed
  have isIdentifier : Text.isIdentifier [Text.byte 'm', Text.byte 'x'] = true := by decide +kernel
  have added : Binding.add { mapping := changed.mapping } [Text.byte 'x'] (.typeName · .single) =
      .ok changed := (if_pos isIdentifier).trans rfl
  obtain ⟨isName, _, read⟩ := (bindable_iff_isName.2 _ _ _).2 changed added
  exact ⟨added, isName, read 4 [32] _ (.blank rfl .nil) fun _ h => by cases h; rfl⟩

end HostScript
