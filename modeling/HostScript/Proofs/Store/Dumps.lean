import HostScript.Proofs.Store.Persisted
import HostScript.Store.Snapshot
import HostScript.Proofs.Token.Writing

namespace HostScript.Json

open List

/-!
# JSON texts

The texts that JSON allows for strings, numbers without exponent, values and objects.
-/

/-- A text that may stand between the quotes of a string. -/
inductive IsContent : Text → Prop
  | nil : IsContent []
  | character {codePoint : Nat} (isValid : codePoint.isValidChar) (visible : 0x20 ≤ codePoint)
      (notQuote : codePoint ≠ 34) (notSlash : codePoint ≠ 92) : IsContent (Rune.encode codePoint)
  | short {b} (isShort : isShortEscape b = true) : IsContent [92, b]
  | numbered {a b c d} (digits : [a, b, c, d].all fun digit => (Text.hexValue? digit).isSome) :
      IsContent [92, 117, a, b, c, d]
  | append {first second} (isFirst : IsContent first) (isSecond : IsContent second) :
      IsContent (first ++ second)

/-- A part of a number in front of a fraction: only zero starts with a zero. -/
def IsWhole (digits : Text) : Prop :=
  ∃ first rest, digits = first :: rest ∧ digits.all isDigit = true ∧ (first = 48 → rest = [])

/-- A number without sign and exponent. -/
inductive IsNumeral : Text → Prop
  | whole {digits} (whole : IsWhole digits) : IsNumeral digits
  | fraction {digits places} (whole : IsWhole digits) (nonempty : places ≠ [])
      (each : places.all isDigit = true) : IsNumeral (digits ++ 46 :: places)

/-- The text of a value that is no array and no object. -/
inductive IsValue : Text → Prop
  | null : IsValue "null"
  | bool (truth : Bool) : IsValue (Value.boolText truth)
  | number {numeral} (isNegative : Bool) (isNumeral : IsNumeral numeral) :
      IsValue (if isNegative then 45 :: numeral else numeral)
  | string {content} (isContent : IsContent content) : IsValue (34 :: (content ++ [34]))

/-- The text of a member of an object. -/
def IsMember (name text : Text) : Prop :=
  IsValue (quoted name) ∧ ∃ shown, text = quoted name ++ 58 :: shown ∧ IsValue shown

/-- The text of an object with members of these names. -/
def IsObject (names : List Text) (text : Text) : Prop :=
  ∃ members, text = 123 :: (Text.joinWith [44] members ++ [125]) ∧ Forall₂ IsMember names members

theorem isContent_flatMap {pieces : List α} {text : α → Text}
    (each : ∀ piece ∈ pieces, IsContent (text piece)) : IsContent (pieces.flatMap text) := by
  induction pieces with
  | nil => exact .nil
  | cons first _ ih =>
    rw [flatMap_cons]
    exact (each first mem_cons_self).append (ih fun piece mem => each piece (mem_cons_of_mem _ mem))

theorem isContent_plain (plain : t.all isPlain = true) : IsContent t := by
  rw [← flatMap_singleton' t]
  refine isContent_flatMap fun b mem => ?_
  have isPlain := all_eq_true.mp plain b mem
  simp only [Json.isPlain, Bool.and_eq_true, decide_eq_true_eq, bne_iff_ne,
    UInt8.le_iff_toNat_le, ne_eq, ← UInt8.toNat_inj] at isPlain
  obtain ⟨⟨⟨visible, below⟩, notQuote⟩, notSlash⟩ := isPlain
  have ascii : b.toNat < 0x80 := Nat.lt_succ_of_le below
  have alone : Rune.encode b.toNat = [b] := by
    rw [Rune.encode, if_pos ascii, Nat.toUInt8_eq, UInt8.ofNat_toNat]
  exact alone ▸ .character (.inl (by omega)) visible notQuote notSlash

theorem hexValue?_hexDigit (num : Nat) : (Text.hexValue? (Text.hexDigit num)).isSome = true := by
  have each : ∀ digit < 16, (Text.hexValue? (Text.byte (Nat.digitChar digit))).isSome = true := by
    decide
  exact each _ (Nat.mod_lt _ (by decide))

theorem isContent_escaped (rune : Rune) (isValid : rune.codePoint.isValidChar) :
    IsContent (escaped rune) := by
  have short : ∀ (text : Text) (b : UInt8), text = [92, b] ∧ isShortEscape b = true →
      IsContent text := by
    rintro _ b ⟨rfl, isShort⟩
    exact .short isShort
  cases rune with
  | stray => exact .character isValid (by decide) (by decide) (by decide)
  | scalar _ =>
    unfold escaped
    dsimp only
    split_ifs with h1 h2 h3 h4 h5 h6 h7 h8
    · exact short _ 34 (by decide +kernel)
    · exact short _ 92 (by decide +kernel)
    · exact short _ 98 (by decide +kernel)
    · exact short _ 102 (by decide +kernel)
    · exact short _ 110 (by decide +kernel)
    · exact short _ 114 (by decide +kernel)
    · exact short _ 116 (by decide +kernel)
    · unfold numbered
      rw [show Text.ofString "\\u" = [92, 117] by decide +kernel]
      exact .numbered (by simp only [all_cons, hexValue?_hexDigit, all_nil, Bool.and_self])
    · simp only [Bool.or_eq_true, decide_eq_true_eq, not_or] at h8
      exact .character isValid (by omega) h1 h2

/-- What is read from a text is never a surrogate. -/
theorem isValidChar_nextRune (first : UInt8) (rest : Text) :
    (Text.nextRune first rest).1.codePoint.isValidChar := by
  have byte : ∀ b : UInt8, b.toNat < 256 := UInt8.toNat_lt
  have two : ∀ {a b val}, Text.twoByte? a b = some val → val.isValidChar := by
    grind [Text.twoByte?]
  have three : ∀ {a b c val}, Text.threeByte? a b c = some val → val.isValidChar := by
    grind [Text.threeByte?]
  have four : ∀ {a b c d val}, Text.fourByte? a b c d = some val → val.isValidChar := by
    grind [Text.fourByte?]
  have replaced : Nat.isValidChar 0xfffd := by decide
  fun_cases Text.nextRune first rest <;>
    first
    | exact two ‹_›
    | exact three ‹_›
    | exact four ‹_›
    | exact replaced
    | exact .inl (Nat.lt_trans (byte first) (by decide))

theorem isValidChar_runesAfter (skip : Nat) (t : Text) :
    ∀ rune ∈ t.runesAfter skip, rune.codePoint.isValidChar := by
  fun_induction Text.runesAfter skip t with
  | case1 => nofun
  | case2 _ _ _ ih => exact ih
  | case3 first rest _ _ next ih =>
    rintro rune (_ | ⟨_, mem⟩)
    · have isValid := isValidChar_nextRune first rest
      rwa [next] at isValid
    · exact ih rune mem

/-- Any text is a string between its quotes. -/
theorem isValue_quoted (t : Text) : IsValue (quoted t) := by
  refine .string ?_
  split
  · next plain => exact isContent_plain plain
  · exact isContent_flatMap fun rune mem =>
      isContent_escaped rune (isValidChar_runesAfter 0 t rune mem)

end HostScript.Json

namespace HostScript

open List

/-!
# Dumps are JSON

A dump of finite numbers, texts and references is the text of an object with one member for each
name.
-/

namespace Text

/-- A positive number is written without a leading zero. -/
theorem decimal_cons (positive : 0 < n) : ∃ first rest, decimal n = first :: rest ∧ first ≠ 48 := by
  induction n using Nat.strongRecOn with
  | ind n ih =>
    by_cases small : n < 10
    · have each : ∀ digit < 10, 0 < digit → byte (Nat.digitChar digit) ≠ 48 := by decide
      refine ⟨_, [], ?_, each n small positive⟩
      rw [decimal, Nat.toDigits_of_lt_base small]
      rfl
    · obtain ⟨first, rest, same, nonzero⟩ := ih (n / 10) (by omega) (by omega)
      refine ⟨first, rest ++ [byte (Nat.digitChar (n % 10))], ?_, nonzero⟩
      rw [decimal, Nat.toDigits_of_base_le (by decide) (by omega), map_append, ← cons_append]
      exact congrArg (· ++ _) same

theorem all_decimal (n : Nat) : (decimal n).all Json.isDigit = true :=
  all_eq_true.mpr fun _ mem => Lexer.isDigit_of_mem_decimal mem

theorem isWhole_decimal (n : Nat) : Json.IsWhole (decimal n) := by
  by_cases isZero : n = 0
  · subst isZero
    exact ⟨48, [], by decide, by decide, fun _ => rfl⟩
  · obtain ⟨first, rest, same, nonzero⟩ := decimal_cons (Nat.pos_of_ne_zero isZero)
    exact ⟨first, rest, same, all_decimal n, fun isZero => absurd isZero nonzero⟩

end Text

namespace Binary

theorem all_zeros (count : Nat) : (zeros count).all Json.isDigit = true :=
  all_eq_true.mpr fun _ mem => (eq_of_mem_replicate mem).symm ▸ by decide

theorem isNumeral_pointText (each : (first :: rest).all Json.isDigit = true) (nonzero : first ≠ 48)
    (point : Int) : Json.IsNumeral (pointText (first :: rest) point) := by
  have start : ∀ {others : Text}, others.all Json.isDigit = true →
      Json.IsWhole (first :: rest ++ others) := by
    intro others all
    refine ⟨first, rest ++ others, rfl, ?_, fun isZero => absurd isZero nonzero⟩
    rw [all_append, each, all]
    rfl
  unfold pointText
  split
  · have zero : Json.IsWhole [48] := ⟨48, [], rfl, by decide, fun _ => rfl⟩
    have all : (zeros (-point).toNat ++ first :: rest).all Json.isDigit = true := by
      rw [all_append, all_zeros, each]
      rfl
    rw [show Text.ofString "0." = [48] ++ [46] by cbv, append_assoc, append_assoc]
    exact .fraction zero (by simp) all
  · next _ =>
    dsimp only
    split
    · exact .whole (start (all_zeros _))
    · next longer =>
      have split := take_append_drop point.toNat (first :: rest)
      rw [← split, all_append, Bool.and_eq_true] at each
      refine .fraction ?_ ?_ each.2
      · obtain ⟨count, isCount⟩ : ∃ count, point.toNat = count + 1 := ⟨point.toNat - 1, by omega⟩
        rw [isCount] at each ⊢
        exact ⟨first, rest.take count, rfl, each.1, fun isZero => absurd isZero nonzero⟩
      · rw [ne_eq, drop_eq_nil_iff]
        exact longer

/-- A finite number is written as a number. -/
theorem exists_numeral {fmt : Format} (isNumber : fmt.isNaN bits = false)
    (finite : fmt.isInfinite bits = false) :
    ∃ numeral, Json.IsNumeral numeral ∧ fmt.text .positional bits =
      if fmt.isNegative bits then 45 :: numeral else numeral := by
  refine ⟨(fmt.shortest bits).text .positional, ?_, ?_⟩
  · unfold Digits.text
    split
    · rw [show Text.ofString "0" = [48] by cbv]
      exact .whole ⟨48, [], rfl, by decide, fun _ => rfl⟩
    · next nonzero =>
      obtain ⟨_, _, same, isFirst⟩ := Text.decimal_cons (Nat.pos_of_ne_zero nonzero)
      have each := Text.all_decimal (fmt.shortest bits).value
      dsimp only
      rw [same] at each ⊢
      exact isNumeral_pointText each isFirst _
  · unfold Format.text
    rw [isNumber, finite]
    rfl

end Binary

/-- A value is no floating point number that is infinite or not a number. -/
def Value.IsFinite : Value → Prop
  | .float kind bits =>
    kind.format.isNaN bits.toNat = false ∧ kind.format.isInfinite bits.toNat = false
  | _ => True

namespace Store

open Value

variable {vals : Entries Value}

/-- The number that a dump writes for a floating point number is as finite as that. -/
theorem finite_convert (kind : FloatKind) (bits : BitVec kind.width)
    (finite : (Value.float kind bits).IsFinite) :
    Binary.double.isNaN (kind.format.convert Binary.double bits.toNat) = false ∧
      Binary.double.isInfinite (kind.format.convert Binary.double bits.toNat) = false := by
  obtain ⟨_, _⟩ := finite
  simp only [Binary.Format.isNaN, Binary.Format.isInfinite, decide_eq_false_iff_not] at *
  have below : kind.format.unsigned bits.toNat < kind.format.infinity := by omega
  have stays : Binary.double.unsigned (kind.format.convert Binary.double bits.toNat) <
      Binary.double.infinity := by
    cases kind with
    | single =>
      have bounded := (Binary.convert_single_convert_double (toNat_lt .single bits) below).1
      exact Nat.lt_of_le_of_lt bounded (by decide)
    | double =>
      rwa [FloatKind.format, Binary.convert_double_double (toNat_lt .double bits) below]
  omega

theorem isValue_dumpValue (word : Value → Text) (finite : val.IsFinite) :
    Json.IsValue (dumpValue word val) := by
  cases val with
  | null => exact .null
  | bool truth => exact .bool truth
  | int kind bits =>
    show Json.IsValue (Text.integer _)
    cases integerValue kind bits with
    | ofNat n => exact .number false (.whole (Text.isWhole_decimal n))
    | negSucc n => exact .number true (.whole (Text.isWhole_decimal (n + 1)))
  | float kind bits =>
    obtain ⟨isNumber, isFinite⟩ := finite_convert kind bits finite
    obtain ⟨_, isNumeral, same⟩ := Binary.exists_numeral isNumber isFinite
    show Json.IsValue (Binary.double.text _ _)
    rw [same]
    exact .number _ isNumeral
  | string | type | array | object | host | state | sealed | address =>
    exact Json.isValue_quoted _

theorem dumpMembers_eq (word : Value → Text) {names}
    (each : ∀ name ∈ names, name ≠ [] ∧ ∃ val, vals.find? name = some val ∧ val.IsFinite) :
    ∃ texts, dumpMembers (.memory vals) word names = .ok texts ∧
      Forall₂ Json.IsMember names texts := by
  induction names with
  | nil => exact ⟨[], rfl, .nil⟩
  | cons name names ih =>
    obtain ⟨named, val, found, finite⟩ := each name mem_cons_self
    obtain ⟨texts, dumped, members⟩ := ih fun other mem => each other (mem_cons_of_mem _ mem)
    refine ⟨_ :: texts, ?_, .cons ⟨Json.isValue_quoted name, _, rfl, isValue_dumpValue word finite⟩
      members⟩
    simp only [dumpMembers, Store.get, found, isEmpty_eq_false_iff.mpr named, dumped]
    show Except.ok (Text.join [Json.quoted name, ":", dumpValue word val] :: texts) = _
    rw [show Text.ofString ":" = [58] by cbv]
    simp [Text.join]

end Store

theorem Entries.exists_of_mem_keys {entries : Entries α} (mem : name ∈ entries.keys) :
    ∃ val, entries.find? name = some val ∧ (name, val) ∈ entries := by
  induction entries with
  | nil => cases mem
  | cons entry _ ih =>
    obtain ⟨first, held⟩ := entry
    unfold find?
    by_cases same : name = first
    · rw [if_pos same]
      exact ⟨held, rfl, same ▸ mem_cons_self⟩
    · rw [if_neg same]
      obtain ⟨val, found, isEntry⟩ := ih ((mem_cons.mp mem).resolve_left same)
      exact ⟨val, found, mem_cons_of_mem _ isEntry⟩

/-- Finite values are dumped as an object with one member for each name. -/
theorem dump_is_object (values : Entries Value) (word : Value → Text)
    (named : [] ∉ values.keys) (finite : ∀ entry ∈ values, entry.2.IsFinite) :
    ∃ text, (Store.memory values).dump word = .ok text ∧ Json.IsObject values.keys text := by
  obtain ⟨texts, dumped, members⟩ :=
    Store.dumpMembers_eq word fun name mem => ⟨fun isEmpty => named (isEmpty ▸ mem),
      (Entries.exists_of_mem_keys mem).imp fun _ found => ⟨found.1, finite _ found.2⟩⟩
  refine ⟨_, ?_, texts, rfl, members⟩
  show (Store.dumpMembers (.memory values) word values.keys).bind _ = _
  rw [dumped, show Text.ofString "," = [44] by decide +kernel]
  rfl

/-- A negative fraction and a text with a stray byte between quotes. -/
def dumpable : Entries Value :=
  [([97], .single 0xbf000000), ([98], .string [34, 255, 34])]

theorem dumpable_is_object :
    ∃ text, (Store.memory dumpable).dump (fun _ => []) = .ok text ∧
      Json.IsObject [[97], [98]] text := by
  refine dump_is_object dumpable (fun _ => []) (by decide +kernel) ?_
  simp only [dumpable, mem_cons, not_mem_nil, or_false, forall_eq_or_imp, forall_eq]
  exact ⟨⟨by decide +kernel, by decide +kernel⟩, trivial⟩

/-- A value that is not a number makes a dump that cannot be read. -/
theorem noNumber_unreadable :
    ∃ text, (Store.memory [([97], .single 0x7fc00000)]).dump (fun _ => []) = .ok text ∧
      (Json.read? text).isNone = true := by
  refine ⟨Text.ofString "\x7b\"a\":NaN\x7d", by decide +kernel, by decide +kernel⟩

end HostScript
