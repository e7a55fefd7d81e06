import Mathlib
import HostScript.Cbor.Read

namespace HostScript.Cbor

open Item (encode encodeAll)
open List

/-!
# Items are read back

Whatever item is written, reading gives it back with what follows it, if its numbers fit their
heads and its collections are within the limits of reading.
-/

theorem length_bigEndian (size n : Nat) : (bigEndian size n).length = size := by
  induction size generalizing n with
  | zero => rfl
  | succ size ih => simp [bigEndian, ih]

/-- A number is read back from its bytes if there are enough of them. -/
theorem ofBigEndian_bigEndian (size : Nat) {n} (fits : n < 256 ^ size) :
    ofBigEndian (bigEndian size n) = n := by
  induction size generalizing n with
  | zero =>
    rw [Nat.pow_zero, Nat.lt_one_iff] at fits
    rw [fits]
    rfl
  | succ size ih =>
    have smaller : n / 256 < 256 ^ size := by
      rw [Nat.pow_succ] at fits
      omega
    have front := ih smaller
    unfold ofBigEndian at front ⊢
    unfold bigEndian
    rw [foldl_append, front, foldl_cons, foldl_nil]
    have lastByte : (n % 256).toUInt8.toNat = n % 256 := by
      rw [UInt8.toNat_ofNat', Nat.mod_mod]
    rw [lastByte]
    omega

theorem readNumber_bigEndian {size n} (fits : n < 256 ^ size) (rest : Text) :
    readNumber size (bigEndian size n ++ rest) = .ok (n, rest) := by
  have digits : (bigEndian size n ++ rest).take size = bigEndian size n :=
    take_left' (length_bigEndian size n)
  have others : (bigEndian size n ++ rest).drop size = rest := drop_left' (length_bigEndian size n)
  unfold readNumber
  rw [digits, if_pos (length_bigEndian size n), others, ofBigEndian_bigEndian size fits]

theorem first_split {major info} (isMajor : major < 8) (isInfo : info < 32) :
    (major * 32 + info).toUInt8.toNat / 32 = major ∧
      (major * 32 + info).toUInt8.toNat % 32 = info := by
  have whole : (major * 32 + info).toUInt8.toNat = major * 32 + info := by
    rw [UInt8.toNat_ofNat', Nat.mod_eq_of_lt (by omega)]
  rw [whole]
  omega

theorem readHead_small {major n} (isMajor : major < 8) (small : n < 24) (rest : Text) :
    readHead (head major n ++ rest) = .ok ({ major, info := n, value := some n }, rest) := by
  obtain ⟨isFirst, isRest⟩ := first_split isMajor (show n < 32 by omega)
  unfold head
  rw [if_pos small, singleton_append]
  unfold readHead
  simp only [isFirst, isRest, if_pos small]

/-- The parts of the first byte that stand before a number of bytes, with the count. -/
def IsSized (info size : Nat) : Prop :=
  (info = 24 ∧ size = 1) ∨ (info = 25 ∧ size = 2) ∨ (info = 26 ∧ size = 4) ∨ (info = 27 ∧ size = 8)

theorem readHead_sized {major info size n} (isMajor : major < 8) (isSized : IsSized info size)
    (unlike : ¬ (major = 7 ∧ size = 1)) (fits : n < 256 ^ size) (rest : Text) :
    readHead ((major * 32 + info).toUInt8 :: (bigEndian size n ++ rest)) =
      .ok ({ major, info, value := some n }, rest) := by
  have isInfo : info < 32 := by
    unfold IsSized at isSized
    omega
  obtain ⟨isFirst, isRest⟩ := first_split isMajor isInfo
  unfold readHead
  simp only [isFirst, isRest]
  rcases isSized with ⟨rfl, rfl⟩ | ⟨rfl, rfl⟩ | ⟨rfl, rfl⟩ | ⟨rfl, rfl⟩ <;>
    simp [readNumber_bigEndian fits, bind, Except.bind, pure, Except.pure]
  exact fun isSeven => absurd ⟨isSeven, rfl⟩ unlike

theorem readHead_head {major n} (isMajor : major < 7) (fits : n < 2 ^ 64) (rest : Text) :
    ∃ info, readHead (head major n ++ rest) = .ok ({ major, info, value := some n }, rest) := by
  have sized (info size : Nat) (isSized : IsSized info size) (enough : n < 256 ^ size) :
      ∃ info', readHead ((major * 32 + info).toUInt8 :: bigEndian size n ++ rest) =
        .ok ({ major, info := info', value := some n }, rest) :=
    ⟨info, readHead_sized (by omega) isSized (by omega) enough rest⟩
  by_cases small : n < 24
  · exact ⟨n, readHead_small (by omega) small rest⟩
  unfold head
  simp only [if_neg small, Nat.pow_eq]
  split
  · next isByte => exact sized 24 1 (by simp [IsSized]) isByte
  split
  · next isShort => exact sized 25 2 (by simp [IsSized]) isShort
  split
  · next isWord => exact sized 26 4 (by simp [IsSized]) isWord
  · exact sized 27 8 (by simp [IsSized]) fits

theorem readHead_float {width bits} (fits : bits < 256 ^ width.size) (rest : Text) :
    ∃ info, readHead ((Item.float width bits).encode ++ rest) =
          .ok ({ major := 7, info, value := some bits }, rest) ∧
        simpleItem info bits = .float width bits := by
  cases width with
  | half => exact ⟨25, @readHead_sized 7 25 2 bits (by decide) (by simp [IsSized]) (by decide)
      fits rest, rfl⟩
  | single => exact ⟨26, @readHead_sized 7 26 4 bits (by decide) (by simp [IsSized]) (by decide)
      fits rest, rfl⟩
  | double => exact ⟨27, @readHead_sized 7 27 8 bits (by decide) (by simp [IsSized]) (by decide)
      fits rest, rfl⟩

theorem readContent_append {content} (short : content.length < 2 ^ 63) (rest : Text) :
    readContent content.length (content ++ rest) = .ok (content, rest) := by
  unfold readContent
  simp only [Nat.pow_eq, Nat.not_le.mpr short, ↓reduceIte, take_left, drop_left]

namespace Item

mutual

/--
An item that can be read back at a depth of nesting: it has no tags, its numbers fit their
heads, and its collections are within the limits.
-/
def IsReadable (depth : Nat) : Item → Prop
  | .unsigned value | .negative value => value < 2 ^ 64
  | .bytes content | .text content => content.length < 2 ^ 63
  | .array items => depth < maxDepth ∧ items.length ≤ maxMembers ∧ AreReadable (depth + 1) items
  | .map entries =>
    depth < maxDepth ∧ entries.length % 2 = 0 ∧ entries.length / 2 ≤ maxMembers ∧
      AreReadable (depth + 1) entries
  | .tagged _ _ => False
  | .simple value => value < 24
  | .float width bits => bits < 256 ^ width.size

def AreReadable (depth : Nat) : List Item → Prop
  | [] => True
  | item :: rest => item.IsReadable depth ∧ AreReadable depth rest

end

theorem areReadable_iff {depth items} :
    AreReadable depth items ↔ ∀ item ∈ items, item.IsReadable depth := by
  induction items with
  | nil => simp [AreReadable]
  | cons item _ ih => simp [AreReadable, ih]

end Item

theorem length_head_pos (major n : Nat) : 0 < (head major n).length := by
  unfold head
  split_ifs <;> simp

theorem Item.length_encode_pos (item : Item) : 0 < item.encode.length := by
  cases item with
  | float width _ => cases width <;> simp [encode]
  | unsigned value | negative value | simple value => exact length_head_pos _ _
  | bytes content | text content | array items | map entries | tagged tag content =>
    rw [encode, length_append]
    exact Nat.add_pos_left (length_head_pos _ _) _

mutual

theorem readItem_encode {bound depth} (tagged : Bool) (item : Item)
    (isReadable : item.IsReadable depth) (enough : 2 * item.encode.length ≤ bound + 1)
    (rest : Text) : readItem bound depth tagged (item.encode ++ rest) = .ok (item, rest) := by
  have filled := item.length_encode_pos
  obtain _ | bound := bound
  · omega
  cases item with
  | unsigned value =>
    obtain ⟨info, reads⟩ := readHead_head (show 0 < 7 by decide) isReadable rest
    simp [readItem, encode, reads, bind, Except.bind, pure, Except.pure]
  | negative value =>
    obtain ⟨info, reads⟩ := readHead_head (show 1 < 7 by decide) isReadable rest
    simp [readItem, encode, reads, bind, Except.bind, pure, Except.pure]
  | bytes content =>
    obtain ⟨info, reads⟩ := readHead_head (show 2 < 7 by decide)
      (Nat.lt_trans isReadable (by decide)) (content ++ rest)
    simp [readItem, encode, reads, bind, Except.bind, pure, Except.pure,
      readContent_append isReadable]
  | text content =>
    obtain ⟨info, reads⟩ := readHead_head (show 3 < 7 by decide)
      (Nat.lt_trans isReadable (by decide)) (content ++ rest)
    simp [readItem, encode, reads, bind, Except.bind, pure, Except.pure,
      readContent_append isReadable]
  | array items =>
    obtain ⟨shallow, few, areReadable⟩ := isReadable
    obtain ⟨info, reads⟩ := @readHead_head 4 items.length (by decide)
      (Nat.lt_of_le_of_lt few (by decide)) (encodeAll items ++ rest)
    have room : 2 * (encodeAll items).length ≤ bound := by
      have := length_head_pos 4 items.length
      simp only [encode, length_append] at enough
      omega
    have contents := readItems_encodeAll items areReadable room rest
    have fits : ¬(maxDepth < depth + 1 ∨ maxMembers < items.length) := by omega
    simp only [readItem, encode, append_assoc, reads, bind, Except.bind, pure,
      Except.pure, if_neg fits, if_true, contents, collection]
  | map entries =>
    obtain ⟨shallow, _, few, areReadable⟩ := isReadable
    obtain ⟨info, reads⟩ := @readHead_head 5 (entries.length / 2) (by decide)
      (Nat.lt_of_le_of_lt few (by decide)) (encodeAll entries ++ rest)
    have room : 2 * (encodeAll entries).length ≤ bound := by
      have := length_head_pos 5 (entries.length / 2)
      simp only [encode, length_append] at enough
      omega
    have contents := readItems_encodeAll entries areReadable room rest
    have whole : 2 * (entries.length / 2) = entries.length := by omega
    have fits : ¬(maxDepth < depth + 1 ∨ maxMembers < entries.length / 2) := by omega
    simp only [readItem, encode, append_assoc, reads, bind, Except.bind, pure,
      Except.pure, if_neg fits, Nat.reduceEqDiff, if_false, whole, contents, collection]
  | tagged _ content => exact absurd isReadable id
  | simple value =>
    have isSmall : value < 24 := isReadable
    have reads := readHead_small (show 7 < 8 by decide) isSmall rest
    have isSimple : simpleItem value value = .simple value := by
      unfold simpleItem
      rw [if_neg (by omega), if_neg (by omega), if_neg (by omega)]
    simp [readItem, encode, reads, bind, Except.bind, pure, Except.pure, isSimple]
  | float _ _ =>
    obtain ⟨info, reads, isFloat⟩ := readHead_float isReadable rest
    simp [readItem, reads, bind, Except.bind, pure, Except.pure, isFloat]

theorem readItems_encodeAll {bound depth} (items : List Item)
    (areReadable : Item.AreReadable depth items)
    (enough : 2 * (encodeAll items).length ≤ bound) (rest : Text) :
    readItems bound depth items.length (encodeAll items ++ rest) = .ok (items, rest) := by
  cases items with
  | nil => simp [readItems, encodeAll]
  | cons item following =>
    have filled := item.length_encode_pos
    simp only [encodeAll, length_append] at enough
    obtain _ | bound := bound
    · omega
    have first := readItem_encode false item areReadable.1
      (show 2 * item.encode.length ≤ bound + 1 by omega) (encodeAll following ++ rest)
    have others := readItems_encodeAll following areReadable.2
      (show 2 * (encodeAll following).length ≤ bound by omega) rest
    simp [readItems, encodeAll, first, others, bind, Except.bind, pure, Except.pure]

end

theorem read_encode {item} (isReadable : item.IsReadable 0) : read item.encode = .ok item := by
  have filled : item.encode.isEmpty = false := by
    rw [isEmpty_eq_false_iff]
    exact ne_nil_of_length_pos item.length_encode_pos
  have reads := @readItem_encode (2 * item.encode.length + 2) 0 false item isReadable (by omega) []
  rw [append_nil] at reads
  unfold read
  rw [filled, reads]
  rfl

end HostScript.Cbor
