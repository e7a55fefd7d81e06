import HostScript.Proofs.Store.Basic
import HostScript.Proofs.Store.Persisted
import HostScript.Store.Snapshot

namespace HostScript

open List

/-!
# Snapshots are read back

A snapshot that is loaded into a memory puts there what can be persisted of the store that was
saved, and leaves all other names as they are.
-/

namespace Text

theorem compare_lt_trans (first : compare a b = .lt) (second : compare b c = .lt) :
    compare a c = .lt := by
  induction a generalizing b c with
  | nil =>
    cases c with
    | nil => cases b <;> cases second
    | cons => rfl
  | cons x a ih =>
    cases b with
    | nil => cases first
    | cons y b =>
      cases c with
      | nil => cases second
      | cons z c =>
        unfold compare at first second ⊢
        split at first
        · next below =>
          split at second
          · next above => rw [if_pos (UInt8.lt_trans below above)]
          · split at second
            · cases second
            · next notAbove notBelow =>
              have same : y = z := UInt8.le_antisymm
                (UInt8.not_lt.mp notBelow) (UInt8.not_lt.mp notAbove)
              rw [if_pos (same ▸ below)]
        · split at first
          · cases first
          · next notBelow notAbove =>
            have same : x = y := UInt8.le_antisymm
              (UInt8.not_lt.mp notAbove) (UInt8.not_lt.mp notBelow)
            subst same
            split at second
            · next above => rw [if_pos above]
            · split at second
              · cases second
              · next notLess notMore =>
                rw [if_neg notLess, if_neg notMore]
                exact ih first second

theorem compare_lt_of_not (differ : a ≠ b) (notLess : compare a b ≠ .lt) : compare b a = .lt := by
  induction a generalizing b with
  | nil =>
    cases b with
    | nil => exact absurd rfl differ
    | cons => exact absurd rfl notLess
  | cons x a ih =>
    cases b with
    | nil => rfl
    | cons y b =>
      unfold compare at notLess ⊢
      split at notLess
      · exact absurd rfl notLess
      · next notBelow =>
        split at notLess
        · next above => rw [if_pos above]
        · next notAbove =>
          have same : x = y := UInt8.le_antisymm
            (UInt8.not_lt.mp notAbove) (UInt8.not_lt.mp notBelow)
          subst same
          rw [if_neg notBelow, if_neg notBelow]
          exact ih (fun isSame => differ (isSame ▸ rfl)) notLess

end Text

namespace Entries

def IsAscending (entries : Entries α) : Prop :=
  entries.keys.Pairwise fun first second => Text.compare first second = .lt

variable {entries : Entries α}

theorem mem_of_find? (found : entries.find? key = some val) : (key, val) ∈ entries := by
  induction entries with
  | nil => cases found
  | cons entry _ ih =>
    obtain ⟨_, _⟩ := entry
    unfold find? at found
    split at found
    · next same =>
      cases found
      exact same ▸ mem_cons_self
    · exact mem_cons_of_mem _ (ih found)

theorem isSome_find? {entries : Entries α} : (entries.find? key).isSome ↔ key ∈ entries.keys := by
  induction entries with
  | nil => simp [find?, keys]
  | cons entry _ ih =>
    obtain ⟨first, _⟩ := entry
    unfold keys at ih ⊢
    by_cases same : key = first
    · simp [find?, same]
    · simp [find?, same, ih]

theorem mem_insert (isThere : entry ∈ entries.insert key val) :
    entry = (key, val) ∨ entry ∈ entries := by
  induction entries with
  | nil => exact .inl (mem_singleton.mp isThere)
  | cons other _ ih =>
    obtain ⟨_, _⟩ := other
    unfold insert at isThere
    split at isThere
    · rcases mem_cons.mp isThere with isNew | isOld
      · exact .inl isNew
      · exact .inr (mem_cons_of_mem _ isOld)
    · split at isThere
      · exact mem_cons.mp isThere
      · rcases mem_cons.mp isThere with isFirst | isLater
        · exact .inr (isFirst ▸ mem_cons_self)
        · rcases ih isLater with isNew | isOld
          · exact .inl isNew
          · exact .inr (mem_cons_of_mem _ isOld)

theorem mem_keys_insert {entries : Entries α} :
    other ∈ (entries.insert key val).keys ↔ other = key ∨ other ∈ entries.keys := by
  rw [← isSome_find?, ← isSome_find?, find?_insert]
  split <;> simp [*]

theorem IsAscending.insert (isAscending : entries.IsAscending) (key : Text) (val : α) :
    (entries.insert key val).IsAscending := by
  induction entries with
  | nil => exact pairwise_singleton _ _
  | cons entry _ ih =>
    obtain ⟨_, _⟩ := entry
    obtain ⟨below, ascends⟩ := pairwise_cons.mp isAscending
    unfold Entries.insert
    split
    · next same => exact same ▸ isAscending
    · next differ =>
      split
      · next less =>
        refine pairwise_cons.mpr ⟨fun other isOther => ?_, isAscending⟩
        rcases mem_cons.mp isOther with rfl | isLater
        · exact less
        · exact Text.compare_lt_trans less (below other isLater)
      · next notLess =>
        refine pairwise_cons.mpr ⟨fun other isOther => ?_, ih ascends⟩
        rcases mem_keys_insert.mp isOther with rfl | isLater
        · exact Text.compare_lt_of_not differ notLess
        · exact below other isLater

end Entries

namespace Store

/-- What a store answers, if it answers as a memory with the given contents would. -/
def Holds (store : Store) (contents : Entries Value) : Prop :=
  store.keys = .ok contents.keys ∧ ∀ name, store.get name = .ok (contents.find? name)

theorem holds_memory (vals : Entries Value) : (Store.memory vals).Holds vals := ⟨rfl, fun _ => rfl⟩

end Store

def Files.CanWrite (files : Files) (path : Text) : Prop :=
  files.isReadOnly = false ∧ (files.needsFolder = true → files.hasFolder path = true)

theorem Files.write_of_canWrite {files : Files} (canWrite : files.CanWrite path) (content : Text) :
    ∃ written, files.write path content = .ok written ∧ written.read path = .ok content := by
  refine ⟨{ files with contents := files.contents.insert path content }, ?_, ?_⟩
  · unfold write
    rw [canWrite.1, if_neg Bool.false_ne_true, if_neg]
    intro lacking
    simp only [Bool.and_eq_true, Bool.not_eq_true'] at lacking
    rw [canWrite.2 lacking.1] at lacking
    cases lacking.2
  · simp only [read, Entries.find?_insert, ↓reduceIte]

variable {items : Entries Cbor.Item}

namespace Snapshot

def forms (contents : Entries Value) (names : List Text) : List (Text × Cbor.Item) :=
  names.filterMap fun name => ((contents.find? name).bind Value.entry?).map (name, ·)

def inTurn (forms : List (Text × Cbor.Item)) : List Cbor.Item :=
  forms.flatMap fun form => [.text form.1, form.2]

variable {contents : Entries Value}

theorem mem_forms : (name, entry) ∈ forms contents names ↔
      name ∈ names ∧ (contents.find? name).bind Value.entry? = some entry := by
  unfold forms
  rw [mem_filterMap]
  constructor
  · rintro ⟨_, isName, found⟩
    obtain ⟨_, isEntry, same⟩ := Option.map_eq_some_iff.mp found
    cases same
    exact ⟨isName, isEntry⟩
  · rintro ⟨isName, isEntry⟩
    exact ⟨name, isName, Option.map_eq_some_iff.mpr ⟨entry, isEntry, rfl⟩⟩

theorem mem_names_forms :
    name ∈ (forms contents contents.keys).map Prod.fst ↔
      ∃ val, contents.find? name = some val ∧ val.isPersistable := by
  simp only [mem_map, Prod.exists, exists_and_right, exists_eq_right, mem_forms]
  constructor
  · rintro ⟨entry, _, isEntry⟩
    obtain ⟨val, found, isSome⟩ := Option.bind_eq_some_iff.mp isEntry
    exact ⟨val, found, by rw [← Value.isSome_entry?, isSome]; rfl⟩
  · rintro ⟨val, found, isPersistable⟩
    rw [← Value.isSome_entry?] at isPersistable
    obtain ⟨entry, isEntry⟩ := Option.isSome_iff_exists.mp isPersistable
    refine ⟨entry, Entries.isSome_find?.mp (by rw [found]; rfl), ?_⟩
    rw [found]
    exact isEntry

theorem collect_eq {store} (holds : store.Holds contents) (names : List Text) :
    collect store names = .ok (inTurn (forms contents names)) := by
  induction names with
  | nil => rfl
  | cons name _ ih =>
    unfold collect
    rw [holds.2 name, ih]
    simp only [bind, Except.bind, pure, Except.pure, forms, filterMap_cons]
    cases (contents.find? name).bind Value.entry? <;> simp [inTurn]

theorem pairs_inTurn (forms : List (Text × Cbor.Item)) :
    Cbor.Item.pairs (inTurn forms) = forms.map fun form => (.text form.1, form.2) := by
  induction forms with
  | nil => rfl
  | cons form _ ih =>
    unfold inTurn at ih ⊢
    rw [flatMap_cons, map_cons, ← ih]
    rfl

theorem length_inTurn (forms : List (Text × Cbor.Item)) :
    (inTurn forms).length = 2 * forms.length := by
  induction forms with
  | nil => rfl
  | cons _ _ ih =>
    unfold inTurn at ih ⊢
    rw [flatMap_cons, length_append, ih, length_cons]
    simp only [length_cons, length_nil]
    omega

theorem namedItems?_forms {forms : List (Text × Cbor.Item)}
    (isRead : ∀ form ∈ forms, form.1.isUtf8 ∧ form.2.tagsFit) :
    ∃ items, namedItems? (forms.map fun form => (.text form.1, form.2)) = some items ∧
        (∀ entry ∈ items, entry ∈ forms) ∧
        ∀ form ∈ forms, form.1 ∈ items.keys := by
  induction forms with
  | nil => exact ⟨[], rfl, fun _ isThere => isThere, fun _ isThere => nomatch isThere⟩
  | cons form _ ih =>
    obtain ⟨items, named, areForms, areNamed⟩ := ih
      fun other isThere => isRead other (mem_cons_of_mem _ isThere)
    obtain ⟨isUtf8, tagsFit⟩ := isRead form mem_cons_self
    have isName : (Cbor.Item.text form.1).string? = some form.1 := by
      simp [Cbor.Item.string?, Cbor.Item.tagsFit, Cbor.Item.untagged, isUtf8]
    refine ⟨if (items.find? form.1).isSome then items else items.insert form.1 form.2, ?_, ?_, ?_⟩
    · rw [map_cons, namedItems?, named, isName]
      simp only [Option.bind_eq_bind, Option.bind_some, tagsFit, ↓reduceIte]
    · intro entry isThere
      split at isThere
      · exact mem_cons_of_mem _ (areForms entry isThere)
      · rcases Entries.mem_insert isThere with isNew | isOld
        · exact isNew ▸ mem_cons_self
        · exact mem_cons_of_mem _ (areForms entry isOld)
    · intro other isThere
      split
      · next isFound =>
        rcases mem_cons.mp isThere with rfl | isLater
        · exact Entries.isSome_find?.mp isFound
        · exact areNamed other isLater
      · rcases mem_cons.mp isThere with rfl | isLater
        · exact Entries.mem_keys_insert.mpr (.inl rfl)
        · exact Entries.mem_keys_insert.mpr (.inr (areNamed other isLater))

theorem restore_memory {valueOf : Text → Value}
    (isValue : ∀ entry ∈ items, Value.ofEntry entry.2 = .ok (valueOf entry.1))
    (old : Entries Value) :
    ∃ merged, restore (.memory old) items = (.ok (), .memory merged) ∧ (∀ name, merged.find? name =
          if name ∈ items.keys then some (valueOf name) else old.find? name) ∧
        (old.IsAscending → merged.IsAscending) := by
  induction items generalizing old with
  | nil => exact ⟨old, rfl, fun _ => rfl, id⟩
  | cons entry rest ih =>
    obtain ⟨name, item⟩ := entry
    obtain ⟨merged, restored, found, ascends⟩ := ih
      (fun other isThere => isValue other (mem_cons_of_mem _ isThere))
      (old.insert name (valueOf name))
    refine ⟨merged, ?_, fun other => ?_, fun isAscending => ?_⟩
    · unfold restore
      rw [isValue (name, item) mem_cons_self]
      exact restored
    · rw [found, Entries.find?_insert]
      unfold Entries.keys
      by_cases isLater : other ∈ rest.map Prod.fst
      · simp [isLater]
      · by_cases same : other = name
        · simp [same]
        · simp [isLater, same]
    · exact ascends (isAscending.insert name (valueOf name))

def itemOf (forms : List (Text × Cbor.Item)) : Cbor.Item :=
  .map [.unsigned 1, .unsigned version, .unsigned 2, .map (inTurn forms)]

theorem isReadable_itemOf {forms} (few : forms.length ≤ Cbor.maxMembers)
    (areReadable : ∀ form ∈ forms, form.1.length < 2 ^ 63 ∧ form.2.IsReadable 2) :
    (itemOf forms).IsReadable 0 := by
  have inner : Cbor.Item.AreReadable 2 (inTurn forms) := by
    rw [Cbor.Item.areReadable_iff]
    intro _ isThere
    obtain ⟨form, isForm, isPart⟩ := mem_flatMap.mp isThere
    obtain ⟨short, isReadable⟩ := areReadable form isForm
    simp only [mem_cons, not_mem_nil, or_false] at isPart
    rcases isPart with rfl | rfl
    · exact short
    · exact isReadable
  have paired := length_inTurn forms
  simp only [itemOf, Cbor.Item.IsReadable, Cbor.Item.AreReadable, length_cons, length_nil]
  refine ⟨by decide, by decide, by decide, by decide, by decide, by decide, ?_, trivial⟩
  exact ⟨by decide, by omega, by omega, inner⟩

theorem contents?_itemOf {forms}
    (named : namedItems? (forms.map fun form => (.text form.1, form.2)) = some items) :
    contents? (itemOf forms) = some ((version : Int), items) := by
  have isRecord : (itemOf forms).record? =
      some [.unsigned 1, .unsigned version, .unsigned 2, .map (inTurn forms)] := rfl
  have first : Cbor.Item.entry? 1
      [.unsigned 1, .unsigned version, .unsigned 2, .map (inTurn forms)] =
        some (.unsigned version) := rfl
  have second : Cbor.Item.entry? 2
      [.unsigned 1, .unsigned version, .unsigned 2, .map (inTurn forms)] =
        some (.map (inTurn forms)) := rfl
  have num : (Cbor.Item.unsigned version).integer? = some (version : Int) := by decide
  have inRange : ((!(Cbor.Item.map (inTurn forms)).tagsFit ||
      decide ((version : Int) < -(Nat.pow 2 63 : Nat)) ||
      decide ((Nat.pow 2 63 : Nat) ≤ (version : Int)))) = False := by
    simp [Cbor.Item.tagsFit, version]
  unfold contents?
  rw [isRecord]
  simp only [Option.bind_eq_bind, Option.bind_some, first, second, Option.getD_some, num,
    inRange, if_false]
  simp only [Cbor.Item.untagged, pairs_inTurn, named, Option.bind_some]

theorem encode_eq {src} (holds : src.Holds contents) :
    encode src = .ok (itemOf (forms contents contents.keys)).encode := by
  unfold encode
  rw [holds.1]
  simp only [bind, Except.bind, collect_eq holds, pure, Except.pure, itemOf]

theorem decode_itemOf {forms : List (Text × Cbor.Item)} {valueOf : Text → Value}
    (few : forms.length ≤ Cbor.maxMembers)
    (areReadable : ∀ form ∈ forms, form.1.IsStorable ∧ form.2.IsReadable 2)
    (areEntries : ∀ form ∈ forms, form.2.tagsFit ∧ Value.ofEntry form.2 = .ok (valueOf form.1))
    (path : Text) (old : Entries Value) :
    ∃ merged, decodeIn id path (itemOf forms).encode (.memory old) = (.ok (), .memory merged) ∧
        (∀ name, merged.find? name =
          if name ∈ forms.map Prod.fst then some (valueOf name) else old.find? name) ∧
        (old.IsAscending → merged.IsAscending) := by
  have reads := Cbor.read_encode (isReadable_itemOf few
    fun form isForm => ⟨(areReadable form isForm).1.2, (areReadable form isForm).2⟩)
  obtain ⟨items, named, areForms, areNamed⟩ := namedItems?_forms
    fun form isForm => ⟨(areReadable form isForm).1.1, (areEntries form isForm).1⟩
  obtain ⟨merged, restored, found, ascends⟩ := restore_memory
    (fun entry isThere => (areEntries entry (areForms entry isThere)).2) old
  have sameNames (name : Text) : name ∈ items.keys ↔ name ∈ forms.map Prod.fst := by
    constructor
    · intro isName
      obtain ⟨entry, isThere, rfl⟩ := mem_map.mp isName
      exact mem_map_of_mem (areForms entry isThere)
    · intro isName
      obtain ⟨form, isForm, rfl⟩ := mem_map.mp isName
      exact areNamed form isForm
  refine ⟨merged, ?_, fun name => ?_, ascends⟩
  · unfold decodeIn
    simp only [reads, contents?_itemOf named, ↓reduceIte, id_eq, restored]
  · simp only [found, sameNames]

/-- A store of texts that can be written is saved, and the file is loaded into a memory, which then
has under every name what the store has if that can be persisted, and else what it had. -/
theorem load_save
    {source : Store} {contents : Entries Value} {files : Files} {path : Text}
    (holds : source.Holds contents) (few : contents.length ≤ Cbor.maxMembers)
    (areStorable : ∀ entry ∈ contents, entry.1.IsStorable ∧ entry.2.IsStorable)
    (canWrite : files.CanWrite path) (old : Entries Value) :
    ∃ written merged,
      save files path source = .ok written ∧
        load written path (.memory old) = (.ok (), .memory merged) ∧
        (∀ name, merged.find? name =
          (((contents.find? name).filter Value.isPersistable).map Value.settled).or
            (old.find? name)) ∧
        (old.IsAscending → merged.IsAscending) := by
  have fewForms : (forms contents contents.keys).length ≤ Cbor.maxMembers := by
    refine Nat.le_trans (List.length_filterMap_le _ _) ?_
    unfold Entries.keys
    rw [List.length_map]
    exact few
  have ofForm (form : Text × Cbor.Item) (isForm : form ∈ forms contents contents.keys) :
      ∃ value, contents.find? form.1 = some value ∧ value.entry? = some form.2 ∧
        form.1.IsStorable ∧ value.IsStorable := by
    obtain ⟨value, found, isEntry⟩ := Option.bind_eq_some_iff.mp (mem_forms.mp isForm).2
    exact ⟨value, found, isEntry, areStorable _ (Entries.mem_of_find? found)⟩
  obtain ⟨merged, decoded, found, ascends⟩ := @decode_itemOf (forms contents contents.keys)
    (fun name => ((contents.find? name).getD .null).settled) fewForms
    (fun form isForm => by
      obtain ⟨value, _, isEntry, isName, isStorable⟩ := ofForm form isForm
      exact ⟨isName, Value.isReadable_of_entry isEntry isStorable (by decide)⟩)
    (fun form isForm => by
      obtain ⟨value, isFound, isEntry, _, isStorable⟩ := ofForm form isForm
      rw [isFound]
      exact ⟨Value.tagsFit_of_entry? isEntry, Value.ofEntry_of_entry? isEntry isStorable⟩)
    path old
  obtain ⟨written, writes, reads⟩ :=
    Files.write_of_canWrite canWrite (itemOf (forms contents contents.keys)).encode
  refine ⟨written, merged, ?_, ?_, fun name => ?_, ascends⟩
  · unfold save
    simp only [encode_eq holds, bind, Except.bind, writes, pure, Except.pure]
  · unfold load loadIn
    rw [reads]
    exact decoded
  · rw [found]
    simp only [mem_names_forms]
    cases isFound : contents.find? name with
    | none => simp
    | some value =>
      by_cases isPersistable : value.isPersistable = true <;>
        simp [isPersistable, Option.filter]

/-- A store with integers at their limits, what is not a number, a text and the host itself. -/
def mixed : Entries Value :=
  [("host", .host), ("least", .int .int64 0x8000000000000000), ("most", .int .uint64 (-1)),
    ("none", .single 0xffc00001), ("small", .single 1), ("text", .string "é")]

theorem mixed_load_save :
    ∃ written merged,
      save {} "state" (.memory mixed) = .ok written ∧
        load written "state" (.memory [("host", .null), ("text", .null)]) =
          (.ok (), .memory merged) ∧
        merged.find? "host" = some .null ∧
        merged.find? "least" = some (.int .int64 0x8000000000000000) ∧
        merged.find? "none" = some (.single 0x7fc00000) ∧
        merged.find? "small" = some (.single 1) ∧
        merged.find? "text" = some (.string "é") := by
  obtain ⟨written, merged, saved, loaded, found, _⟩ :=
    load_save (Store.holds_memory mixed) (by decide +kernel) (by decide +kernel)
      (⟨rfl, fun needs => nomatch needs⟩ : Files.CanWrite {} "state")
      [("host", .null), ("text", .null)]
  refine ⟨written, merged, saved, loaded, ?_⟩
  simp only [found]
  decide +kernel

/-- The first entries were read and put into a memory, until one came that cannot be read. -/
def StopsWithin (items : Entries Cbor.Item) (old : Entries Value) (failure : StoreFailure)
    (after : Store) : Prop :=
  ∃ (before : Entries Cbor.Item) (name : Text) (item : Cbor.Item) (rest : Entries Cbor.Item)
    (values : Entries Value) (fault : StoreFailure), items = before ++ (name, item) :: rest ∧
      List.Forall₂ (fun entry value => entry.1 = value.1 ∧ Value.ofEntry entry.2 = .ok value.2)
        before values ∧
      Value.ofEntry item = .error fault ∧ failure = .within (.decodingValue name) fault ∧
      after = .memory (values.foldl (fun merged value => merged.insert value.1 value.2) old)

theorem restore_failed {old fail after}
    (failed : restore (.memory old) items = (.error fail, after)) :
    StopsWithin items old fail after := by
  induction items generalizing old with
  | nil => cases failed
  | cons entry rest ih =>
    obtain ⟨name, item⟩ := entry
    unfold restore at failed
    cases read : Value.ofEntry item with
    | error fault =>
      rw [read] at failed
      cases failed
      exact ⟨[], name, item, rest, [], fault, rfl, .nil, read, rfl, rfl⟩
    | ok val =>
      rw [read] at failed
      obtain ⟨pre, _, _, _, vals, fault, rfl, decoded, unread, same, merged⟩ := ih failed
      exact ⟨(name, item) :: pre, _, _, _, (name, val) :: vals, fault, rfl,
        .cons ⟨rfl, read⟩ decoded, unread, same, merged⟩

/-- A load that fails leaves a memory as it is, unless the fault is in an entry: then exactly the
values of the entries visited before it have been put, in whatever order they are visited. -/
theorem failed_load_merges
    {order : Entries Cbor.Item → Entries Cbor.Item} (permutes : ∀ items, (order items).Perm items)
    {files : Files} {path : Text} {old : Entries Value} {failure : StoreFailure} {after : Store}
    (failed : loadIn order files path (.memory old) = (.error failure, after)) :
    after = .memory old ∨
      ∃ content snapshot items visited,
        files.read path = .ok content ∧ Cbor.read content = .ok snapshot ∧
        contents? snapshot = some ((version : Int), items) ∧ visited.Perm items ∧
        StopsWithin visited old failure after := by
  unfold loadIn at failed
  cases reads : files.read path with
  | error fault =>
    rw [reads] at failed
    cases failed
    exact .inl rfl
  | ok content =>
    rw [reads] at failed
    unfold decodeIn at failed
    cases decoded : Cbor.read content with
    | error fault =>
      simp only [decoded] at failed
      cases failed
      exact .inl rfl
    | ok snapshot =>
      simp only [decoded] at failed
      split at failed
      · cases failed
        exact .inl rfl
      · next _ items parts =>
        split at failed
        · next isVersion =>
          exact .inr ⟨content, snapshot, items, order items, rfl, decoded, isVersion ▸ parts,
            permutes items, restore_failed failed⟩
        · cases failed
          exact .inl rfl

/-- A file with a value for `a` that can be read, and one for `b` that cannot. -/
def halfReadable : Files :=
  { contents := [([Text.byte 's'], [0xa2, 1, 1, 2, 0xa2, 0x61, 0x61, 0xa2, 1, 1, 2, 0xf5,
      0x61, 0x62, 0xa2, 1, 1, 2, 0])] }

/-- What comes of loading that file into an empty memory. -/
def halfLoaded : Except StoreFailure Unit × Store :=
  load halfReadable [Text.byte 's'] (.memory [])

theorem halfLoaded_holds_a :
    halfLoaded.1.toOption = none ∧
      halfLoaded.2.get [Text.byte 'a'] = .ok (some (.bool true)) ∧
      (Store.memory []).get [Text.byte 'a'] = .ok none := by
  decide +kernel

theorem halfLoaded_stops :
    (∀ items : Entries Cbor.Item, items.reverse.Perm items) ∧
      ∃ failure after,
        loadIn List.reverse halfReadable [Text.byte 's'] (.memory []) = (.error failure, after) ∧
        (after = .memory [] ∨
          ∃ content snapshot items visited,
            halfReadable.read [Text.byte 's'] = .ok content ∧ Cbor.read content = .ok snapshot ∧
            contents? snapshot = some ((version : Int), items) ∧ visited.Perm items ∧
            StopsWithin visited [] failure after) := by
  have fails :
      (loadIn List.reverse halfReadable [Text.byte 's'] (.memory [])).1.toOption = none := by
    decide +kernel
  rcases loaded : loadIn List.reverse halfReadable [Text.byte 's'] (.memory []) with
    ⟨failure | _, after⟩
  · exact ⟨List.reverse_perm, failure, after, rfl, failed_load_merges List.reverse_perm loaded⟩
  · rw [loaded] at fails
    cases fails

end Snapshot

end HostScript
