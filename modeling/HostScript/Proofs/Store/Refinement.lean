import HostScript.Proofs.Store.Snapshots

namespace HostScript

open List

/-!
# Scopes of one database

Several stores can share a database: each keeps its values under keys that start with its scope.
-/

namespace Entries

theorem keys_insert_filter {key want} (isOther : want key = false) (val : α) (entries : Entries α) :
    (entries.insert key val).keys.filter want = entries.keys.filter want := by
  induction entries with
  | nil => simp [insert, keys, isOther]
  | cons entry _ ih =>
    obtain ⟨_, _⟩ := entry
    unfold keys at ih ⊢
    unfold insert
    split
    · next same => rw [same]; rfl
    · split
      · rw [map_cons, filter_cons_of_neg (by simp [isOther])]
      · simp only [map_cons, filter_cons, ih]

theorem find?_filter {kept key} (isKept : ∀ val, kept (key, val)) (entries : Entries α) :
    find? key (entries.filter kept) = entries.find? key := by
  induction entries with
  | nil => rfl
  | cons entry _ ih =>
    obtain ⟨first, val⟩ := entry
    by_cases same : key = first
    · subst same
      rw [filter_cons_of_pos (isKept val)]
      simp only [find?, if_true]
    · rw [filter_cons]
      split <;> simp only [find?, same, if_false, ih]

theorem keys_filter_filter {kept want} (isKept : ∀ key val, want key → kept (key, val))
    (entries : Entries α) :
    (keys (entries.filter kept)).filter want = entries.keys.filter want := by
  induction entries with
  | nil => rfl
  | cons entry _ ih =>
    obtain ⟨key, val⟩ := entry
    unfold keys at ih ⊢
    rw [filter_cons, map_cons, filter_cons]
    by_cases isWanted : want key
    · rw [if_pos (isKept key val isWanted), if_pos isWanted, map_cons,
        filter_cons_of_pos isWanted, ih]
    · rw [if_neg isWanted]
      split
      · rw [map_cons, filter_cons_of_neg isWanted, ih]
      · exact ih

end Entries

/-- The calls that change what is under a scope. -/
inductive ScopeCall where
  | put (name : Text) (value : Value)
  | delete (name : Text)
  | clear
  deriving Repr, DecidableEq

variable {first : Text}

namespace Database

def call (database : Database) (scope : Text) : ScopeCall → Except StoreFailure Database
  | .put name value => database.put scope name value
  | .delete name => database.delete scope name
  | .clear => database.clear scope

/-- The database after calls on a scope; one that fails leaves it as it is. -/
def afterCalls (scope : Text) : Database → List ScopeCall → Database
  | database, [] => database
  | database, call :: rest =>
    afterCalls scope ((database.call scope call).toOption.getD database) rest

def AgreeIn (scope : Text) (database other : Database) : Prop :=
  (∀ name, database.get scope name = other.get scope name) ∧ database.keys scope = other.keys scope

/-- Whether the keys of neither scope are among those of the other. -/
def Separate (first second : Text) : Prop :=
  ¬ scopeKey first <+: scopeKey second ∧ ¬ scopeKey second <+: scopeKey first

instance (first second : Text) : Decidable (Separate first second) :=
  inferInstanceAs (Decidable (_ ∧ _))

theorem key_eq_scopeKey_append (scope name : Text) : key scope name = scopeKey scope ++ name := by
  simp [scopeKey, key]

theorem Separate.not_prefix {second key} (separate : Separate first second)
    (isOfFirst : scopeKey first <+: key) : ¬ scopeKey second <+: key := by
  intro isOfSecond
  rcases prefix_or_prefix_of_prefix isOfFirst isOfSecond with below | above
  · exact separate.1 below
  · exact separate.2 above

theorem Separate.key_ne {second} (separate : Separate first second) (name other : Text) :
    key second other ≠ key first name := by
  intro same
  have isOfFirst : scopeKey first <+: key first name :=
    key_eq_scopeKey_append first name ▸ prefix_append ..
  exact separate.not_prefix isOfFirst
    (same ▸ key_eq_scopeKey_append second other ▸ prefix_append ..)

theorem agreeIn_of_entries {scope db entries}
    (found : ∀ name, entries.find? (key scope name) = db.entries.find? (key scope name))
    (listed : entries.keys.filter (scopeKey scope).isPrefixOf =
        db.entries.keys.filter (scopeKey scope).isPrefixOf) :
    AgreeIn scope { db with entries } db := by
  constructor
  · intro name
    simp only [get, found name]
  · simp only [keys, listed]

theorem call_agreeIn {second db after call} (separate : Separate first second)
    (done : db.call first call = .ok after) : AgreeIn second after db := by
  have isOther : ∀ name, (scopeKey second).isPrefixOf (key first name) = false := by
    intro name
    rw [Bool.eq_false_iff, ne_eq, isPrefixOf_iff_prefix, key_eq_scopeKey_append]
    exact separate.not_prefix (prefix_append ..)
  cases call with
  | put name _ =>
    simp only [Database.call, put] at done
    split at done
    · cases done
    · split at done
      · cases done
      · cases done
        refine agreeIn_of_entries (fun other => ?_) (Entries.keys_insert_filter (isOther name) ..)
        rw [Entries.find?_insert, if_neg (separate.key_ne name other)]
  | delete name =>
    simp only [Database.call, delete] at done
    split at done
    · cases done
    · cases done
      refine agreeIn_of_entries (fun other => ?_) ?_
      · exact Entries.find?_filter (fun _ => by simpa using separate.key_ne name other) _
      · refine Entries.keys_filter_filter (fun found _ isWanted => ?_) _
        have differs : found ≠ key first name := by
          rintro rfl
          rw [isOther name] at isWanted
          cases isWanted
        simpa using differs
  | clear =>
    simp only [Database.call, clear] at done
    split at done
    · cases done
    · cases done
      have isKept : ∀ (found form : Text), scopeKey second <+: found →
          (!(scopeKey first).isPrefixOf (found, form).1) := by
        intro found form isOfSecond
        rw [Bool.not_eq_true', Bool.eq_false_iff, ne_eq, isPrefixOf_iff_prefix]
        exact fun isOfFirst => separate.not_prefix isOfFirst isOfSecond
      refine agreeIn_of_entries (fun other => ?_) ?_
      · refine Entries.find?_filter (fun form => isKept _ form ?_) _
        exact key_eq_scopeKey_append second other ▸ prefix_append ..
      · exact Entries.keys_filter_filter
          (fun found form isWanted => isKept found form (List.isPrefixOf_iff_prefix.mp isWanted)) _

theorem afterCalls_agreeIn {second} (separate : Separate first second) (db : Database)
    (calls : List ScopeCall) : AgreeIn second (afterCalls first db calls) db := by
  induction calls generalizing db with
  | nil => exact ⟨fun _ => rfl, rfl⟩
  | cons call _ ih =>
    have later := ih ((db.call first call).toOption.getD db)
    unfold afterCalls
    cases answer : db.call first call with
    | error _ =>
      rw [answer] at later
      exact later
    | ok _ =>
      rw [answer] at later
      have now := call_agreeIn separate answer
      exact ⟨fun name => (later.1 name).trans (now.1 name), later.2.trans now.2⟩

theorem not_agreeIn_of_key_eq {second name other} (same : key first name = key second other) :
    ¬ AgreeIn second (afterCalls first {} [.put name (.bool true)]) {} := by
  intro agree
  have isOfSecond : scopeKey second <+: key first name := by
    rw [same, key_eq_scopeKey_append]
    exact prefix_append ..
  have listed := agree.2
  have shown : (afterCalls first {} [.put name (.bool true)]).keys second =
      .ok [(key first name).drop (scopeKey second).length] := by
    have isWanted := isPrefixOf_iff_prefix.mpr isOfSecond
    change Except.ok ((List.filter _ [key first name]).map _) = _
    rw [filter_cons_of_pos isWanted]
    rfl
  rw [shown] at listed
  cases listed

/--
Calls on one scope leave every answer of another as it was, whatever the database and the
calls, exactly if the scopes are separate.
-/
theorem isolated_iff_separate
    (first second : Text) :
    (∀ (database : Database) (calls : List ScopeCall),
        AgreeIn second (afterCalls first database calls) database) ↔
      Separate first second := by
  constructor
  · intro isolated
    constructor
    · rintro ⟨name, extended⟩
      refine @not_agreeIn_of_key_eq first second name [] ?_ (isolated {} _)
      rw [key_eq_scopeKey_append, extended]
      rfl
    · rintro ⟨other, extended⟩
      refine @not_agreeIn_of_key_eq first second [] other ?_ (isolated {} _)
      rw [key_eq_scopeKey_append second, extended]
      rfl
  · exact fun separate database calls => afterCalls_agreeIn separate database calls

/-- The entry `y` of the scope `script/x` is the entry `x/y` of the scope `script`. -/
theorem shared_with_scope_below :
    Text.ofString "script/x" ≠ "script" ∧
      (({} : Database).keys "script").toOption = some [] ∧
      ((afterCalls "script/x" {} [.put "y" (.bool true)]).keys "script").toOption =
        some [Text.ofString "x/y"] ∧
      ((afterCalls "script/x" {} [.put "y" (.bool true)]).get "script" "x/y").toOption =
        some (some (.bool true)) := by
  decide +kernel

end Database

end HostScript

namespace HostScript

open List

/-!
# A database answers as a memory does

A scope of a database that nothing else uses holds the persisted forms of what a memory would
hold, in the same order.
-/

theorem Text.compare_append (front first second : Text) :
    compare (front ++ first) (front ++ second) = compare first second := by
  induction front with
  | nil => rfl
  | cons byte _ ih =>
    rw [cons_append, cons_append, compare, if_neg (UInt8.lt_irrefl byte),
      if_neg (UInt8.lt_irrefl byte), ih]

namespace Value

theorem decode_of_encode {val : Value} {bytes : Text} (encoded : val.encode = .ok bytes)
    (isStorable : val.IsStorable) : decode bytes = .ok val.settled := by
  unfold encode at encoded
  split at encoded
  · next isEntry =>
    cases encoded
    unfold decode
    rw [Cbor.read_encode (isReadable_of_entry isEntry isStorable (by decide))]
    exact ofEntry_of_entry? isEntry isStorable
  · cases encoded

def form (value : Value) : Text :=
  value.encode.toOption.getD []

theorem encode_eq_form {val : Value} (isPersistable : val.isPersistable) :
    val.encode = .ok val.form := by
  rw [← isSome_entry?] at isPersistable
  obtain ⟨_, isEntry⟩ := Option.isSome_iff_exists.mp isPersistable
  simp [form, encode, isEntry, Except.toOption]

end Value

/-- A value that a database gives back. -/
def Value.CanPersist (value : Value) : Prop :=
  value.isPersistable = true ∧ value.IsStorable

instance (value : Value) : Decidable value.CanPersist :=
  inferInstanceAs (Decidable (_ ∧ _))

/-- Calls on a store. -/
inductive StoreCall where
  | get (name : Text)
  | put (name : Text) (value : Value)
  | delete (name : Text)
  | keys
  | clear
  deriving Repr, DecidableEq

/-- What a store answers to a call. -/
inductive StoreAnswer where
  | found (value : Option Value)
  | names (names : List Text)
  | done
  deriving Repr, DecidableEq

def StoreAnswer.settled : StoreAnswer → StoreAnswer
  | .found value => .found (value.map Value.settled)
  | answer => answer

def StoreCall.CanPersist : StoreCall → Prop
  | .put _ value => value.CanPersist
  | _ => True

instance : (call : StoreCall) → Decidable call.CanPersist
  | .put _ value => inferInstanceAs (Decidable value.CanPersist)
  | .get _ | .delete _ | .keys | .clear => .isTrue trivial

namespace Store

def call (store : Store) : StoreCall → Except StoreFailure (StoreAnswer × Store)
  | .get name => do return (.found (← store.get name), store)
  | .put name value => do return (.done, ← store.put name value)
  | .delete name => do return (.done, ← store.delete name)
  | .keys => do return (.names (← store.keys), store)
  | .clear => do return (.done, ← store.clear)

/-- The answers to calls one after the other; a call that fails ends them. -/
def answers : Store → List StoreCall → Except StoreFailure (List StoreAnswer)
  | _, [] => .ok []
  | store, call :: rest => do
    let (answer, after) ← store.call call
    let following ← after.answers rest
    return answer :: following

end Store

namespace Database

def persisted (scope : Text) (entry : Text × Value) : Text × Text :=
  (key scope entry.1, entry.2.form)

/-- A database that holds in a scope, and nowhere else, what a memory holds. -/
structure Mirrors (database : Database) (scope : Text) (values : Entries Value) : Prop where
  isOpen : database.isClosed = false
  entries : database.entries = values.map (persisted scope)
  canPersist : ∀ entry ∈ values, entry.2.CanPersist

theorem key_injective {scope name other} (same : key scope name = key scope other) :
    name = other := by
  rw [key_eq_scopeKey_append, key_eq_scopeKey_append] at same
  exact append_cancel_left same

theorem find?_persisted (scope name : Text) (vals : Entries Value) :
    Entries.find? (key scope name) (vals.map (persisted scope)) =
      (vals.find? name).map Value.form := by
  induction vals with
  | nil => rfl
  | cons entry _ ih =>
    obtain ⟨first, _⟩ := entry
    simp only [map_cons, persisted, Entries.find?, ih]
    by_cases same : name = first
    · simp [same]
    · have differ : key scope name ≠ key scope first := fun isSame => same (key_injective isSame)
      simp [same, differ]

theorem insert_persisted (scope name : Text) (val : Value) (vals : Entries Value) :
    Entries.insert (key scope name) val.form (vals.map (persisted scope)) =
      (vals.insert name val).map (persisted scope) := by
  induction vals with
  | nil => rfl
  | cons entry _ ih =>
    obtain ⟨first, _⟩ := entry
    have sameOrder : Text.compare (key scope name) (key scope first) = Text.compare name first := by
      rw [key_eq_scopeKey_append, key_eq_scopeKey_append, Text.compare_append]
    simp only [map_cons, persisted, Entries.insert, sameOrder]
    by_cases same : name = first
    · simp [same, persisted]
    · have differ : key scope name ≠ key scope first := fun isSame => same (key_injective isSame)
      simp only [same, differ, if_false]
      split
      · rfl
      · rw [ih]
        rfl

theorem erase_persisted (scope name : Text) (vals : Entries Value) :
    Entries.erase (key scope name) (vals.map (persisted scope)) =
      (vals.erase name).map (persisted scope) := by
  unfold Entries.erase
  rw [filter_map]
  congr 1
  refine filter_congr fun entry _ => ?_
  have same : key scope entry.1 = key scope name ↔ entry.1 = name :=
    ⟨key_injective, fun isSame => isSame ▸ rfl⟩
  rw [Bool.eq_iff_iff]
  simp only [Function.comp_apply, persisted, bne_iff_ne, ne_eq, same]

theorem isPrefixOf_key (scope name : Text) : (scopeKey scope).isPrefixOf (key scope name) := by
  rw [List.isPrefixOf_iff_prefix, key_eq_scopeKey_append]
  exact prefix_append _ _

theorem Mirrors.call {db : Database} {scope : Text} {vals : Entries Value}
    (mirrors : db.Mirrors scope vals) {call : StoreCall} (canPersist : call.CanPersist) :
    ∃ answer database' values', (Store.memory vals).call call = .ok (answer, .memory values') ∧
        (Store.durable scope db).call call = .ok (answer.settled, .durable scope database') ∧
        database'.Mirrors scope values' := by
  obtain ⟨isOpen, entries, areKept⟩ := mirrors
  cases call with
  | get name =>
    refine ⟨.found (vals.find? name), db, vals, rfl, ?_, isOpen, entries, areKept⟩
    have answer : db.get scope name = .ok ((vals.find? name).map Value.settled) := by
      unfold Database.get
      rw [isOpen, entries, find?_persisted]
      cases found : vals.find? name with
      | none => rfl
      | some val =>
        obtain ⟨isPersistable, isStorable⟩ := areKept _ (Entries.mem_of_find? found)
        have decoded := Value.decode_of_encode (Value.encode_eq_form isPersistable) isStorable
        simp [decoded]
    simp [Store.call, Store.get, answer, StoreAnswer.settled]
  | put name val =>
    refine ⟨.done, db.putBytes scope name val.form, vals.insert name val, rfl, ?_,
      isOpen, ?_, fun entry isThere => ?_⟩
    · simp [Store.call, Store.put, Database.put, Value.encode_eq_form canPersist.1, isOpen,
        StoreAnswer.settled]
    · unfold putBytes
      rw [entries]
      exact insert_persisted scope name val vals
    · rcases Entries.mem_insert isThere with rfl | isOld
      · exact canPersist
      · exact areKept entry isOld
  | delete name =>
    refine ⟨.done, { db with entries := db.entries.erase (key scope name) },
      vals.erase name, rfl, ?_, isOpen, ?_, fun entry isThere => ?_⟩
    · simp [Store.call, Store.delete, Database.delete, isOpen, StoreAnswer.settled]
    · dsimp only
      rw [entries]
      exact erase_persisted scope name vals
    · exact areKept entry (mem_filter.mp isThere).1
  | keys =>
    refine ⟨.names vals.keys, db, vals, rfl, ?_, isOpen, entries, areKept⟩
    have answer : db.keys scope = .ok vals.keys := by
      unfold Database.keys
      rw [isOpen, entries]
      simp only [Bool.false_eq_true, ↓reduceIte, Entries.keys, map_map]
      rw [filter_eq_self.mpr]
      · simp [Function.comp_def, persisted, key_eq_scopeKey_append]
      · intro found isThere
        obtain ⟨entry, _, rfl⟩ := mem_map.mp isThere
        exact isPrefixOf_key scope entry.1
    simp [Store.call, Store.keys, answer, StoreAnswer.settled]
  | clear =>
    refine ⟨.done, { db with entries := [] }, [], rfl, ?_, isOpen, rfl, forall_mem_nil _⟩
    have answer : db.clear scope = .ok { db with entries := [] } := by
      unfold Database.clear
      rw [isOpen]
      simp only [Bool.false_eq_true, ↓reduceIte, entries]
      rw [filter_eq_nil_iff.mpr]
      intro found isThere
      obtain ⟨entry, _, rfl⟩ := mem_map.mp isThere
      simp [persisted, isPrefixOf_key]
    simp [Store.call, Store.clear, answer, StoreAnswer.settled]

theorem Mirrors.answers {db scope vals} (mirrors : db.Mirrors scope vals) {calls}
    (canPersist : ∀ call ∈ calls, call.CanPersist) :
    ∃ answers, (Store.memory vals).answers calls = .ok answers ∧
        (Store.durable scope db).answers calls = .ok (answers.map StoreAnswer.settled) := by
  induction calls generalizing db vals with
  | nil => exact ⟨[], rfl, rfl⟩
  | cons call _ ih =>
    obtain ⟨answer, _, _, inMemory, inDatabase, after⟩ :=
      mirrors.call (canPersist call mem_cons_self)
    obtain ⟨following, laterInMemory, laterInDatabase⟩ := ih after
      fun other isThere => canPersist other (mem_cons_of_mem _ isThere)
    refine ⟨answer :: following, ?_, ?_⟩
    · simp [Store.answers, inMemory, laterInMemory, bind, Except.bind, pure, Except.pure]
    · simp [Store.answers, inDatabase, laterInDatabase, bind, Except.bind, pure, Except.pure]

/--
A scope of a fresh database and a fresh memory answer all calls alike and without a failure, if
what is put can be persisted and its texts are UTF-8; patterns that are not a number count as
one.
-/
theorem durable_answers_as_memory
    (scope : Text) {calls : List StoreCall} (canPersist : ∀ call ∈ calls, call.CanPersist) :
    ∃ answers,
      Store.empty.answers calls = .ok answers ∧
        (Store.durable scope {}).answers calls = .ok (answers.map StoreAnswer.settled) :=
  @Mirrors.answers {} scope [] ⟨rfl, rfl, fun _ isThere => nomatch isThere⟩ calls canPersist

/-- Calls that put, overwrite and remove values of several kinds. -/
def sampleCalls : List StoreCall :=
  [.put "b" (.double 0x7ff8000000000001), .put "a" (.int .int16 (-1)), .put "b" (.string "é"),
    .get "b", .delete "a", .put "" .null, .keys, .get "a"]

theorem sampleCalls_answered :
    (∀ call ∈ sampleCalls, call.CanPersist) ∧
      ∃ answers,
        Store.empty.answers sampleCalls = .ok answers ∧
          (Store.durable "script" {}).answers sampleCalls =
            .ok (answers.map StoreAnswer.settled) := by
  have canPersist : ∀ call ∈ sampleCalls, call.CanPersist := by decide +kernel
  exact ⟨canPersist, durable_answers_as_memory "script" canPersist⟩

/-- A text that is not UTF-8 is put but not given back. -/
theorem stray_byte_lost :
    (Store.empty.answers [.put "a" (.string [0xff]), .get "a"]).toOption =
        some [.done, .found (some (.string [0xff]))] ∧
      ((Store.durable "script" {}).answers [.put "a" (.string [0xff])]).toOption =
        some [.done] ∧
      ((Store.durable "script" {}).answers [.put "a" (.string [0xff]), .get "a"]).toOption =
        none := by
  decide +kernel

end Database

end HostScript
