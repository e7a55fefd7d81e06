import HostScript.Proofs.Meter
import Mathlib
import HostScript.Session.Basic

namespace HostScript

open List

/-!
# What a cache keeps

Whatever texts share a key, an entry of a cache holds a result of the text it was made from,
under that text's key, and there is one entry for a key.
-/

namespace Cache

/-- One entry for a key, no more entries than there is room for, and each with a result that
fits the text it was made from. -/
structure IsSound (keyOf : Text → Text) (Fits : Text → α → Prop) (cache : Cache α) : Prop where
  distinct : (cache.entries.map CacheEntry.key).Nodup
  bounded : cache.entries.length ≤ cache.capacity
  keyed : ∀ entry ∈ cache.entries, entry.key = keyOf entry.source
  fits : ∀ entry ∈ cache.entries, Fits entry.source entry.result

variable {keyOf : Text → Text} {Fits : Text → α → Prop} {cache : Cache α}

theorem perm_of_find {entries} (distinct : (entries.map CacheEntry.key).Nodup)
    (isThere : entries.find? (fun entry => entry.key == key) = some found) :
    (found :: entries.filter fun other => other.key != key).Perm entries := by
  induction entries with
  | nil => cases isThere
  | cons first rest ih =>
    rw [map_cons, nodup_cons] at distinct
    rw [find?_cons] at isThere
    by_cases same : first.key = key
    · rw [beq_iff_eq.mpr same] at isThere
      cases isThere
      have others : rest.filter (fun other => other.key != key) = rest := by
        refine filter_eq_self.mpr fun other mem => ?_
        have differs : other.key ≠ key := by
          intro again
          exact distinct.1 (same ▸ again ▸ mem_map_of_mem mem)
        simpa using differs
      rw [filter_cons_of_neg (by simpa using same), others]
    · rw [beq_false_of_ne same] at isThere
      rw [filter_cons_of_pos (by simpa using same)]
      exact (List.Perm.swap first found _).trans ((ih distinct.2 isThere).cons first)

theorem find?_perm (sound : cache.IsSound keyOf Fits) (source : Text) :
    (cache.find? keyOf source).2.entries.Perm cache.entries ∧
      (cache.find? keyOf source).2.capacity = cache.capacity := by
  unfold find? touch?
  cases isThere : cache.entries.find? (fun entry => entry.key == keyOf source) with
  | none => exact ⟨.refl _, rfl⟩
  | some _ => exact ⟨perm_of_find sound.distinct isThere, rfl⟩

theorem find?_eq_some_iff (sound : cache.IsSound keyOf Fits) (source : Text) (result : α) :
    (cache.find? keyOf source).1 = some result ↔
      ∃ entry ∈ cache.entries, entry.source = source ∧ entry.result = result := by
  unfold find? touch?
  cases isThere : cache.entries.find? (fun entry => entry.key == keyOf source) with
  | none =>
    refine iff_of_false nofun ?_
    rintro ⟨entry, mem, rfl, -⟩
    have absent := find?_eq_none.mp isThere entry mem
    simp [sound.keyed entry mem] at absent
  | some found =>
    have mem := mem_of_find?_eq_some isThere
    have underKey : found.key = keyOf source := by simpa using find?_some isThere
    dsimp only
    constructor
    · intro answered
      split at answered
      · next same => exact ⟨found, mem, same, Option.some.inj answered⟩
      · cases answered
    · rintro ⟨entry, isKept, rfl, rfl⟩
      have sameKey : entry.key = found.key := (sound.keyed entry isKept).trans underKey.symm
      obtain rfl := inj_on_of_nodup_map sound.distinct isKept mem sameKey
      rw [if_pos rfl]

namespace IsSound

section

variable (sound : cache.IsSound keyOf Fits)

include sound

theorem of_perm {other : Cache α}
    (same : other.entries.Perm cache.entries ∧ other.capacity = cache.capacity) :
    other.IsSound keyOf Fits where
  distinct := (same.1.map CacheEntry.key).nodup_iff.mpr sound.distinct
  bounded := by
    rw [same.1.length_eq, same.2]
    exact sound.bounded
  keyed entry mem := sound.keyed entry (same.1.mem_iff.mp mem)
  fits entry mem := sound.fits entry (same.1.mem_iff.mp mem)

theorem mono (weaker : ∀ source result, Fits source result → Suits source result) :
    cache.IsSound keyOf Suits where
  distinct := sound.distinct
  bounded := sound.bounded
  keyed := sound.keyed
  fits entry mem := weaker _ _ (sound.fits entry mem)

theorem insert (isFitting : Fits source result) :
    (cache.insert keyOf source result).IsSound keyOf Fits := by
  have members : ∀ entry ∈ (cache.insert keyOf source result).entries,
      entry = { key := keyOf source, source, result } ∨ entry ∈ cache.entries := by
    intro entry mem
    rcases mem_cons.mp (mem_of_mem_take mem) with isNew | isOld
    · exact .inl isNew
    · exact .inr (mem_of_mem_filter isOld)
  refine ⟨?_, length_take_le .., ?_, ?_⟩
  · refine .sublist ((take_sublist _ _).map _) ?_
    rw [map_cons, nodup_cons]
    constructor
    · intro again
      obtain ⟨_, mem, sameKey⟩ := mem_map.mp again
      have differs := (mem_filter.mp mem).2
      simp [sameKey] at differs
    · exact sound.distinct.sublist (filter_sublist.map _)
  · intro entry mem
    rcases members entry mem with rfl | isOld
    · rfl
    · exact sound.keyed entry isOld
  · intro entry mem
    rcases members entry mem with rfl | isOld
    · exact isFitting
    · exact sound.fits entry isOld

end

end IsSound

theorem mem_insert (hasRoom : 0 < cache.capacity) (source : Text) (result : α) :
    { key := keyOf source, source, result } ∈ (cache.insert keyOf source result).entries := by
  obtain ⟨less, isMore⟩ : ∃ less, cache.capacity = less + 1 := ⟨cache.capacity - 1, by omega⟩
  unfold Cache.insert add
  dsimp only
  rw [isMore, take_succ_cons]
  exact mem_cons_self

end Cache

/-!
# The cache of a session is transparent

With a cache a session answers as it would without one: the program of the function that it
gives for a source is what the source compiles to, and a source that does not compile fails in
the same way.
-/

namespace Session

def program? (session : Session) (number : Nat) : Option Program :=
  (session.function? number).map Function.program

/-- The functions kept in the cache are those of their sources. -/
def IsSound (keyOf : Text → Text) (session : Session) : Prop :=
  ∀ cache, session.cache = some cache → cache.IsSound keyOf fun source number =>
    ∃ prog, session.dialect.compile source = .ok prog ∧ session.program? number = some prog

def kept (session : Session) : List (CacheEntry Nat) :=
  (session.cache.map Cache.entries).getD []

/-- Whether a session goes on from another, in which what was made before keeps its program. -/
structure GoesOn (session after : Session) : Prop where
  dialect : after.dialect = session.dialect
  room : after.cache.map Cache.capacity = session.cache.map Cache.capacity
  programs : ∀ number prog, session.program? number = some prog → after.program? number = some prog

def Answers (session : Session) (compiled : Except CompileFailure Program) :
    Except CompileFailure Nat → Prop
  | .ok number => ∃ prog, compiled = .ok prog ∧ session.program? number = some prog
  | .error failure => compiled = .error failure

theorem program?_push (sess : Session) (fn : Function) (metrics : Metrics) (num : Nat) :
    program? { sess with functions := sess.functions.push fn, metrics } num =
      if num = sess.functions.size then some fn.program
      else sess.program? num := by
  unfold program? function?
  rw [Array.getElem?_push]
  split <;> rfl

theorem finish_spec (sess : Session) (compiled : Except CompileFailure Program) :
    (sess.finish compiled).2.Answers compiled (sess.finish compiled).1 ∧
      sess.GoesOn (sess.finish compiled).2 ∧ (sess.finish compiled).2.cache = sess.cache := by
  cases compiled with
  | error _ => exact ⟨rfl, ⟨rfl, rfl, fun _ _ isThere => isThere⟩, rfl⟩
  | ok prog =>
    unfold finish
    refine ⟨⟨prog, rfl, ?_⟩, ⟨rfl, rfl, fun _ _ isThere => ?_⟩, rfl⟩
    · rw [program?_push, if_pos rfl]
    · rw [program?_push, if_neg ?_]
      · exact isThere
      · rintro rfl
        simp [program?, function?] at isThere

namespace GoesOn

variable {sess after : Session}

theorem trans (first : sess.GoesOn after) (second : after.GoesOn last) : sess.GoesOn last where
  dialect := second.dialect.trans first.dialect
  room := second.room.trans first.room
  programs num prog isThere := second.programs num prog (first.programs num prog isThere)

theorem isSound {keyOf : Text → Text} {cache : Cache Nat} (goesOn : sess.GoesOn after)
    (sound : cache.IsSound keyOf fun src num =>
      ∃ prog, sess.dialect.compile src = .ok prog ∧ sess.program? num = some prog) :
    cache.IsSound keyOf fun src num =>
      ∃ prog, after.dialect.compile src = .ok prog ∧ after.program? num = some prog := by
  refine sound.mono ?_
  rintro src num ⟨prog, compiled, isThere⟩
  exact ⟨prog, goesOn.dialect ▸ compiled, goesOn.programs num prog isThere⟩

end GoesOn

/-- One compilation answers as the source compiles and keeps the cache sound; a known source has
the function that is kept for it, and a new one is known from then on if there is room. -/
structure Compiles (keyOf : Text → Text) (session : Session) (source : Text)
    (answer : Except CompileFailure Nat) (after : Session) : Prop where
  answers : after.Answers (session.dialect.compile source) answer
  goesOn : session.GoesOn after
  sound : after.IsSound keyOf
  failed : ∀ failure, answer = .error failure → after.kept.Perm session.kept
  known : ∀ entry ∈ session.kept, entry.source = source →
    answer = .ok entry.result ∧ after.kept.Perm session.kept
  remembered : ∀ number room, answer = .ok number →
    session.cache.map Cache.capacity = some room → 0 < room →
      ∃ entry ∈ after.kept, entry.source = source ∧ entry.result = number

variable {keyOf : Text → Text}

variable {sess : Session}

theorem finish_compiles (noCache : sess.cache = none) (src : Text) :
    sess.Compiles keyOf src (sess.finish (sess.dialect.compile src)).1
      (sess.finish (sess.dialect.compile src)).2 := by
  obtain ⟨answers, goesOn, sameCache⟩ := sess.finish_spec (sess.dialect.compile src)
  have nothing : sess.kept = [] := by rw [kept, noCache]; rfl
  refine ⟨answers, goesOn, ?_, fun _ _ => ?_, fun _ mem _ => ?_, fun _ _ _ hasRoom => ?_⟩
  · intro _ isThere
    rw [sameCache, noCache] at isThere
    cases isThere
  · unfold kept
    rw [sameCache]
  · rw [nothing] at mem
    cases mem
  · rw [noCache] at hasRoom
    cases hasRoom

theorem compileKeyed_compiles (sound : sess.IsSound keyOf) (src : Text) :
    sess.Compiles keyOf src (sess.compileKeyed keyOf src).1 (sess.compileKeyed keyOf src).2 := by
  unfold compileKeyed
  cases cached : sess.cache with
  | none => exact finish_compiles cached src
  | some cache =>
    obtain ⟨answers, goesOn, -⟩ := sess.finish_spec (sess.dialect.compile src)
    have cacheSound := sound cache cached
    have isKept := cache.find?_eq_some_iff cacheSound src
    have samePerm := cache.find?_perm cacheSound src
    have keptEntries : sess.kept = cache.entries := by rw [kept, cached]; rfl
    dsimp only
    cases found : cache.find? keyOf src with
    | mk hit touched =>
      rw [found] at samePerm isKept
      have touchedSound := cacheSound.of_perm samePerm
      have sameRoom : some touched.capacity = sess.cache.map Cache.capacity := by
        rw [cached, samePerm.2]
        rfl
      cases hit with
      | some num =>
        obtain ⟨entry, mem, same, res⟩ := (isKept num).mp rfl
        refine ⟨?_, ⟨rfl, sameRoom, fun _ _ => id⟩, ?_, nofun, ?_, ?_⟩
        · rw [← same, ← res]
          exact cacheSound.fits entry mem
        · intro _ isThere
          cases isThere
          exact touchedSound
        · intro other isThere sameSource
          rw [keptEntries] at isThere ⊢
          have sameResult := (isKept other.result).mpr ⟨other, isThere, sameSource, rfl⟩
          exact ⟨congrArg Except.ok (Option.some.inj sameResult), samePerm.1⟩
        · rintro _ _ ⟨⟩ _ _
          exact ⟨entry, samePerm.1.mem_iff.mpr mem, same, res⟩
      | none =>
        have unknown : ∀ entry ∈ sess.kept, entry.source ≠ src := by
          intro entry mem same
          rw [keptEntries] at mem
          cases (isKept entry.result).mpr ⟨entry, mem, same, rfl⟩
        cases finished : sess.finish (sess.dialect.compile src) with
        | mk answer _ =>
          rw [finished] at answers goesOn
          cases answer with
          | error _ =>
            refine ⟨answers, ⟨goesOn.dialect, sameRoom, goesOn.programs⟩, ?_, ?_,
              fun entry mem same => absurd same (unknown entry mem), nofun⟩
            · intro _ isThere
              cases isThere
              exact goesOn.isSound touchedSound
            · intro _ _
              rw [keptEntries]
              exact samePerm.1
          | ok num =>
            refine ⟨answers, ⟨goesOn.dialect, sameRoom, goesOn.programs⟩, ?_, nofun,
              fun entry mem same => absurd same (unknown entry mem), ?_⟩
            · intro _ isThere
              cases isThere
              obtain ⟨prog, compiled, made⟩ := answers
              exact (goesOn.isSound touchedSound).insert ⟨prog, goesOn.dialect ▸ compiled, made⟩
            · rintro _ _ ⟨⟩ isRoom positive
              rw [← sameRoom] at isRoom
              cases isRoom
              exact ⟨_, Cache.mem_insert positive src num, rfl, rfl⟩

def compileAll (keyOf : Text → Text) : Session → List Text → Session
  | session, [] => session
  | session, source :: rest => compileAll keyOf (session.compileKeyed keyOf source).2 rest

theorem compileAll_spec (sound : sess.IsSound keyOf) (sources : List Text) :
    (compileAll keyOf sess sources).IsSound keyOf ∧
      sess.GoesOn (compileAll keyOf sess sources) := by
  induction sources generalizing sess with
  | nil => exact ⟨sound, rfl, rfl, fun _ _ => id⟩
  | cons src _ ih =>
    have compiles := compileKeyed_compiles sound src
    obtain ⟨later, goesOn⟩ := ih compiles.sound
    exact ⟨later, compiles.goesOn.trans goesOn⟩

theorem compileAll_keeps (sound : sess.IsSound keyOf) (isKept : entry ∈ sess.kept)
    (others : ∀ other ∈ sources, other = entry.source ∨
      ∃ fail, sess.dialect.compile other = .error fail) :
    entry ∈ (compileAll keyOf sess sources).kept := by
  induction sources generalizing sess with
  | nil => exact isKept
  | cons src _ ih =>
    have compiles := compileKeyed_compiles sound src
    have same : (sess.compileKeyed keyOf src).2.kept.Perm sess.kept := by
      rcases others src List.mem_cons_self with known | ⟨fail, fails⟩
      · exact (compiles.known entry isKept known.symm).2
      · have answers := compiles.answers
        rw [fails] at answers
        cases answer : (sess.compileKeyed keyOf src).1 with
        | error fail => exact compiles.failed fail answer
        | ok _ =>
          rw [answer] at answers
          obtain ⟨_, impossible, _⟩ := answers
          cases impossible
    refine ih compiles.sound (same.mem_iff.mpr isKept) fun other mem => ?_
    rw [compiles.goesOn.dialect]
    exact others other (List.mem_cons_of_mem _ mem)

theorem start_isSound (keyOf : Text → Text) (dialect : Dialect) (limit size : Nat) :
    (start dialect limit size).IsSound keyOf := by
  intro _ isThere
  unfold start at isThere
  split at isThere
  · cases isThere
  · cases isThere
    exact ⟨.nil, Nat.zero_le _, nofun, nofun⟩

theorem start_room (dialect : Dialect) (limit : Nat) (positive : 0 < size) :
    (start dialect limit size).cache.map Cache.capacity = some size := by
  unfold start
  rw [if_neg (Nat.ne_of_gt positive)]
  rfl

theorem IsSound.length_kept {room} (sound : sess.IsSound keyOf)
    (hasRoom : sess.cache.map Cache.capacity = some room) : sess.kept.length ≤ room := by
  obtain ⟨cache, cached, rfl⟩ := Option.map_eq_some_iff.mp hasRoom
  rw [kept, cached]
  exact (sound cache cached).bounded

/-- A session with a cache compiles a source to the program or failure that it has without one; a
failure leaves the entries as they are, their number is within the size, and as long as no other
source is compiled, the source has the very same function again. -/
structure TransparentFor (keyOf : Text → Text) (size : Nat) (session : Session) (source : Text) :
    Prop where
  succeeds : ∀ prog, session.dialect.compile source = .ok prog →
    ∃ number, (session.compileKeyed keyOf source).1 = .ok number ∧
      (session.compileKeyed keyOf source).2.program? number = some prog
  fails : ∀ failure, session.dialect.compile source = .error failure →
    (session.compileKeyed keyOf source).1 = .error failure ∧
      (session.compileKeyed keyOf source).2.kept.Perm session.kept
  bounded : (session.compileKeyed keyOf source).2.kept.length ≤ size
  identical : ∀ number later, (session.compileKeyed keyOf source).1 = .ok number →
    (∀ other ∈ later, other = source ∨ ∃ failure, session.dialect.compile other = .error failure) →
    ((compileAll keyOf (session.compileKeyed keyOf source).2 later).compileKeyed keyOf source).1 =
      .ok number

/-- For every way of giving keys to sources and every size above zero, each compilation of a
session is transparent, whatever was compiled before. -/
theorem cached_compilation_transparent
    (dialect : Dialect) (limit size : Nat) (positive : 0 < size) (keyOf : Text → Text)
    (earlier : List Text) (source : Text) :
    (compileAll keyOf (start dialect limit size) earlier).dialect = dialect ∧
      TransparentFor keyOf size (compileAll keyOf (start dialect limit size) earlier) source := by
  obtain ⟨sound, goesOn⟩ := compileAll_spec (start_isSound keyOf dialect limit size) earlier
  refine ⟨goesOn.dialect, ?_⟩
  have hasRoom := goesOn.room.trans (start_room dialect limit positive)
  generalize compileAll keyOf (start dialect limit size) earlier = session at sound hasRoom ⊢
  have compiles := compileKeyed_compiles sound source
  have answers := compiles.answers
  refine ⟨?_, ?_, compiles.sound.length_kept (compiles.goesOn.room.trans hasRoom), ?_⟩
  · intro _ compiled
    rw [compiled] at answers
    cases answer : (session.compileKeyed keyOf source).1 with
    | ok number =>
      rw [answer] at answers
      obtain ⟨_, same, made⟩ := answers
      cases same
      exact ⟨number, rfl, made⟩
    | error failure =>
      rw [answer] at answers
      cases answers
  · intro failure compiled
    rw [compiled] at answers
    cases answer : (session.compileKeyed keyOf source).1 with
    | ok number =>
      rw [answer] at answers
      obtain ⟨_, impossible, _⟩ := answers
      cases impossible
    | error other =>
      rw [answer] at answers
      cases answers
      exact ⟨rfl, compiles.failed failure answer⟩
  · intro number later answer others
    obtain ⟨entry, isKept, same, result⟩ := compiles.remembered number size answer hasRoom positive
    subst same result
    have stays := compileAll_keeps compiles.sound isKept fun other member => by
      rw [compiles.goesOn.dialect]
      exact others other member
    have laterSound := (compileAll_spec compiles.sound later).1
    exact ((compileKeyed_compiles laterSound entry.source).known entry stays rfl).1

end Session

theorem Meter.colliding_transparent :
    0 < 1 ∧
      (Session.compileAll (fun _ => []) (Session.start dialect 0 1) ["l=1.0;"]).dialect = dialect ∧
      Session.TransparentFor (fun _ => []) 1
        (Session.compileAll (fun _ => []) (Session.start dialect 0 1) ["l=1.0;"]) "l=2.0;" :=
  ⟨by decide, Session.cached_compilation_transparent dialect 0 1 (by decide) _ _ _⟩

end HostScript
