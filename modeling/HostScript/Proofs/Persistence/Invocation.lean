import HostScript.Proofs.Persistence.Exit
import HostScript.Proofs.Simulation.Correctness
import HostScript.Proofs.Store.Reading

namespace HostScript

open Directive (extent)
open Emission (Draft opening entering)
open List

/-!
# Persistent variables are saved on every exit

An invocation of a script with a store fills its persistent variables, runs the body, and
however the body is left, saves them and ends like the body did.
-/

variable {store : Store} {cfg : Configuration H}

namespace Stored

open Machine

section

variable {field : Field} {typed : Typed.Script} {body : Draft} {host : Host H} {world : World H}

def filled (host : Host H) (store : Store) (decl : Variable) : Value :=
  match store.value host.types decl.name decl.type with
  | .ok value => value
  | .error _ => .null

theorem value_memory (host : Host H) (isMemory : store = .memory vals)
    (honest : Value.AreHonest vals) (decl : Variable) :
    store.value host.types decl.name decl.type = .ok (filled host store decl) := by
  have given : ∃ val, store.value host.types decl.name decl.type = .ok val := by
    subst isMemory
    cases found : vals.find? decl.name with
    | none => exact ⟨_, Store.value_of_absent found⟩
    | some stored =>
      obtain ⟨_, fitted, _⟩ :=
        Value.fitted_readsAs host.types decl.type (honest decl.name stored found)
      exact ⟨_, Store.value_of_find? found fitted⟩
  obtain ⟨val, read⟩ := given
  unfold filled
  rw [read]

variable (stored : Stored rules tys field typed body prog)
  (spares : host.Spares fun store => store) (isHosted : world.isHosted)
  (attached : (host.loadField field .host (start prog world).world).1 = .ok .state)

include stored spares isHosted attached

theorem fetches :
    ∃ fetched, Passes host prog
        (fun other => other.frame.regions = [] ∧ other.world.store = world.store)
        (start prog world) fetched ∧
      Arrives (Emission.fetching field typed) (start prog world) fetched ∧
      Holds typed prog world.store fetched := by
  let decl := Emission.declaring typed
  let hosted := decl.wrote (.plain Op.loadHost)
  let read := hosted.wrote (.field Op.loadField field)
  have storeEmitted : (read.wrote (.slot Op.storeLocal typed.locals.size)).Emitted prog := by
    refine stored.emitted_opening.earlier ?_
    rw [Emission.opening_eq]
    exact (Draft.suffix_wroteAll _ _).trans (suffix_cons _ _)
  have readEmitted : read.Emitted prog := storeEmitted.earlier (suffix_cons _ _)
  have hostEmitted : hosted.Emitted prog := readEmitted.earlier (suffix_cons _ _)
  have place : (start prog world).frame.next = extent decl.directives :=
    (Emission.extent_declaring typed).symm
  let quiet : Configuration H → Prop := fun other =>
    other.frame.regions = [] ∧ other.world.store = world.store
  have first : Passes host prog quiet (start prog world)
      (pushed hosted (start prog world) .host []) := by
    have yields := yields_loadHost host (place ▸ hostEmitted.plain)
    rw [if_pos (show (start prog world).world.isHosted from isHosted)] at yields
    exact .push place ⟨rfl, rfl⟩ yields
  obtain ⟨_, asm⟩ := readEmitted.located
  rcases loaded : host.loadField field .host (start prog world).world with ⟨_, after⟩
  rw [loaded] at attached
  cases attached
  have spared : after.store = world.store := by
    have kept : Act.Spares _ (host.loadField field .host) :=
      Act.Stays.spares fun _ => (spares.guards _).loadField trivial fun _ _ => trivial
    have same := kept (start prog world).world
    rwa [loaded] at same
  have yields : Yields host prog (pushed hosted (start prog world) .host []) _ _ _ _ :=
    Asks.yields_on host asm (Directive.extent_reverse hosted.directives).symm
      (.loadField true field) rfl
  have continues := yields.continues [.state] after (by
      rw [bind_apply, Configuration.look_of_isPlain _ rfl, Act.onTarget, if_neg Value.noConfusion]
      rw [show (pushed hosted (start prog world) .host []).world =
        (start prog world).world from rfl, loaded]
      rfl)
  have second := first.trans (.single ⟨rfl, rfl⟩ continues)
  have held := stored.held_lt
  have size : (start prog world).frame.locals.size = prog.locals.size := Array.size_map
  have inside : typed.locals.size < (start prog world).frame.locals.size := size ▸ held
  have readPlace : extent hosted.directives + 3 = extent read.directives :=
    (Draft.extent_wrote hosted (.field Op.loadField field)).symm
  have third := second.trans (.storeLocal readPlace storeEmitted rfl inside ⟨rfl, spared⟩)
  refine ⟨_, third, ⟨rfl, rfl, rfl⟩, ?_, ?_, spared⟩
  · exact Array.getElem?_setIfInBounds_self_of_lt inside
  · exact Array.size_setIfInBounds.trans size

theorem enters (isMemory : world.store = .memory vals) (honest : Value.AreHonest vals) :
    ∃ begun, Passes host prog
        (fun other => other.frame.regions = [] ∧ other.world.store = world.store)
        (start prog world) begun ∧
      Inside field typed body prog world.store begun ∧
      begun.frame.next = (region field typed body).start ∧
      ∀ decl ∈ typed.persistent,
        begun.frame.locals[decl.slot]? = some (filled host world.store decl) := by
  obtain ⟨_, passes, arrives, holds⟩ := stored.fetches spares isHosted attached
  have loadsEmitted : (entering field typed).Emitted prog := by
    refine stored.emitted_opening.earlier ?_
    rw [Emission.opening_eq]
    exact suffix_cons _ _
  have slots : ∀ decl ∈ typed.persistent, decl.slot < typed.locals.size :=
    fun decl mem => stored.slot_lt mem
  obtain ⟨loaded, loads, further, store, size, others, given⟩ := passes_loads arrives.next
    holds.held
    (fun other sameRegions sameStore =>
      show other.frame.regions = [] ∧ other.world.store = world.store from
        ⟨sameRegions.trans arrives.regions, sameStore.trans holds.store⟩)
    host loadsEmitted
    (fun decl mem => by
      rw [holds.size]
      exact Nat.lt_trans (slots decl mem) stored.held_lt)
    (fun decl mem => Nat.ne_of_lt (slots decl mem)) stored.sound.ascending
    (fun decl => by
      rw [holds.store]
      exact value_memory host isMemory honest decl)
  have regions : loaded.frame.regions = [] := further.regions.trans arrives.regions
  have completions : loaded.frame.completions = [] := further.completions.trans arrives.completions
  have entry := (Emission.region_assembled stored.code stored.assembled).1
  rw [← show loaded.frame.next = extent (entering field typed).directives from further.next]
    at entry
  have continues := (cycle_tryRegion host entry).2
  have opened : loaded.frame.next + 3 = extent (opening (some field) typed).directives := by
    rw [Emission.opening_eq, Draft.extent_wrote, further.next]
    rfl
  refine ⟨_, (passes.trans loads).trans (.single ⟨regions, store.trans holds.store⟩ continues),
    ⟨⟨?_, size.trans holds.size, store.trans holds.store⟩, ?_, completions, ?_⟩, opened, given⟩
  · refine (others _ ?_).trans holds.held
    intro isSlot
    obtain ⟨decl, mem, same⟩ := mem_map.mp isSlot
    exact Nat.ne_of_lt (slots decl mem) same
  · rw [regions, opened]
    rfl
  · obtain ⟨new, shape, _⟩ := stored.code.encloses (fun _ => True) fun _ _ => trivial
    refine ⟨(opening (some field) typed).directives.reverse, new.reverse, ?_, prefix_rfl, ?_⟩
    · rw [shape, reverse_append]
    · rw [Directive.extent_reverse]
      exact opened

omit stored spares isHosted attached in
theorem Inside.contains (inside : Inside field typed body prog store cfg) :
    (region field typed body).contains cfg.frame.next := by
  obtain ⟨pre, rest, split, ⟨new, shape⟩, next⟩ := inside.place
  have whole : extent body.directives = extent pre + extent rest := by
    rw [← Directive.extent_reverse, split, Directive.extent_append]
  have start : extent pre = extent (opening (some field) typed).directives + extent new := by
    rw [← shape, Directive.extent_append, Directive.extent_reverse]
  have handler : (region field typed body).handler = extent body.directives + 3 :=
    Draft.extent_wrote body .beginFinally
  have opened : (region field typed body).start =
      extent (opening (some field) typed).directives := rfl
  rw [Region.contains, Bool.and_eq_true, decide_eq_true_eq, decide_eq_true_eq, handler, opened,
    next]
  omega

end

end Stored

namespace Machine

/-- A configuration in the body of a script: in its region, with nothing else entered. -/
def InBody (region : Region) (cfg : Configuration H) : Prop :=
  cfg.frame.regions = [region] ∧ region.contains cfg.frame.next = true

/-- An invocation comes to the body, its persistent variables filled from the store. -/
structure Fills (host : Host H) (program : Program) (typed : Typed.Script) (world : World H)
    (region : Region) (begun : Configuration H) : Prop where
  passes : Passes host program (fun other => other.frame.regions = []) (start program world) begun
  regions : begun.frame.regions = [region]
  next : begun.frame.next = region.start
  filled : ∀ decl ∈ typed.persistent, ∃ value,
    world.store.value host.types decl.name decl.type = .ok value ∧
      begun.frame.locals[decl.slot]? = some value

/-- The body is left for the handler, in some way. -/
structure Leaves (host : Host H) (program : Program) (region : Region) (begun : Configuration H)
    (ending : Ending) (left : Configuration H) : Prop where
  quits : ∃ quitting, Passes host program (InBody region) begun quitting ∧
    InBody region quitting ∧ Quits host program quitting ending ∧
    cycle host program {} quitting = .continues left
  regions : left.frame.regions = []
  next : left.frame.next = region.handler

/--
A store has the values that the last persistent variables of their names have in some slots, and
under other names what was there before.
-/
structure Saved (persistent : List Variable) (locals : Array Value)
    (before after : Store) : Prop where
  kept : ∀ name decl, Variable.lastNamed? persistent name = some decl →
    ∃ value, locals[decl.slot]? = some value ∧ after.get name = .ok (some value)
  others : ∀ name, Variable.lastNamed? persistent name = none → after.get name = before.get name

theorem Saved.of_entries {locals}
    (inside : ∀ decl ∈ persistent, decl.slot < locals.size) (vals : Entries Value) :
    Saved persistent locals (.memory vals) (.memory (vals.saved locals persistent)) where
  kept name decl found := by
    have mem : decl ∈ persistent := mem_reverse.mp (mem_of_find?_eq_some found)
    refine ⟨locals.getD decl.slot .null, ?_, ?_⟩
    · rw [Array.getD_eq_getD_getElem?, Array.getElem?_eq_getElem (inside decl mem)]
      rfl
    · show Except.ok ((vals.saved locals persistent).find? name) = _
      rw [Entries.find?_saved, found]
  others name absent := by
    show Except.ok ((vals.saved locals persistent).find? name) = .ok (vals.find? name)
    rw [Entries.find?_saved, absent]

end Machine

namespace Stored

open Machine

section

variable {field : Field} {typed : Typed.Script} {body : Draft} {host : Host H} {world : World H}

/--
At any time, an invocation has not yet changed the store, or has left the body and saved some
persistent variables, or has ended like the body did and saved all of them.
-/
theorem progresses (stored : Stored rules tys field typed body prog)
    (spares : host.Spares fun store => store) (isMemory : world.store = .memory vals)
    (honest : Value.AreHonest vals) (isHosted : world.isHosted)
    (attached : (host.loadField field .host (start prog world).world).1 = .ok .state) :
    ∃ begun, Fills host prog typed world (region field typed body) begun ∧
      ∀ {rounds answer last}, runFor host prog {} rounds (start prog world) = (answer, last) →
        (answer = none ∧ last.world.store = world.store) ∨
        ∃ ending left, Leaves host prog (region field typed body) begun ending left ∧
          (∀ decl ∈ typed.persistent, decl.slot < left.frame.locals.size) ∧
          ((answer = none ∧ ∃ count, last.world.store =
              .memory (vals.saved left.frame.locals (typed.persistent.take count))) ∨
            (answer = some ending ∧ last.world.store =
              .memory (vals.saved left.frame.locals typed.persistent))) := by
  obtain ⟨begun, passes, inside, next, filled⟩ :=
    stored.enters spares isHosted attached isMemory honest
  refine ⟨begun, ⟨passes.mono fun _ quiet => quiet.1, inside.regions, next, fun decl mem =>
    ⟨_, value_memory host isMemory honest decl, filled decl mem⟩⟩, ?_⟩
  intro rounds answer last done
  rcases passes.onward done with ⟨unended, _, same⟩ | ⟨more, done⟩
  · exact .inl ⟨unended, same⟩
  rcases inside.onward stored spares done with
    ⟨unended, still⟩ |
      ⟨quitting, left, resumption, more, stays, quitsInside, continues, quits, handled, done⟩
  · exact .inl ⟨unended, still.holds.store⟩
  have inBody : ∀ other : Configuration H, Inside field typed body prog world.store other →
      InBody (region field typed body) other :=
    fun other inside => ⟨inside.regions, inside.contains⟩
  refine .inr ⟨resumption.ending, left, ⟨⟨quitting, stays.mono inBody, inBody _ quitsInside,
    quits, continues⟩, handled.regions, handled.next⟩,
    fun _ mem => handled.holds.size ▸ Nat.lt_trans (stored.slot_lt mem) stored.held_lt, ?_⟩
  rw [isMemory] at handled
  obtain ⟨_, ended, saves, saving, ends, store⟩ := handled.ends stored
  rcases saves.onward done with ⟨unended, _, some⟩ | ⟨rest, done⟩
  · exact .inl ⟨unended, some⟩
  · cases rest with
    | zero =>
      cases done
      exact .inl ⟨rfl, saving.2⟩
    | succ rest =>
      simp only [runFor, ends] at done
      cases done
      exact .inr ⟨rfl, store⟩

end

end Stored

theorem Dialect.stored {dialect} (valued : dialect.IsValued) {root} (spelled : root.isSpelled)
    (accepted : Analysis.script dialect root = .ok typed) (direct : typed.body.isDirect)
    (built : dialect.program typed = .ok prog) (bound : dialect.binding.state = some field) :
    ∃ body, Stored Typed.Rules.valued dialect.types field typed body prog := by
  obtain ⟨_, emitted, asm⟩ := Dialect.program_eq_ok built
  obtain ⟨body, bodyCode, rfl⟩ := Emission.directives_eq_ok direct emitted
  rw [bound] at bodyCode asm
  exact ⟨body, Typed.Rules.valued_proper,
    Analysis.script_sound valued.governed valued.names spelled accepted, bodyCode, asm⟩

open Machine in
/-- Persistent variables are filled from the store before the body of a script, and saved to it
however the body is left: the invocation ends like the body did, and other names are as before. -/
theorem persistent_saved_on_exit
    (dialect : Dialect) (valued : dialect.IsValued) (root : Tree.Block)
    (spelled : root.isSpelled = true) (analysed : Typed.Script)
    (accepted : Analysis.script dialect root = .ok analysed)
    (direct : analysed.body.isDirect = true) (program : Program)
    (built : dialect.program analysed = .ok program) (field : Field)
    (bound : dialect.binding.state = some field) (host : Host H)
    (spares : host.Spares fun store => store) (world : World H) (values : Entries Value)
    (isMemory : world.store = .memory values) (honest : Value.AreHonest values)
    (isHosted : world.isHosted = true)
    (attached : (host.loadField field .host (start program world).world).1 = .ok .state) :
    ∃ region begun, Fills host program analysed world region begun ∧
      ∀ rounds ending last,
        runFor host program {} rounds (start program world) = (some ending, last) →
        ∃ left, Leaves host program region begun ending left ∧
          Saved analysed.persistent left.frame.locals world.store last.world.store := by
  obtain ⟨body, stored⟩ := Dialect.stored valued spelled accepted direct built bound
  obtain ⟨begun, fills, progresses⟩ := stored.progresses spares isMemory honest isHosted attached
  refine ⟨_, begun, fills, ?_⟩
  intro rounds ending last done
  rcases progresses done with
    ⟨unended, _⟩ | ⟨ending, left, leaves, inside, ⟨unended, _⟩ | ⟨same, store⟩⟩
  · cases unended
  · cases unended
  · cases same
    refine ⟨left, leaves, ?_⟩
    rw [isMemory, store]
    exact .of_entries inside values

namespace Meter

theorem spares : host.Spares fun store => store where
  readField label recv world := by
    unfold host
    dsimp only
    split <;> rfl
  writeField label recv val world := by
    unfold host
    dsimp only
    split <;> rfl
  readProperty _ _ _ _ := rfl
  writeProperty _ _ _ _ _ := rfl
  invoke _ _ _ _ := rfl

def keeping : World (BitVec 32) where
  host := 0x40000000
  store := .memory [([Text.byte 'k'], .float .single 0x3f800000)]

theorem keeping_honest :
    Value.AreHonest [([Text.byte 'k'], .float .single 0x3f800000)] := by
  intro _ stored found
  simp only [Entries.find?] at found
  split at found
  · cases found
    exact fun _ _ => rfl
  · cases found

theorem alarmed_saved_on_exit :
    ∃ region begun,
      Machine.Fills host (program alarmed) (analysed alarmed) keeping region begun ∧
        ∃ ending last left,
          Machine.runFor host (program alarmed) {} 30 (Machine.start (program alarmed) keeping) =
            (some ending, last) ∧
          Machine.Leaves host (program alarmed) region begun ending left ∧
          Machine.Saved (analysed alarmed).persistent left.frame.locals keeping.store
            last.world.store := by
  obtain ⟨region, begun, fills, saved⟩ := persistent_saved_on_exit dialect isValued alarmed rfl
    (analysed alarmed) rfl rfl (program alarmed) (built_of_isSome (by decide +kernel)) state rfl
    host spares keeping _ rfl keeping_honest rfl rfl
  have ends : (Machine.runFor host (program alarmed) {} 30
      (Machine.start (program alarmed) keeping)).1.isSome = true := by decide +kernel
  rcases run : Machine.runFor host (program alarmed) {} 30
      (Machine.start (program alarmed) keeping) with ⟨_ | ending, last⟩
  · rw [run] at ends
    cases ends
  · obtain ⟨left, leaves, kept⟩ := saved 30 ending last run
    exact ⟨region, begun, fills, ending, last, left, rfl, leaves, kept⟩

end Meter

namespace Machine

theorem cycle_limited (host : Host H) (prog : Program) (limit : Nat) (cfg : Configuration H) :
    cycle host prog { limit } cfg = cycle host prog {} cfg ∨
      ∃ ending, cycle host prog { limit } cfg = .ends ending cfg := by
  cases code : prog.code[cfg.frame.next]? with
  | none => exact .inl (by simp only [cycle, code])
  | some _ =>
    have free : obstacle? {} cfg.frame = none := rfl
    cases obstacle : obstacle? { limit } cfg.frame with
    | none => exact .inl (by simp only [cycle, code, obstacle, free])
    | some fail => exact .inr ⟨.error fail, by simp only [cycle, code, obstacle]⟩

/-- Under a limit, an invocation ends as without one, or is cut off on its way. -/
theorem runFor_limited {host prog limit rounds last ending}
    (done : runFor host prog { limit } rounds cfg = (some ending, last)) :
    ∃ count answer, runFor host prog {} count cfg = (answer, last) := by
  induction rounds generalizing cfg with
  | zero => cases done
  | succ rounds ih =>
    rcases cycle_limited host prog limit cfg with same | ⟨cut, ends⟩
    · simp only [runFor, same] at done
      cases round : cycle host prog {} cfg with
      | continues _ =>
        rw [round] at done
        obtain ⟨count, answer, ran⟩ := ih done
        exact ⟨count + 1, answer, by simpa only [runFor, round] using ran⟩
      | ends _ _ =>
        rw [round] at done
        cases done
        exact ⟨1, some ending, by simp only [runFor, round]⟩
    · simp only [runFor, ends] at done
      cases done
      exact ⟨0, none, rfl⟩

end Machine

open Machine in
/--
Under a limit of operations, an invocation ends with the store unchanged, or with the values
that the first of the persistent variables had when the body was left, and with no other change.
-/
theorem limited_saves_first
    (dialect : Dialect) (valued : dialect.IsValued) (root : Tree.Block)
    (spelled : root.isSpelled = true) (analysed : Typed.Script)
    (accepted : Analysis.script dialect root = .ok analysed)
    (direct : analysed.body.isDirect = true) (program : Program)
    (built : dialect.program analysed = .ok program) (field : Field)
    (bound : dialect.binding.state = some field) (host : Host H)
    (spares : host.Spares fun store => store) (world : World H) (values : Entries Value)
    (isMemory : world.store = .memory values) (honest : Value.AreHonest values)
    (isHosted : world.isHosted = true)
    (attached : (host.loadField field .host (start program world).world).1 = .ok .state) :
    ∃ region begun, Fills host program analysed world region begun ∧
      ∀ limit rounds ending last,
        runFor host program { limit } rounds (start program world) = (some ending, last) →
        last.world.store = world.store ∨
        ∃ quit left count, Leaves host program region begun quit left ∧
          Saved (analysed.persistent.take count) left.frame.locals world.store
            last.world.store := by
  obtain ⟨body, stored⟩ := Dialect.stored valued spelled accepted direct built bound
  obtain ⟨begun, fills, progresses⟩ := stored.progresses spares isMemory honest isHosted attached
  refine ⟨_, begun, fills, ?_⟩
  intro limit rounds ending last done
  obtain ⟨_, _, ran⟩ := runFor_limited done
  rcases progresses ran with
    ⟨_, same⟩ | ⟨quit, left, leaves, inside, ⟨_, count, store⟩ | ⟨_, store⟩⟩
  · exact .inl same
  · refine Or.inr ⟨quit, left, count, leaves, ?_⟩
    rw [isMemory, store]
    exact .of_entries (fun declared member => inside declared (List.mem_of_mem_take member)) values
  · refine Or.inr ⟨quit, left, analysed.persistent.length, leaves, ?_⟩
    rw [isMemory, store, List.take_length]
    exact .of_entries inside values

namespace Meter

/-- A script that sets two persistent variables. -/
def pair : Tree.Block :=
  .mk 0 [.assignment 0 (.reference 0 [Text.byte 'x']) (.literal 0 (.float 0x3f800000)),
      .assignment 0 (.reference 0 [Text.byte 'y']) (.literal 0 (.float 0x40000000))]

/-- Where an invocation ends whose limit allows for one of the variables to be saved only. -/
def cutOff : Option Ending × Configuration (BitVec 32) :=
  Machine.runFor host (program pair) { limit := 24 } 30 (Machine.start (program pair) world)

theorem pair_half_saved :
    cutOff.1 = some (.error (Machine.stopped .limitExceeded)) ∧
      cutOff.2.world.store.get [Text.byte 'x'] = .ok (some (.float .single 0x3f800000)) ∧
      cutOff.2.world.store.get [Text.byte 'y'] = .ok none := by
  refine ⟨?_, ?_, ?_⟩ <;> decide +kernel

theorem pair_saves_first :
    ∃ region begun, Machine.Fills host (program pair) (analysed pair) world region begun ∧
      ∃ ending last, cutOff = (some ending, last) ∧
        (last.world.store = world.store ∨
          ∃ quit left count, Machine.Leaves host (program pair) region begun quit left ∧
            Machine.Saved ((analysed pair).persistent.take count) left.frame.locals world.store
              last.world.store) := by
  obtain ⟨region, begun, fills, saved⟩ := limited_saves_first dialect isValued pair rfl
    (analysed pair) rfl rfl (program pair) (built_of_isSome (by decide +kernel)) state rfl
    host spares world _ rfl (fun _ _ absent => by cases absent) rfl rfl
  have ends : cutOff.1.isSome = true := by decide +kernel
  rcases run : cutOff with ⟨_ | ending, last⟩
  · rw [run] at ends
    cases ends
  · exact ⟨region, begun, fills, ending, last, rfl, saved 24 30 ending last run⟩

end Meter

end HostScript
