import HostScript.Proofs.Emission.Region
import HostScript.Proofs.Machine.Runs
import HostScript.Proofs.Store.Basic

namespace HostScript

open Directive (extent)
open Emission (Draft loadDirectives saveDirectives)
open List

/-!
# Code that fills and saves persistent variables

Before the body, each persistent variable is read from the store into its slot; after the body,
each is written back, one after the other.
-/

def Entries.saved (locals : Array Value) (persistent : List Variable) (values : Entries Value) :
    Entries Value :=
  persistent.foldl (fun values decl => values.insert decl.name (locals.getD decl.slot .null)) values

def Variable.lastNamed? (persistent : List Variable) (name : Text) : Option Variable :=
  persistent.reverse.find? (·.name = name)

theorem Entries.find?_saved (locals : Array Value) (persistent : List Variable)
    (vals : Entries Value) (name : Text) :
    (vals.saved locals persistent).find? name =
      match Variable.lastNamed? persistent name with
      | some decl => some (locals.getD decl.slot .null)
      | none => vals.find? name := by
  induction persistent using List.reverseRecOn with
  | nil => rfl
  | append_singleton _ last ih =>
    unfold saved Variable.lastNamed? at ih ⊢
    rw [foldl_append, foldl_cons, foldl_nil, Entries.find?_insert,
      reverse_append, reverse_singleton, singleton_append, find?_cons]
    by_cases same : name = last.name
    · simp [same]
    · have differs : last.name ≠ name := fun equal => same equal.symm
      rw [if_neg same]
      simpa [differs] using ih

theorem Emission.Draft.extent_wrote (draft : Draft) (d : Directive) :
    extent (draft.wrote d).directives = extent draft.directives + d.size := by
  simp [Draft.wrote, Nat.add_comm]

namespace Machine

/--
A configuration at the end of a draft that differs from another one in its variables, the stack
and the world only.
-/
structure Arrives (draft : Draft) (cfg last : Configuration H) : Prop where
  next : last.frame.next = extent draft.directives
  regions : last.frame.regions = cfg.frame.regions
  completions : last.frame.completions = cfg.frame.completions

theorem Arrives.trans {draft after : Draft} {first second third : Configuration H}
    (prev : Arrives draft first second) (later : Arrives after second third) :
    Arrives after first third :=
  ⟨later.next, later.regions.trans prev.regions, later.completions.trans prev.completions⟩

section

variable {draft : Draft} {cfg : Configuration H} {decl : Variable}

def pushed (draft : Draft) (cfg : Configuration H) (value : Value) (rest : List Value) :
    Configuration H :=
  cfg.moved (extent draft.directives) (value :: rest) cfg.world

variable {rest : List Value} (place : cfg.frame.next = extent draft.directives)

include place

theorem Passes.push {d} (known : holds cfg)
    (yields : Yields host prog cfg (cfg.frame.next + d.size) rest seen (pure [val])) :
    Passes host prog holds cfg (pushed (draft.wrote d) cfg val rest) := by
  rw [place, ← Draft.extent_wrote] at yields
  exact .single known (yields.continues [val] cfg.world rfl)

variable {slot : Nat}

theorem Passes.loadLocal (emitted : (draft.wrote (.slot Op.loadLocal slot)).Emitted prog)
    (present : cfg.frame.locals[slot]? = some val) (known : holds cfg) :
    Passes host prog holds cfg (pushed (draft.wrote (.slot Op.loadLocal slot)) cfg val
        cfg.frame.stack) :=
  .push place known (yields_loadLocal host (place ▸ emitted.slot) present)

theorem Passes.text {text}
    (emitted : (draft.wrote (.constant (.string text))).Emitted prog) (known : holds cfg) :
    Passes host prog holds cfg (pushed (draft.wrote (.constant (.string text))) cfg (.string text)
        cfg.frame.stack) := by
  obtain ⟨_, instr, present⟩ := emitted.text
  exact .push place known (yields_constant host (place ▸ instr) present)

variable {name : Text}

theorem Passes.readState (emitted : (draft.wrote (.type Op.stateGet type)).Emitted prog)
    (stack : cfg.frame.stack = .string name :: .state :: rest)
    (read : cfg.world.store.value host.types name type = .ok val) (known : holds cfg) :
    Passes host prog holds cfg (pushed (draft.wrote (.type Op.stateGet type)) cfg val rest) := by
  obtain ⟨_, instr, found⟩ := emitted.type
  have yields := yields_stateGet host (place ▸ instr) found stack rfl
  have reads : Act.readState host type .state (.string name) cfg.world = (.ok val, cfg.world) := by
    simp only [Act.readState, Act.stateKey, bind_apply, pure_apply, get_apply, if_true, read]
  have continues := yields.continues [val] cfg.world (by
    rw [bind_apply, reads]
    rfl)
  rw [place] at continues
  unfold pushed
  rw [Draft.extent_wrote]
  exact .single known continues

theorem Passes.storeLocal (emitted : (draft.wrote (.slot Op.storeLocal slot)).Emitted prog)
    (stack : cfg.frame.stack = val :: rest)
    (inside : slot < cfg.frame.locals.size) (known : holds cfg) :
    Passes host prog holds cfg
      ((cfg.moved (extent (draft.wrote (.slot Op.storeLocal slot)).directives) rest
        cfg.world).stored slot val) := by
  have continues := (cycle_storeLocal host (place ▸ emitted.slot) stack inside).2
  rw [Draft.extent_wrote, ← place]
  exact .single known continues

theorem Passes.box (prev : Passes host prog holds origin cfg) (isBoxed : Bool)
    (emitted : (draft.wroteAll (if isBoxed then [.type Op.box type] else [])).Emitted prog)
    (stack : cfg.frame.stack = val :: rest) (known : holds cfg) :
    ∃ last, Passes host prog holds origin last ∧
      Arrives (draft.wroteAll (if isBoxed then [.type Op.box type] else [])) cfg last ∧
      last.frame.stack = val :: rest ∧ last.frame.locals = cfg.frame.locals ∧
      last.world = cfg.world := by
  cases isBoxed with
  | false => exact ⟨cfg, prev, ⟨place, rfl, rfl⟩, stack, rfl, rfl⟩
  | true =>
    have boxEmitted : (draft.wrote (.type Op.box type)).Emitted prog := emitted
    obtain ⟨_, instr, _⟩ := boxEmitted.type
    refine ⟨pushed (draft.wrote (.type Op.box type)) cfg val rest, ?_,
      ⟨rfl, rfl, rfl⟩, rfl, rfl, rfl⟩
    exact prev.trans (.push place known (yields_box host (place ▸ instr) stack))

theorem Passes.writeState (emitted : (draft.wrote (.plain Op.stateSet)).Emitted prog)
    (stack : cfg.frame.stack = val :: .string name :: .state :: rest)
    (isMemory : cfg.world.store = .memory vals) (known : holds cfg) :
    Passes host prog holds cfg
      (cfg.moved (extent (draft.wrote (.plain Op.stateSet)).directives) rest
        { cfg.world with store := .memory (vals.insert name val) }) := by
  have yields := yields_stateSet host (place ▸ emitted.plain) stack rfl
  have writes : Act.writeState (H := H) .state (.string name) val cfg.world =
      (.ok (), { cfg.world with store := .memory (vals.insert name val) }) := by
    simp only [Act.writeState, Act.stateKey, bind_apply, pure_apply, get_apply, if_true, isMemory,
      Store.put, modify_apply]
  have continues := yields.continues []
    { cfg.world with store := .memory (vals.insert name val) } (by
      rw [bind_apply, writes]
      rfl)
  rw [Draft.extent_wrote, ← place]
  exact .single known continues

variable {holds : Configuration H → Prop} {held : Nat}
  (present : cfg.frame.locals[held]? = some .state)
  (known : ∀ other : Configuration H, other.frame.regions = cfg.frame.regions →
    other.world.store = cfg.world.store → holds other)

include present known

theorem passes_load (emitted : (draft.wroteAll (loadDirectives held decl)).Emitted prog)
    (inside : decl.slot < cfg.frame.locals.size)
    (read : cfg.world.store.value host.types decl.name decl.type = .ok val) :
    ∃ last, Passes host prog holds cfg last ∧
      Arrives (draft.wroteAll (loadDirectives held decl)) cfg last ∧
      last.frame.locals = cfg.frame.locals.setIfInBounds decl.slot val ∧
      last.world.store = cfg.world.store := by
  let fetched := draft.wrote (.slot Op.loadLocal held)
  let named := fetched.wrote (.constant (.string decl.name))
  let gotten := named.wrote (.type Op.stateGet decl.type)
  have storeEmitted : (gotten.wrote (.slot Op.storeLocal decl.slot)).Emitted prog := emitted
  have getEmitted : gotten.Emitted prog := storeEmitted.earlier (suffix_cons _ _)
  have nameEmitted : named.Emitted prog := getEmitted.earlier (suffix_cons _ _)
  have heldEmitted : fetched.Emitted prog := nameEmitted.earlier (suffix_cons _ _)
  have first : Passes host prog holds cfg _ :=
    .loadLocal place heldEmitted present (known _ rfl rfl)
  have second := first.trans (.text rfl nameEmitted (known _ rfl rfl))
  have third := second.trans (.readState rfl getEmitted rfl read (known _ rfl rfl))
  have fourth := third.trans (.storeLocal rfl storeEmitted rfl inside (known _ rfl rfl))
  exact ⟨_, fourth, ⟨rfl, rfl, rfl⟩, rfl, rfl⟩

theorem passes_save (emitted : (draft.wroteAll (saveDirectives held decl)).Emitted prog)
    (holding : cfg.frame.locals[decl.slot]? = some val)
    (isMemory : cfg.world.store = .memory vals) :
    ∃ last, Passes host prog holds cfg last ∧
      Arrives (draft.wroteAll (saveDirectives held decl)) cfg last ∧
      last.frame.locals = cfg.frame.locals ∧
      last.world.store = .memory (vals.insert decl.name val) := by
  let fetched := draft.wrote (.slot Op.loadLocal held)
  let named := fetched.wrote (.constant (.string decl.name))
  let loaded := named.wrote (.slot Op.loadLocal decl.slot)
  let boxed := loaded.wroteAll (if decl.type.isValue then [.type Op.box decl.type] else [])
  unfold saveDirectives at emitted ⊢
  rw [Draft.wroteAll_append, Draft.wroteAll_append] at emitted ⊢
  have setEmitted : (boxed.wrote (.plain Op.stateSet)).Emitted prog := emitted
  have boxEmitted : boxed.Emitted prog := setEmitted.earlier (suffix_cons _ _)
  have loadEmitted : loaded.Emitted prog := boxEmitted.before_all
  have nameEmitted : named.Emitted prog := loadEmitted.earlier (suffix_cons _ _)
  have heldEmitted : fetched.Emitted prog := nameEmitted.earlier (suffix_cons _ _)
  have first : Passes host prog holds cfg _ :=
    .loadLocal place heldEmitted present (known _ rfl rfl)
  have second := first.trans (.text rfl nameEmitted (known _ rfl rfl))
  have third := second.trans (.loadLocal rfl loadEmitted holding (known _ rfl rfl))
  obtain ⟨_, fourth, arrives, stack, locals, world⟩ :=
    third.box rfl decl.type.isValue boxEmitted rfl (known _ rfl rfl)
  have fifth := fourth.trans (.writeState arrives.next setEmitted stack
    ((congrArg World.store world).trans isMemory)
    (known _ arrives.regions (congrArg World.store world)))
  exact ⟨_, fifth, ⟨rfl, arrives.regions, arrives.completions⟩, locals, rfl⟩

variable {persistent : List Variable}

theorem passes_loads (host : Host H)
    (emitted : (draft.wroteAll (persistent.flatMap (loadDirectives held))).Emitted prog)
    (inside : ∀ decl ∈ persistent, decl.slot < cfg.frame.locals.size)
    (apart : ∀ decl ∈ persistent, decl.slot ≠ held)
    (ascending : (persistent.map Variable.slot).Pairwise (· < ·)) {read : Variable → Value}
    (reads : ∀ decl, cfg.world.store.value host.types decl.name decl.type = .ok (read decl)) :
    ∃ last, Passes host prog holds cfg last ∧
      Arrives (draft.wroteAll (persistent.flatMap (loadDirectives held))) cfg last ∧
      last.world.store = cfg.world.store ∧ last.frame.locals.size = cfg.frame.locals.size ∧
      (∀ slot, slot ∉ persistent.map Variable.slot →
        last.frame.locals[slot]? = cfg.frame.locals[slot]?) ∧
      ∀ decl ∈ persistent, last.frame.locals[decl.slot]? = some (read decl) := by
  induction persistent generalizing draft cfg with
  | nil =>
    exact ⟨cfg, .refl _, ⟨place, rfl, rfl⟩, rfl, rfl, fun _ _ => rfl, fun _ mem => nomatch mem⟩
  | cons decl _ ih =>
    rw [flatMap_cons, Draft.wroteAll_append] at emitted ⊢
    have firstInside := inside decl mem_cons_self
    obtain ⟨mid, first, arrives, locals, store⟩ :=
      passes_load place present known emitted.before_all firstInside (reads decl)
    have size : mid.frame.locals.size = cfg.frame.locals.size := by
      rw [locals, Array.size_setIfInBounds]
    rw [map_cons, pairwise_cons] at ascending
    obtain ⟨last, rest, more, lastStore, lastSize, others', filled⟩ := ih arrives.next (by
        rw [locals, Array.getElem?_setIfInBounds_ne (apart decl mem_cons_self)]
        exact present)
      (fun other sameRegions sameStore =>
        known other (sameRegions.trans arrives.regions) (sameStore.trans store))
      emitted (fun other mem => size ▸ inside other (mem_cons_of_mem _ mem))
      (fun other mem => apart other (mem_cons_of_mem _ mem))
      ascending.2 (fun other => store ▸ reads other)
    refine ⟨last, first.trans rest, arrives.trans more, lastStore.trans store,
      lastSize.trans size, ?_, ?_⟩
    · intro slot outside
      rw [map_cons, mem_cons, not_or] at outside
      rw [others' slot outside.2, locals,
        Array.getElem?_setIfInBounds_ne fun same => outside.1 same.symm]
    · intro other mem
      rcases mem_cons.mp mem with rfl | later
      · rw [others' _ fun again => Nat.lt_irrefl _ (ascending.1 _ again), locals,
          Array.getElem?_setIfInBounds_self_of_lt firstInside]
      · exact filled other later

omit present known in
/-- All persistent variables are written; on the way, some of them are. -/
theorem passes_saves (host : Host H)
    (emitted : (draft.wroteAll (persistent.flatMap (saveDirectives held))).Emitted prog)
    (same : cfg.frame.locals = locals) (present : locals[held]? = some .state)
    (inside : ∀ decl ∈ persistent, decl.slot < locals.size)
    (isMemory : cfg.world.store = .memory vals)
    (known : ∀ (other : Configuration H) (count : Nat), other.frame.regions = cfg.frame.regions →
      other.world.store = .memory (vals.saved locals (persistent.take count)) → holds other) :
    ∃ last, Passes host prog holds cfg last ∧
      Arrives (draft.wroteAll (persistent.flatMap (saveDirectives held))) cfg last ∧
      last.frame.locals = locals ∧ last.world.store = .memory (vals.saved locals persistent) := by
  induction persistent generalizing draft cfg vals with
  | nil => exact ⟨cfg, .refl _, ⟨place, rfl, rfl⟩, same, isMemory⟩
  | cons decl _ ih =>
    rw [flatMap_cons, Draft.wroteAll_append] at emitted ⊢
    have holding : cfg.frame.locals[decl.slot]? = some (locals.getD decl.slot .null) := by
      have firstInside := inside decl mem_cons_self
      rw [same, Array.getD_eq_getD_getElem?, Array.getElem?_eq_getElem firstInside]
      rfl
    obtain ⟨_, first, arrives, sameLocals, store⟩ := passes_save place
      (same ▸ present)
      (fun other sameRegions sameStore => known other 0 sameRegions (sameStore.trans isMemory))
      emitted.before_all holding isMemory
    obtain ⟨last, rest, more, lastLocals, lastStore⟩ := ih
      arrives.next emitted (sameLocals.trans same)
      (fun other mem => inside other (mem_cons_of_mem _ mem)) store
      fun other count sameRegions sameStore =>
        known other (count + 1) (sameRegions.trans arrives.regions) sameStore
    exact ⟨last, first.trans rest, arrives.trans more, lastLocals, lastStore⟩

end

end Machine

end HostScript
