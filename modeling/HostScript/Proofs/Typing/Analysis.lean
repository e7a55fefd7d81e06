import HostScript.Proofs.Analysis.Elaboration
import HostScript.Proofs.Typing.Cast

namespace HostScript

open Typed (Expr Rules)
open List
open Scopes (mem_of_find?)

/-!
# Analysed trees are sound

What analysis accepts is sound, if the dialect obeys the rules: the members of its types and its
bound names do, and types that have names are `void` or data.
-/

/-- What is asked of a symbol: what it stands for obeys the rules. -/
def Symbol.Sound (rules : Rules) (locals : Array Ty) : Symbol → Prop
  | .variable decl => Typed.VariableSound locals decl
  | .field _ stored => rules.field stored
  | .method _ called => rules.method called
  | .transform _ pattern => pattern.result.IsResult
  | .typeName _ type => type.IsResult

namespace Analysis

section

variable {dialect : Dialect} {rules : Rules} {locals : Array Ty} {p : Progress}
  (gov : Governed dialect.types rules)

include gov

theorem castAll_sound (sound : ∀ argument ∈ given, argument.Sound rules dialect.types locals)
    (areData : ∀ param ∈ params, param.isData) (many : given.length = params.length)
    (done : castAll dialect.types given params = .ok converted) :
    Expr.AllSound rules dialect.types locals converted params := by
  induction given generalizing params converted with
  | nil =>
    obtain rfl := length_eq_zero_iff.mp many.symm
    cases done
    rfl
  | cons first _ ih =>
    cases params with
    | nil => exact nomatch many
    | cons param params =>
      obtain ⟨argument, argumentDone, done⟩ := ok_of_bind done
      obtain ⟨_, followingDone, done⟩ := ok_of_bind done
      cases done
      obtain ⟨argumentSound, fits⟩ := castTo_sound gov (sound first mem_cons_self)
        (.inr (areData param mem_cons_self)) argumentDone
      exact ⟨param, params, rfl, argumentSound, fits, ih
        (fun other mem => sound other (mem_cons_of_mem _ mem))
        (fun other mem => areData other (mem_cons_of_mem _ mem))
        (Nat.succ.inj many) followingDone⟩

theorem castAll_uniform {param}
    (sound : ∀ argument ∈ given, argument.Sound rules dialect.types locals) (isData : param.isData)
    (done : castAll dialect.types given (given.map fun _ => param) = .ok converted) :
    Expr.AllSound rules dialect.types locals converted (converted.map fun _ => param) := by
  have areData : ∀ other ∈ given.map fun _ => param, other.isData := by simp [isData]
  have fits := castAll_sound gov sound areData (length_map _).symm done
  rwa [map_const', ← castAll_length done, ← map_const'] at fits

variable {scopes : Scopes}

theorem Target.Proper.isData {tgt : Target} (proper : tgt.Proper)
    (notStatic : tgt.isStatic = false)
    (sound : tgt.expression.Sound rules dialect.types locals) : tgt.expression.type.isData := by
  obtain ⟨same, notVoid⟩ := proper.value notStatic
  exact (sound.isResult gov.proper).isData (same ▸ notVoid)

theorem Elaborated.sound (symbols : ∀ sym ∈ scopes.symbols, sym.Sound rules locals)
    (elaborated : Elaborated dialect scopes False made) :
    made.Sound rules dialect.types locals := by
  induction elaborated with
  | literal => trivial
  | reference _ found isPlace =>
    have known := symbols _ (mem_of_find? found)
    rcases isPlace with ⟨_, rfl⟩ | ⟨_, _, rfl⟩
    · exact known
    · exact known
  | operator _ _ done leftSound rightSound =>
    exact operator_sound gov leftSound rightSound done
  | negation _ _ isValue sound => exact ⟨sound, .inl ⟨rfl, isValue, rfl⟩⟩
  | complement _ _ done sound =>
    obtain ⟨convertedSound, fits⟩ := castTo_sound gov sound (.inr rfl) done
    exact ⟨convertedSound, .inr ⟨rfl, fits, rfl⟩⟩
  | conditional _ _ _ _ chosenDone firstDone secondDone conditionSound yesSound noSound =>
    have common := dialect.types.compatible_isResult (yesSound.isResult gov.proper)
      (noSound.isResult gov.proper)
    obtain ⟨chosenSound, chosenFits⟩ := castTo_sound gov conditionSound (.inr rfl) chosenDone
    obtain ⟨firstSound, firstFits⟩ := castTo_sound gov yesSound common firstDone
    obtain ⟨secondSound, secondFits⟩ := castTo_sound gov noSound common secondDone
    exact ⟨chosenSound, firstSound, secondSound, chosenFits, firstFits, secondFits⟩
  | cast _ found done sound =>
    exact writtenCast_sound gov sound (symbols _ (mem_of_find? found)) done
  | final allowed => exact allowed.elim
  | call _ found _ many done givenSound =>
    have allowed : rules.method _ := symbols _ (mem_of_find? found)
    exact ⟨allowed, castAll_sound gov givenSound (gov.proper.method _ allowed).2 many done⟩
  | expansion _ _ found => exact symbols _ (mem_of_find? found)
  | invocation _ proper _ _ candidate many done tgtSound givenSound =>
    obtain ⟨allowed, isStatic⟩ := Universe.methods_obey gov.obeys candidate
    refine ⟨allowed, castAll_sound gov givenSound (gov.proper.method _ allowed).2 many
      done, fun notStatic => ?_⟩
    rw [isStatic] at notStatic
    exact ⟨tgtSound notStatic, proper.isData gov notStatic (tgtSound notStatic)⟩
  | lateInvocation _ _ _ notVoid _ done tgtSound givenSound =>
    exact ⟨tgtSound, (tgtSound.isResult gov.proper).isData notVoid,
      castAll_uniform gov givenSound rfl done⟩
  | property _ proper _ only tgtSound =>
    obtain ⟨allowed, isStatic⟩ := Universe.dataMembers_obey gov.obeys (only ▸ mem_singleton_self _)
    refine ⟨allowed, fun notStatic => ?_⟩
    rw [isStatic] at notStatic
    exact ⟨tgtSound notStatic, proper.isData gov notStatic (tgtSound notStatic)⟩
  | lateProperty _ _ _ notVoid tgtSound =>
    exact ⟨tgtSound, (tgtSound.isResult gov.proper).isData notVoid⟩
  | element _ _ isArray _ done tgtSound givenSound =>
    have isData := (tgtSound.isResult gov.proper).isData (by simp [isArray])
    have fits := castAll_uniform gov givenSound rfl done
    rw [isArray] at isData
    exact ⟨tgtSound, castAll_length done ▸ isArray, isData, fits⟩
  | @indexed _ tgt _ _ _ proper _ found isStatic _ many done tgtSound givenSound =>
    have allowed := Universe.indexer?_obeys gov.obeys found
    refine ⟨allowed, rfl, castAll_sound gov givenSound
      (gov.proper.property _ allowed).2 many done, fun notStatic => ?_⟩
    have notStatic : tgt.isStatic = false :=
      Bool.eq_false_iff.mpr fun named => nomatch (isStatic named).symm.trans notStatic
    exact ⟨tgtSound notStatic, proper.isData gov notStatic (tgtSound notStatic)⟩

end

/-- Local variables keep their slots and types. -/
def Extends (earlier later : Array Ty) : Prop :=
  ∀ (slot : Nat) (type : Ty), earlier[slot]? = some type → later[slot]? = some type

theorem Extends.refl (locals : Array Ty) : Extends locals locals := fun _ _ known => known

theorem Extends.trans (prev : Extends first second) (later : Extends second third) :
    Extends first third :=
  fun slot type known => later slot type (prev slot type known)

theorem Extends.push (locals : Array Ty) (type : Ty) : Extends locals (locals.push type) := by
  intro _ _ known
  have inside := (Array.getElem?_eq_some_iff.mp known).1
  rw [Array.getElem?_push_lt inside, ← known, Array.getElem?_eq_getElem inside]

theorem variableSound_mono (extended : Extends locals later)
    (sound : Typed.VariableSound locals decl) : Typed.VariableSound later decl :=
  ⟨extended _ _ sound.1, sound.2⟩

theorem symbol_sound_mono (extended : Extends locals later) :
    {sym : Symbol} → sym.Sound rules locals → sym.Sound rules later
  | .variable _, sound => variableSound_mono extended sound
  | .field _ _, sound | .method _ _, sound | .transform _ _, sound | .typeName _ _, sound => sound

/-- What was found so far is sound. -/
structure Progress.Sound (rules : Rules) (progress : Progress) : Prop where
  symbols : ∀ symbol ∈ progress.scopes.symbols, symbol.Sound rules progress.locals
  persistent : ∀ decl ∈ progress.persistent, Typed.VariableSound progress.locals decl
  ascending : (progress.persistent.map Variable.slot).Pairwise (· < ·)

/-- Analysis got further and is sound still, and so is what it made, however far it gets. -/
structure Reached (rules : Rules) (progress after : Progress)
    (soundFor : Array Ty → Prop) : Prop where
  sound : after.Sound rules
  extended : Extends progress.locals after.locals
  made : ∀ locals, Extends after.locals locals → soundFor locals

section

variable {dialect : Dialect} {rules : Rules} {p after : Progress}

theorem Declares.reached (adds : ∀ {scopes changed sym other}, add scopes sym = .ok changed →
      (other ∈ changed.symbols ↔ other ∈ scopes.symbols ∨ other = sym))
    (declares : Declares add p decl after) (sound : p.Sound rules) (isData : decl.type.isData) :
    Reached rules p after fun locals => Typed.VariableSound locals decl := by
  obtain ⟨scopes, added, rfl⟩ := declares.added
  have extended := Extends.push p.locals decl.type
  have declaredSound : Typed.VariableSound (p.locals.push decl.type) decl :=
    ⟨by rw [declares.slot, Array.getElem?_push_size], isData⟩
  refine ⟨⟨fun sym mem => ?_, fun other mem => ?_, ?_⟩, extended,
    fun locals later => variableSound_mono later declaredSound⟩
  · rcases (adds added).mp mem with prev | rfl
    · exact symbol_sound_mono extended (sound.symbols sym prev)
    · exact declaredSound
  · have kept : other ∈ p.persistent ∨ other = decl := by
      unfold Progress.adding at mem
      split at mem
      · rcases mem_append.mp mem with prev | last
        · exact .inl prev
        · exact .inr (mem_singleton.mp last)
      · exact .inl mem
    rcases kept with prev | rfl
    · exact variableSound_mono extended (sound.persistent other prev)
    · exact declaredSound
  · unfold Progress.adding
    split
    · rw [map_append, pairwise_append]
      refine ⟨sound.ascending, pairwise_singleton _ _, ?_⟩
      intro _ mem last isLast
      obtain ⟨other, prev, rfl⟩ := mem_map.mp mem
      rw [map_singleton, mem_singleton] at isLast
      rw [isLast, declares.slot]
      exact (Array.getElem?_eq_some_iff.mp (sound.persistent other prev).1).1
    · exact sound.ascending

theorem Reached.refl (sound : p.Sound rules)
    (made : ∀ locals, Extends p.locals locals → soundFor locals) : Reached rules p p soundFor :=
  ⟨sound, .refl _, made⟩

theorem Reached.andThen (first : Reached rules p mid soundFor)
    (second : Reached rules mid after furtherFor)
    (both : ∀ locals, soundFor locals → furtherFor locals → bothFor locals) :
    Reached rules p after bothFor where
  sound := second.sound
  extended := first.extended.trans second.extended
  made locals later :=
    both locals (first.made locals (second.extended.trans later)) (second.made locals later)

section

variable (gov : Governed dialect.types rules)

include gov

theorem expression_sound {tree} (spelled : tree.isSpelled) (sound : p.Sound rules) :
    Finds p (expression dialect tree) fun typed =>
      ∀ locals, Extends p.locals locals → typed.Sound rules dialect.types locals := by
  refine (expression_makes dialect tree p).mono fun _ made locals extended => ?_
  exact (made False (by simp [spelled])).sound gov fun sym mem =>
    symbol_sound_mono extended (sound.symbols sym mem)

theorem condition_sound {tree} (spelled : tree.isSpelled) (sound : p.Sound rules) :
    Finds p (condition dialect tree) fun typed =>
      ∀ locals, Extends p.locals locals →
        typed.Sound rules dialect.types locals ∧ rules.Fits typed.type .bool := by
  refine (expression_sound gov spelled sound).bind fun _ givenSound => ?_
  exact (Finds.lift _).mono fun _ done locals later =>
    castTo_sound gov (givenSound locals later) (.inr rfl) done

omit gov in
theorem assigned_reaches (dialect : Dialect) (sound : p.Sound rules) (off : Nat) (name : Text) :
    Ensures p (assigned off name) fun place after =>
      Reached rules p after fun locals => place.Sound rules dialect.types locals := by
  refine (assigned_ensures off name).mono ?_
  rintro _ _ (⟨rfl, sym, found, rfl, isPlace⟩ | ⟨_, rfl, _, single, _, declares⟩)
  · refine .refl sound fun locals later => ?_
    have known := symbol_sound_mono later (sound.symbols sym (mem_of_find? found))
    rcases isPlace with ⟨_, rfl⟩ | ⟨_, _, rfl⟩
    · exact known
    · exact known
  · exact declares.reached Scopes.mem_declareGlobal sound (single ▸ rfl)

theorem assignment_sound {place given} (placeSound : place.Sound rules dialect.types locals)
    (givenSound : given.Sound rules dialect.types locals)
    (done : castTo dialect.types given place.type = .ok converted) :
    (Typed.Statement.assignment off place converted).Sound rules dialect.types locals :=
  ⟨placeSound, castTo_sound gov givenSound (placeSound.isResult gov.proper) done⟩

theorem assignment_reaches (sound : p.Sound rules) (off : Nat)
    {tgt val} (targetSpelled : tgt.isSpelled) (valueSpelled : val.isSpelled) :
    Ensures p (assignment dialect off tgt val) fun typed after =>
      Reached rules p after fun locals => typed.Sound rules dialect.types locals := by
  unfold assignment
  split
  · refine (assigned_reaches dialect sound _ _).bind fun place _ reached => ?_
    refine (expression_sound gov valueSpelled reached.sound).bind fun given givenSound => ?_
    refine (Finds.lift _).bind fun converted done => Ensures.pure ?_
    exact reached.andThen (Reached.refl reached.sound givenSound) fun _ placeSound valueSound =>
      assignment_sound gov placeSound valueSound done
  · refine (expression_sound gov valueSpelled sound).bind fun given givenSound => ?_
    refine (expression_sound gov targetSpelled sound).bind fun place placeSound => ?_
    split
    · refine (Finds.lift _).bind fun converted done => Ensures.pure ?_
      exact Reached.refl sound fun locals later =>
        assignment_sound gov (placeSound locals later) (givenSound locals later) done
    · exact .throw _

theorem declaration_reaches (sound : p.Sound rules)
    (off : Nat) (typeName name : Ident) {val} (spelled : val.isSpelled) :
    Ensures p (declaration dialect off typeName name val) fun typed after =>
      Reached rules p after fun locals => typed.Sound rules dialect.types locals := by
  refine (expression_sound gov spelled sound).bind fun given givenSound => ?_
  refine (lookupType_finds typeName).bind fun named ⟨_, found⟩ => ?_
  have isResult : (if named = .void then given.type else named).IsResult := by
    split
    · exact (givenSound _ (.refl _)).isResult gov.proper
    · exact sound.symbols _ (mem_of_find? found)
  generalize (if named = .void then given.type else named) = type at isResult
  dsimp only
  split
  · exact .throw _
  · next notVoid =>
    refine (declare_ensures name _ false).bind fun _ _ ⟨_, sameType, _, declares⟩ => ?_
    have reached := declares.reached Scopes.mem_declare sound (sameType ▸ isResult.isData notVoid)
    refine (Finds.lift _).bind fun _ done => Ensures.pure ?_
    refine reached.andThen (Reached.refl reached.sound fun locals later =>
      givenSound locals (reached.extended.trans later)) fun locals declaredSound valueSound => ?_
    obtain ⟨convertedSound, fits⟩ := castTo_sound gov valueSound isResult done
    exact ⟨declaredSound, convertedSound, sameType ▸ fits⟩

end

theorem persistentDeclaration_reaches (sound : p.Sound rules) (off : Nat) (typeName name : Ident) :
    Ensures p (persistentDeclaration off typeName name) fun typed after =>
      Reached rules p after fun locals => typed.Sound rules dialect.types locals := by
  refine (lookupType_finds typeName).bind fun named ⟨_, found⟩ => ?_
  split
  · exact .throw _
  · next notVoid =>
    have isResult : named.IsResult := sound.symbols _ (mem_of_find? found)
    refine (declare_ensures name _ true).bind fun _ _ ⟨_, sameType, _, declares⟩ => ?_
    exact .pure (declares.reached Scopes.mem_declare sound (sameType ▸ isResult.isData notVoid))

theorem Progress.Sound.opened (sound : p.Sound rules) :
    Progress.Sound rules { p with scopes := p.scopes.push } :=
  ⟨sound.symbols, sound.persistent, sound.ascending⟩

theorem Progress.Sound.closed (sound : p.Sound rules) {table scopes}
    (popped : p.scopes.pop = .ok (table, scopes)) : Progress.Sound rules { p with scopes } where
  symbols sym mem := by
    refine sound.symbols sym ?_
    rw [Scopes.symbols_of_pop popped]
    exact mem_append_right _ mem
  persistent := sound.persistent
  ascending := sound.ascending

variable (gov : Governed dialect.types rules)

include gov

mutual

theorem statement_reaches :
    (tree : Tree.Statement) → (loops : Nat) → (p : Progress) → tree.isSpelled → p.Sound rules →
      Ensures p (statement dialect loops tree) fun typed after =>
        Reached rules p after fun locals => typed.Sound rules dialect.types locals
  | .block body, loops, p, spelled, sound => by
    refine (block_reaches body loops p spelled sound).bind fun typed _ reached => ?_
    exact .pure reached
  | .assignment off tgt val, _, _, spelled, sound => by
    simp only [Tree.Statement.isSpelled, Bool.and_eq_true] at spelled
    unfold statement
    exact assignment_reaches gov sound off spelled.1 spelled.2
  | .declaration off typeName name val, _, _, spelled, sound => by
    exact declaration_reaches gov sound off typeName name spelled
  | .persistent off typeName name, _, _, _, sound => by
    exact persistentDeclaration_reaches sound off typeName name
  | .ifThen off condition yes, loops, p, spelled, sound
  | .whileLoop off condition yes, loops, p, spelled, sound => by
    simp only [Tree.Statement.isSpelled, Bool.and_eq_true] at spelled
    unfold statement
    refine (condition_sound gov spelled.1 sound).bind fun chosen chosenSound => ?_
    refine (block_reaches yes _ p spelled.2 sound).bind fun first _ reached => ?_
    exact Ensures.pure ((Reached.refl sound chosenSound).andThen reached
      fun _ chosen first => ⟨chosen.1, chosen.2, first⟩)
  | .ifElse off condition yes no, loops, p, spelled, sound => by
    simp only [Tree.Statement.isSpelled, Bool.and_eq_true] at spelled
    unfold statement
    refine (condition_sound gov spelled.1.1 sound).bind fun chosen chosenSound => ?_
    refine (block_reaches yes loops p spelled.1.2 sound).bind fun first mid reached => ?_
    refine (block_reaches no loops mid spelled.2 reached.sound).bind fun second _ more => ?_
    exact Ensures.pure (((Reached.refl sound chosenSound).andThen reached
      fun _ chosen first => And.intro chosen first).andThen more
      fun _ prev second => ⟨prev.1.1, prev.1.2, prev.2, second⟩)
  | .breakLoop _, _, _, _, sound | .continueLoop _, _, _, _, sound => by
    unfold statement
    split
    · exact .throw _
    · exact .pure (.refl sound fun _ _ => trivial)
  | .leave _, _, _, _, sound => by
    exact .pure (.refl sound fun _ _ => trivial)
  | .callStatement _ call, _, _, spelled, sound
  | .invocationStatement _ call, _, _, spelled, sound => by
    refine (expression_sound gov spelled sound).bind fun typed analysedSound => ?_
    exact .pure (.refl sound analysedSound)

theorem block_reaches :
    (tree : Tree.Block) → (loops : Nat) → (p : Progress) → tree.isSpelled → p.Sound rules →
      Ensures p (block dialect loops tree) fun typed after =>
        Reached rules p after fun locals => typed.Sound rules dialect.types locals
  | .mk _ body, loops, p, spelled, sound => by
    refine openScope_ensures.bind fun _ opened isOpened => ?_
    have openedSound : opened.Sound rules := isOpened ▸ sound.opened
    refine (statements_reach body loops opened spelled openedSound).bind fun typed _ reached => ?_
    refine closeScope_ensures.bind fun _ after ⟨_, popped, isAfter⟩ => ?_
    subst isOpened isAfter
    exact .pure ⟨reached.sound.closed popped, reached.extended, reached.made⟩

theorem statements_reach :
    (trees : List Tree.Statement) → (loops : Nat) → (p : Progress) →
      Tree.Statement.areSpelled trees → p.Sound rules →
      Ensures p (statements dialect loops trees) fun typed after =>
        Reached rules p after fun locals =>
          Typed.Statement.AllSound rules dialect.types locals typed
  | [], _, _, _, sound => by
    exact .pure (.refl sound fun _ _ => trivial)
  | first :: rest, loops, p, spelled, sound => by
    simp only [Tree.Statement.areSpelled, Bool.and_eq_true] at spelled
    unfold statements
    refine (statement_reaches first loops p spelled.1 sound).bind fun typed mid reached => ?_
    refine (statements_reach rest loops mid spelled.2 reached.sound).bind fun _ _ more => ?_
    exact .pure (reached.andThen more fun _ first rest => ⟨first, rest⟩)

end

theorem script_sound
    (bound : ∀ sym ∈ dialect.binding.symbols, sym.isVariable = false → sym.Sound rules #[])
    {root} (spelled : root.isSpelled) (accepted : script dialect root = .ok typed) :
    typed.Sound rules dialect.types := by
  obtain ⟨⟨body, after⟩, done, rest⟩ := ok_of_bind accepted
  cases rest
  have start : Progress.Sound rules
      { scopes := { global := dialect.binding.symbols.withoutVariables } } := by
    refine ⟨fun sym mem => ?_, nofun, .nil⟩
    simp only [Scopes.symbols, flatten_nil, nil_append, SymbolTable.withoutVariables,
      mem_filter, Bool.not_eq_true'] at mem
    exact bound sym mem.1 mem.2
  have reached := block_reaches gov root 0 _ spelled start body after done
  exact ⟨reached.made _ (.refl _), reached.sound.persistent, reached.sound.ascending⟩

end

end Analysis

end HostScript
