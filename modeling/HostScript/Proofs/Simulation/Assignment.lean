import HostScript.Proofs.Simulation.Expr

namespace HostScript.Simulation

open Machine Evaluation Emission

/-!
# Machine runs that carry out statements

`Performs` is to statements what `Carries` is to expressions.
-/

/-- There is a value for each variable, and none is an address. -/
structure Setting.Holds (env : Setting H) (slots : Array Value) : Prop where
  size : slots.size = env.locals.size
  plain : ∀ given ∈ slots, given.isPlain = true

theorem Setting.Holds.put {env : Setting H} (holds : env.Holds slots) (slot : Nat) {given : Value}
    (isPlain : given.isPlain) : env.Holds (slots.setIfInBounds slot given) where
  size := (Array.size_setIfInBounds).trans holds.size
  plain other mem := by
    rcases Array.mem_or_eq_of_mem_setIfInBounds mem with prev | same
    · exact holds.plain other prev
    · exact same ▸ isPlain

/-- Where the variables hold what they should, code carries out its evaluation. -/
theorem Setting.Holds.coded {env : Setting H} (holds : env.Holds slots) (same : tys = env.types)
    (code : Code tys item draft after) : Coded env slots item draft after := by
  subst same
  exact ⟨code, simulated holds.size holds.plain code⟩

/-- The variables of a configuration have known values. -/
structure Shows (env : Setting H) (slots : Array Value) (cfg : Configuration H) : Prop where
  holds : env.Holds slots
  slots : ∀ slot, slot < env.locals.size → cfg.frame.locals[slot]? = slots[slot]?

/-- The slots that statements may change: variables, and what their code owns. -/
def Changes (env : Setting H) (draft : Draft) (slot : Nat) : Prop :=
  slot < env.locals.size ∨ draft.Owns slot

theorem Changes.earlier {draft} (leads : draft.Leads after) (slot : Nat)
    (changes : Changes env after slot) : Changes env draft slot :=
  changes.imp id (leads.owns slot)

/-- The machine gets from a configuration to what came of statements, changing no slots but those
owned; if they were cut off, it runs for as many rounds as the loops were given. -/
def Performed (env : Setting H) (rounds : Nat) (owned : Nat → Prop)
    (suits : Signal → Array Value → Configuration H → Prop) (cfg : Configuration H)
    (log : List Interaction) :
    Option (Except Trouble Signal × Moment H) → Prop
  | none =>
    ∃ many seen last, rounds ≤ many ∧ Runs env.host env.program many cfg seen last
  | some (.ok signal, moment) =>
    ∃ many seen last, Runs env.host env.program many cfg seen last ∧
      moment.scene = last.scene (log ++ seen) ∧
      Kept owned cfg last ∧ suits signal moment.slots last
  | some (.error trouble, moment) =>
    ∃ many seen last, Runs env.host env.program many cfg seen last ∧
      moment.scene.log = log ++ (seen ++ observe env.program last) ∧
      Stops env.host env.program last trouble moment.scene.world ∧
      moment.scene.world.IsPlain env.clear ∧ Kept owned cfg last ∧
      Shows env moment.slots last

/-- From a configuration the machine carries out statements for variables with known values. -/
def Performs (env : Setting H) (rounds : Nat) (owned : Nat → Prop) (slots : Array Value)
    (cfg : Configuration H) (performance : Performance H)
    (suits : Signal → Array Value → Configuration H → Prop) : Prop :=
  ∀ log, Performed env rounds owned suits cfg log
    (performance ⟨slots, cfg.scene log⟩)

section

variable {env : Setting H} {rounds : Nat} {owned : Nat → Prop} {slots : Array Value}
  {cfg : Configuration H} {suits : Signal → Array Value → Configuration H → Prop}

/-- A run comes before what came of statements; its rounds count. -/
theorem Performed.later (run : Runs env.host env.program many cfg seen mid)
    (kept : Kept owned cfg mid) (bounded : bound ≤ many + rounds) :
    {res : Option (Except Trouble Signal × Moment H)} →
      Performed env rounds owned suits mid (log ++ seen) res →
        Performed env bound owned suits cfg log res
  | none, ⟨more, _, last, enough, further⟩ =>
    ⟨many + more, _, last, by omega, run.trans further⟩
  | some (.ok _, _), ⟨more, _, last, further, same, keptLater, suited⟩ =>
    ⟨many + more, _, last, run.trans further, by rw [same]; simp, kept.trans keptLater, suited⟩
  | some (.error _, _), ⟨more, _, last, further, logged, stops, plain, keptLater, shows⟩ =>
    ⟨many + more, _, last, run.trans further, by rw [logged]; simp, stops, plain,
      kept.trans keptLater, shows⟩

namespace Performs

theorem give (suited : suits signal slots cfg) :
    Performs env rounds owned slots cfg (Performance.give signal) suits :=
  fun _ => ⟨0, [], cfg, .refl cfg, by simp, .refl _ _, suited⟩

variable {performance : Performance H}

/-- A run that asks nothing comes before what carries out statements. -/
theorem later (run : Runs env.host env.program many cfg [] between)
    (sameWorld : between.world = cfg.world) (kept : Kept owned cfg between)
    (rest : Performs env rounds owned slots between performance suits) :
    Performs env rounds owned slots cfg performance suits := by
  intro log
  have ran := rest (log ++ [])
  rw [Configuration.scene, sameWorld] at ran
  have started := Performed.later run kept (Nat.le_add_left _ _) ran
  rwa [List.append_nil] at started

theorem further (performs : Performs env bound fewer slots cfg performance reached)
    (bounded : rounds ≤ bound) (included : ∀ slot, fewer slot → owned slot)
    (weaken : ∀ signal slots last, Kept fewer cfg last → reached signal slots last →
      ∃ many later, Runs env.host env.program many last [] later ∧
        later.world = last.world ∧ Kept owned last later ∧ suits signal slots later) :
    Performs env rounds owned slots cfg performance suits := by
  intro log
  have ran := performs log
  rcases res : performance ⟨slots, cfg.scene log⟩ with
    _ | ⟨trouble | signal, moment⟩ <;> rw [res] at ran
  · obtain ⟨many, seen, last, enough, run⟩ := ran
    exact ⟨many, seen, last, Nat.le_trans bounded enough, run⟩
  · obtain ⟨many, seen, last, run, logged, stops, plain, kept, shows⟩ := ran
    exact ⟨many, seen, last, run, logged, stops, plain, kept.mono included, shows⟩
  · obtain ⟨many, seen, last, run, same, kept, suited⟩ := ran
    obtain ⟨more, later, following, sameWorld, keptLater, suitedLater⟩ :=
      weaken signal moment.slots last kept suited
    refine ⟨many + more, seen ++ [], later, run.trans following, ?_,
      (kept.mono included).trans keptLater, suitedLater⟩
    rw [same, List.append_nil, Configuration.scene, ← sameWorld]

theorem mono (performs : Performs env rounds fewer slots cfg performance reached)
    (included : ∀ slot, fewer slot → owned slot)
    (weaken : ∀ signal slots last, reached signal slots last → suits signal slots last) :
    Performs env rounds owned slots cfg performance suits :=
  performs.further (Nat.le_refl _) included fun signal slots last _ suited =>
    ⟨0, last, .refl last, rfl, .refl _ _, weaken signal slots last suited⟩

theorem after (shows : Shows env slots cfg)
    (carries : Carries env fewer cfg (evaluated slots) between)
    (included : ∀ slot, fewer slot → owned slot)
    (above : ∀ slot, fewer slot → env.locals.size ≤ slot)
    (rest : ∀ res mid, Kept fewer cfg mid → between res mid →
      Performs env rounds owned slots mid (next res) suits) :
    Performs env rounds owned slots cfg (Performance.after evaluated next) suits := by
  intro log
  have carried := carries log
  unfold Performance.after
  rcases evaluation : evaluated slots (cfg.scene log) with
    ⟨trouble | res, scene⟩ <;> simp only [evaluation] at carried ⊢
  · obtain ⟨many, seen, last, run, logged, stops, plain, kept⟩ := carried
    refine ⟨many, seen, last, run, logged, stops, plain, kept.mono included, shows.holds, ?_⟩
    intro slot isVariable
    rw [kept.locals slot fun owns => absurd (above slot owns) (by omega)]
    exact shows.slots slot isVariable
  · obtain ⟨many, seen, mid, run, rfl, kept, reached⟩ := carried
    exact .later run (kept.mono included) (Nat.le_add_left _ _) (rest res mid kept reached _)

theorem andThen (prev : Performs env rounds owned slots cfg first reached)
    (rest : ∀ slots mid, Kept owned cfg mid → reached .passed slots mid →
      Performs env rounds owned slots mid second suits)
    (others : ∀ signal slots last, signal ≠ .passed → reached signal slots last →
      suits signal slots last) :
    Performs env rounds owned slots cfg (Performance.andThen first second) suits := by
  intro log
  have ran := prev log
  unfold Performance.andThen
  rcases started : first ⟨slots, cfg.scene log⟩ with
    _ | ⟨trouble | signal, moment⟩ <;> rw [started] at ran
  · exact ran
  · exact ran
  · obtain ⟨many, seen, mid, run, same, kept, suited⟩ := ran
    cases signal with
    | passed =>
      obtain ⟨slots, scene⟩ := moment
      obtain rfl : scene = _ := same
      exact .later run kept (Nat.le_add_left _ _) (rest slots mid kept suited _)
    | broke | continued | returned =>
      exact ⟨many, seen, mid, run, same, kept, others _ _ mid Signal.noConfusion suited⟩

/-- A loop: each round starts where the one before has jumped back to, and takes at least one round
of the machine. -/
theorem repeated {round} (enters : Array Value → Configuration H → Prop)
    (reached : Signal → Array Value → Configuration H → Prop)
    (performs : ∀ slots cfg, enters slots cfg → Performs env rounds owned slots cfg round reached)
    (again : ∀ signal slots last, signal = .passed ∨ signal = .continued →
      reached signal slots last →
      ∃ next, Runs env.host env.program 1 last [] next ∧ next.world = last.world ∧
        Kept owned last next ∧ enters slots next)
    (leaves : ∀ slots last, reached .broke slots last →
      ∃ many next, Runs env.host env.program many last [] next ∧
        next.world = last.world ∧ Kept owned last next ∧ suits .passed slots next)
    (returns : ∀ slots last, reached .returned slots last → suits .returned slots last)
    (bounded : count ≤ rounds) (entered : enters slots cfg) :
    Performs env count owned slots cfg (Performance.repeated round count) suits := by
  induction count generalizing slots cfg with
  | zero => exact fun log => ⟨0, [], cfg, Nat.zero_le _, .refl cfg⟩
  | succ count ih =>
    intro log
    have ran := performs slots cfg entered log
    unfold Performance.repeated
    have goesOn : ∀ signal moment many seen last, signal = .passed ∨ signal = .continued →
        Runs env.host env.program many cfg seen last →
        moment.scene = last.scene (log ++ seen) →
        Kept owned cfg last → reached signal moment.slots last →
        Performed env (count + 1) owned suits cfg log
          (Performance.repeated round count moment) := by
      intro signal ⟨slots, scene⟩ many seen last goes run same kept suited
      obtain rfl : scene = _ := same
      obtain ⟨next, jump, sameWorld, keptNext, enteredNext⟩ := again signal slots last goes suited
      have following := ih (Nat.le_of_succ_le bounded) enteredNext (log ++ seen)
      have run := run.trans jump
      rw [List.append_nil] at run
      rw [Configuration.scene, sameWorld] at following
      have enough : count + 1 ≤ many + 1 + count := by omega
      exact Performed.later run (kept.trans keptNext) enough following
    rcases started : round ⟨slots, cfg.scene log⟩ with
      _ | ⟨trouble | signal, moment⟩ <;> rw [started] at ran
    · obtain ⟨many, seen, last, enough, run⟩ := ran
      exact ⟨many, seen, last, Nat.le_trans bounded enough, run⟩
    · exact ran
    · obtain ⟨many, seen, last, run, same, kept, suited⟩ := ran
      cases signal with
      | passed => exact goesOn _ _ _ _ _ (.inl rfl) run same kept suited
      | continued => exact goesOn _ _ _ _ _ (.inr rfl) run same kept suited
      | broke =>
        obtain ⟨more, next, jump, sameWorld, keptNext, suitedNext⟩ :=
          leaves moment.slots last suited
        refine ⟨many + more, seen ++ [], next, run.trans jump, ?_, kept.trans keptNext, suitedNext⟩
        rw [same, List.append_nil, Configuration.scene, ← sameWorld]
      | returned => exact ⟨many, seen, last, run, same, kept, returns _ _ suited⟩

end Performs

end

open Typed (Expr Rules)
open Carries (apart on within)
open Draft (wrote_leads)

/-!
# Code of assignments carries out their evaluation

The target of an assignment is evaluated as far as it must be before the value is: its receiver,
then its indices.
-/

section

variable {env : Setting H} {slots : Array Value} {draft after : Draft}
  {cfg : Configuration H}

/-- The code after a draft carries out an action and leaves the stack as it was. -/
def Effects (env : Setting H) (slots : Array Value) (draft after : Draft) (cfg : Configuration H)
    (evaluated : Evaluator H α) : Prop :=
  Carries env draft.Owns cfg evaluated fun _ last =>
    Ready env slots after last ∧ last.frame.stack = cfg.frame.stack

/-! The instructions that take a value from the stack. -/

/-- What an access that stores leaves: nothing is known of its result. -/
theorem Carries.withoutResult {evaluated : Evaluator H α} {good : α → Prop}
    (carries : Carries env owned cfg evaluated fun res last =>
      Ready env slots after last ∧ last.frame.stack = rest ∧ good res) :
    Carries env owned cfg evaluated fun _ last =>
      Ready env slots after last ∧ last.frame.stack = rest :=
  carries.imp fun _ _ _ ⟨readyLast, stack, _⟩ => ⟨readyLast, stack⟩

theorem carries_writeStatic (allowed : Rules.valued.Member member)
    (isStatic : member.isStatic) (ready : Ready env slots draft cfg)
    (written : env.Written (draft.wrote (memberStoreDirective member)))
    (stack : cfg.frame.stack = stored :: rest) (isPlain : stored.isPlain) :
    Carries env owned cfg (writeStatic env.host stored member) fun _ last =>
      Ready env slots (draft.wrote (memberStoreDirective member)) last ∧
        last.frame.stack = rest := by
  cases member <;> simp only [DataMember.isStatic] at isStatic <;>
    simp only [memberStoreDirective, isStatic, if_true] at written ⊢
  case field field =>
    exact .withoutResult (apart ready written (.storeField false field stored)
      stack (env.guards.storeField rfl field isPlain))
  case property property =>
    have noOperands : ([] : List Value).length = property.params.length := by rw [allowed.2]; rfl
    exact .withoutResult (apart ready written (.setProperty false noOperands stored) stack
      (env.guards.setProperty rfl (List.forall_mem_nil _) property isPlain))

theorem carries_writeMember (allowed : Rules.valued.Member member)
    (isInstance : member.isStatic = false) (ready : Ready env slots draft cfg)
    (written : env.Written (draft.wrote (memberStoreDirective member)))
    (stack : cfg.frame.stack = stored :: standing :: rest) (looks : cfg.look standing = recv)
    (recvPlain : recv.isPlain) (isPlain : stored.isPlain) :
    Carries env owned cfg (writeMember env.host recv stored member) fun _ last =>
        Ready env slots (draft.wrote (memberStoreDirective member)) last ∧
          last.frame.stack = rest := by
  cases member <;> simp only [DataMember.isStatic] at isInstance <;>
    simp only [memberStoreDirective, isInstance, Bool.false_eq_true, if_false] at written ⊢
  case field field =>
    exact .withoutResult (on ready written (.storeField true field stored) stack looks
      (env.guards.storeField recvPlain field isPlain))
  case property property =>
    have noOperands : ([] : List Value).length = property.params.length := by rw [allowed.2]; rfl
    exact .withoutResult (on ready written (.setProperty true noOperands stored) stack looks
      (env.guards.setProperty recvPlain (List.forall_mem_nil _) property isPlain))

/-! The kinds of targets. -/

/-- The code of an assignment carries it out, wherever it is ready to run. -/
def Assigns (env : Setting H) (types : Universe) (target given : Expr) (draft after : Draft) :
    Prop :=
  types = env.types → env.Written after →
    (target.Sound Rules.valued env.types env.locals ∧
      given.Sound Rules.valued env.types env.locals ∧
      Rules.valued.Fits given.type target.type) →
    ∀ slots cfg, env.Holds slots → Ready env slots draft cfg →
      Effects env slots draft after cfg (assigned env.host env.types slots target given)

theorem ne_void_of_fits (fits : Rules.valued.Fits actual want) (isData : want.isData) :
    actual ≠ .void :=
  Ty.ne_void_of_isData (Rules.valued_proper.isData_of_fits fits isData)

section

variable {given : Expr}

theorem assigns_shared (isShared : field.shared) (givenCode : Code tys (.one given) draft second) :
    Assigns env tys (.reference off name (some (.field fieldName field))) given draft
      (second.wrote (.field Op.storeStaticField field)) := by
  intro same written ⟨allowed, givenSound, fits⟩ _ _ holds ready
  simp only [assigned, isShared, if_true]
  refine (holds.coded same givenCode).bind ready .one written givenSound
    (ne_void_of_fits fits allowed.1) fun stored _ _ readyMid stackMid isPlain => ?_
  exact .withoutResult (apart readyMid written (.storeField false field stored)
    stackMid (env.guards.storeField rfl field isPlain))

theorem assigns_own (isOwn : field.shared = false)
    (givenCode : Code tys (.one given) (draft.wrote (.plain Op.loadHost)) second) :
    Assigns env tys (.reference off name (some (.field fieldName field))) given draft
      (second.wrote (.field Op.storeField field)) := by
  rintro same written ⟨allowed, givenSound, fits⟩ _ _ holds ready
  have onGiven := holds.coded same givenCode
  have hostProper := Draft.wrote_proper ready.proper (.plain Op.loadHost)
  have givenLeads := (onGiven.grows.wrote (.field Op.storeField field) hostProper).2
  simp only [assigned, isOwn, Bool.false_eq_true, if_false]
  refine (carries_self ready (written.earlier givenLeads)).bind ?_
  rintro _ _ _ ⟨readyFirst, stackFirst, recvPlain⟩
  refine within (wrote_leads draft _) (onGiven.bind readyFirst .one
    written givenSound (ne_void_of_fits fits allowed.1)
    fun stored mid _ readyMid stackMid isPlain => ?_)
  rw [stackFirst] at stackMid
  exact .withoutResult (on readyMid written (.storeField true field stored)
    stackMid (mid.look_of_isPlain recvPlain)
    (env.guards.storeField recvPlain field isPlain))

/-- A member that belongs to no instance; its target is not evaluated. -/
theorem assigns_staticMember (isStatic : member.isStatic)
    (givenCode : Code tys (.one given) draft second) :
    Assigns env tys (.property off tgt name member) given draft
      (second.wrote (memberStoreDirective member)) := by
  intro same written ⟨⟨allowed, _⟩, givenSound, fits⟩ _ _ holds ready
  simp only [assigned, isStatic, if_true]
  exact (holds.coded same givenCode).bind ready .one written givenSound
    (ne_void_of_fits fits (Rules.valued_proper.member allowed))
    fun _ _ _ readyMid stackMid isPlain =>
      carries_writeStatic allowed isStatic readyMid written stackMid isPlain

theorem assigns_member (isInstance : member.isStatic = false)
    (tgtCode : Code tys (.receiver tgt false held) draft second)
    (givenCode : Code tys (.one given) second third) :
    Assigns env tys (.property off tgt name member) given draft
      ((third.wrote (memberStoreDirective member)).released held) := by
  rintro same written ⟨⟨allowed, onInstance⟩, givenSound, fits⟩ _ cfg holds ready
  obtain ⟨tgtSound, tgtData⟩ := onInstance isInstance
  have onTarget := holds.coded same tgtCode
  have onGiven := holds.coded same givenCode
  obtain ⟨secondProper, targetLeads⟩ := onTarget.grows ready.proper
  have storeWritten := written_released written
  have givenLeads := (onGiven.grows.wrote (memberStoreDirective member) secondProper).2
  have proper := (Draft.Grows.released held onTarget.grows (onTarget.code.grows _).2
    (onGiven.grows.wrote (memberStoreDirective member)) ready.proper).1
  simp only [assigned, isInstance, Bool.false_eq_true, if_false]
  refine (onTarget.simulates (storeWritten.earlier givenLeads) cfg ready tgtSound
    tgtData).bind ?_
  rintro _ _ _ ⟨readyFirst, recvPlain, _, stackFirst, looks⟩
  refine within targetLeads (onGiven.bind readyFirst .one
    storeWritten givenSound (ne_void_of_fits fits (Rules.valued_proper.member allowed))
    fun _ mid kept readyMid stackMid isPlain => ?_)
  rw [stackFirst] at stackMid
  -- the value's code leaves the receiver where its address points
  exact (carries_writeMember allowed isInstance readyMid storeWritten stackMid
    (looks mid (kept.mono fun _ owns => ⟨rfl, owns⟩)) recvPlain isPlain).imp
    fun _ _ _ done => ⟨done.1.released held proper, done.2⟩

theorem assigns_late (tgtCode : Code tys (.one tgt) draft second)
    (givenCode : Code tys (.one given) second third) :
    Assigns env tys (.lateProperty off tgt name) given draft
      (third.wrote (.name Op.lateSet name.name)) := by
  intro same written ⟨⟨tgtSound, tgtData⟩, givenSound, fits⟩ _ _ holds ready
  have onGiven := holds.coded same givenCode
  simp only [assigned]
  refine (holds.coded same tgtCode).bind ready (onGiven.grows.wrote _) written
    tgtSound (Ty.ne_void_of_isData tgtData)
    fun _ _ _ readyFirst stackFirst recvPlain => ?_
  refine onGiven.bind readyFirst .one written givenSound
    (ne_void_of_fits fits rfl) fun stored mid _ readyMid stackMid isPlain => ?_
  rw [stackFirst] at stackMid
  exact Carries.withoutResult (on readyMid written (.lateSet name.name stored)
    stackMid (mid.look_of_isPlain recvPlain)
    (env.guards.lateSet recvPlain isPlain name.name))

theorem assigns_element (tgtCode : Code tys (.one tgt) draft second)
    (idxsCode : Code tys (.many idxs) second third)
    (givenCode : Code tys (.one given) third fourth) :
    Assigns env tys (.index off tgt idxs none type) given draft
      (fourth.wrote (.rank Op.storeElement idxs.length)) := by
  intro same written ⟨⟨tgtSound, isArray, isData, idxsSound⟩, givenSound, fits⟩ _
    cfg holds ready
  have onIndices := holds.coded same idxsCode
  have onGiven := holds.coded same givenCode
  simp only [assigned]
  refine (holds.coded same tgtCode).bind ready
    (onIndices.grows.trans (onGiven.grows.wrote _)) written tgtSound
    (by rw [isArray]; exact Ty.noConfusion)
    fun array _ _ readyFirst stackFirst arrayPlain => ?_
  refine onIndices.bindAll readyFirst (onGiven.grows.wrote _) written idxsSound
    (isData_replicate rfl idxs) fun idx _ readyMid stackMid fit => ?_
  refine onGiven.bind readyMid .one written givenSound
    (ne_void_of_fits fits isData) fun _ last _ readyLast stackLast isPlain => ?_
  rw [stackMid, stackFirst] at stackLast
  have instr := written.emitted.rank
  have count : idxs.length = idx.length := by simpa using fit.length_eq
  rw [← readyLast.next, count] at instr
  have yields := yields_storeElement env.host idx instr stackLast
  rw [last.look_of_isPlain arrayPlain] at yields
  exact Carries.effect readyLast (.rank Op.storeElement idxs.length) yields
    (Act.writePlace_plain isPlain array idx)

/-- An indexer that belongs to no instance; its target is not evaluated. -/
theorem assigns_staticIndexer (isStatic : indexer.isStatic)
    (idxsCode : Code tys (.many idxs) draft second)
    (givenCode : Code tys (.one given) second third) :
    Assigns env tys (.index off tgt idxs (some indexer) type) given draft
      (third.wrote (indexerStoreDirective indexer)) := by
  intro same written ⟨⟨allowed, isType, idxsSound, _⟩, givenSound, fits⟩ _ _ holds ready
  have onGiven := holds.coded same givenCode
  simp only [indexerStoreDirective, isStatic, if_true] at written ⊢
  simp only [assigned, isStatic, if_true]
  refine (holds.coded same idxsCode).bindAll ready (onGiven.grows.wrote _) written
    idxsSound allowed.2 fun _ _ readyMid stackMid fit => ?_
  refine onGiven.bind readyMid .one written givenSound
    (ne_void_of_fits fits (isType ▸ allowed.1))
    fun stored _ _ readyLast stackLast isPlain => ?_
  rw [stackMid] at stackLast
  exact .withoutResult (apart readyLast written
    (.setProperty false fit.length_eq.symm stored) (by rw [stackLast, List.reverse_append]; rfl)
    (env.guards.setProperty rfl (isPlain_of_fit fit) indexer isPlain))

theorem assigns_indexer (isInstance : indexer.isStatic = false)
    (tgtCode : Code tys (.one tgt) draft second) (idxsCode : Code tys (.many idxs) second third)
    (givenCode : Code tys (.one given) third fourth) :
    Assigns env tys (.index off tgt idxs (some indexer) type) given draft
      (fourth.wrote (indexerStoreDirective indexer)) := by
  intro same written ⟨⟨allowed, isType, idxsSound, onInstance⟩, givenSound, fits⟩ _
    cfg holds ready
  obtain ⟨tgtSound, tgtData⟩ := onInstance isInstance
  have onIndices := holds.coded same idxsCode
  have onGiven := holds.coded same givenCode
  simp only [indexerStoreDirective, isInstance, Bool.false_eq_true, if_false] at written ⊢
  simp only [assigned, isInstance, Bool.false_eq_true, if_false]
  refine (holds.coded same tgtCode).bind ready
    (onIndices.grows.trans (onGiven.grows.wrote _)) written tgtSound
    (Ty.ne_void_of_isData tgtData)
    fun _ _ _ readyFirst stackFirst recvPlain => ?_
  refine onIndices.bindAll readyFirst (onGiven.grows.wrote _) written idxsSound
    allowed.2 fun _ _ readyMid stackMid fit => ?_
  refine onGiven.bind readyMid .one written givenSound
    (ne_void_of_fits fits (isType ▸ allowed.1))
    fun stored last _ readyLast stackLast isPlain => ?_
  rw [stackMid, stackFirst] at stackLast
  exact Carries.withoutResult (on readyLast written
    (.setProperty true fit.length_eq.symm stored) (by rw [stackLast, List.reverse_append]; rfl)
    (last.look_of_isPlain recvPlain)
    (env.guards.setProperty recvPlain (isPlain_of_fit fit) indexer isPlain))

end

end

end HostScript.Simulation
