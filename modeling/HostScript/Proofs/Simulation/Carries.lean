import HostScript.Proofs.Simulation.Setting

namespace HostScript.Simulation

open Machine Evaluation Emission

/-!
# Machine runs that carry out an evaluation

`Carries` says that a run of the machine from a configuration does what an evaluation does: it
asks the same of the host in the same order, leaves the same world, and comes to a configuration
that suits the result, or to an instruction that stops with the same trouble.
-/

/-- What a piece of code leaves as it was: all but the slots that it owns. -/
structure Kept (owned : Nat → Prop) (before after : Configuration H) : Prop where
  number : after.frame.number = before.frame.number
  regions : after.frame.regions = before.frame.regions
  completions : after.frame.completions = before.frame.completions
  size : after.frame.locals.size = before.frame.locals.size
  locals : ∀ slot, ¬owned slot → after.frame.locals[slot]? = before.frame.locals[slot]?

variable {work : Act H α} {good : α → Prop}

namespace Kept

variable {owned : Nat → Prop}

theorem refl (owned : Nat → Prop) (cfg : Configuration H) : Kept owned cfg cfg :=
  ⟨rfl, rfl, rfl, rfl, fun _ _ => rfl⟩

theorem trans (prev : Kept owned first second) (later : Kept owned second third) :
    Kept owned first third where
  number := later.number.trans prev.number
  regions := later.regions.trans prev.regions
  completions := later.completions.trans prev.completions
  size := later.size.trans prev.size
  locals slot other := (later.locals slot other).trans (prev.locals slot other)

theorem mono (kept : Kept fewer first second) (included : ∀ slot, fewer slot → owned slot) :
    Kept owned first second :=
  ⟨kept.number, kept.regions, kept.completions, kept.size,
    fun slot other => kept.locals slot fun owns => other (included slot owns)⟩

theorem moved (cfg : Configuration H) (next : Nat) (stack : List Value)
    (world : World H) : Kept owned cfg (cfg.moved next stack world) :=
  ⟨rfl, rfl, rfl, rfl, fun _ _ => rfl⟩

theorem stored (kept : Kept owned first second) (owns : owned slot) (val : Value) :
    Kept owned first (second.stored slot val) where
  number := kept.number
  regions := kept.regions
  completions := kept.completions
  size := (Array.size_setIfInBounds).trans kept.size
  locals other notOwned := by
    have differ : slot ≠ other := fun same => notOwned (same ▸ owns)
    exact (Array.getElem?_setIfInBounds_ne differ).trans (kept.locals other notOwned)

theorem look_eq (kept : Kept owned first second) {ref}
    (own : ref.frame = first.frame.number) (notOwned : ¬owned ref.slot) :
    second.look (.address ref) = first.look (.address ref) := by
  unfold Configuration.look
  simp only [own, kept.number, if_true]
  rw [Array.getD_eq_getD_getElem?, Array.getD_eq_getD_getElem?, kept.locals _ notOwned]

end Kept

/--
From a configuration the machine carries out an evaluation, changing no slots but those
owned; a result is found in a configuration that suits it.
-/
def Carries (env : Setting H) (owned : Nat → Prop) (cfg : Configuration H)
    (evaluated : Evaluator H α) (suits : α → Configuration H → Prop) : Prop :=
  ∀ log,
    match evaluated (cfg.scene log) with
    | (.ok result, scene) =>
      ∃ rounds seen last, Runs env.host env.program rounds cfg seen last ∧
        scene = last.scene (log ++ seen) ∧
        Kept owned cfg last ∧ suits result last
    | (.error trouble, scene) =>
      ∃ rounds seen last, Runs env.host env.program rounds cfg seen last ∧
        scene.log = log ++ (seen ++ observe env.program last) ∧
        Stops env.host env.program last trouble scene.world ∧
        scene.world.IsPlain env.clear ∧ Kept owned cfg last

variable {suits : α → Configuration H → Prop} {evaluated : Evaluator H α} {rest : List Value}

namespace Carries

variable {env : Setting H} {owned : Nat → Prop} {cfg : Configuration H}

theorem pure (suited : suits res cfg) : Carries env owned cfg (Pure.pure res) suits :=
  fun _ => ⟨0, [], cfg, .refl cfg, by simp, .refl _ _, suited⟩

theorem after {rounds between} (run : Runs env.host env.program rounds cfg [] between)
    (sameWorld : between.world = cfg.world) (kept : Kept owned cfg between)
    (rest : Carries env owned between evaluated suits) : Carries env owned cfg evaluated suits := by
  intro log
  have carried := rest log
  rw [Configuration.scene, sameWorld] at carried
  rcases ran : evaluated (cfg.scene log) with
    ⟨trouble | res, scene⟩ <;> rw [ran] at carried <;> dsimp only at carried ⊢
  · obtain ⟨more, seen, last, further, logged, stops, plain, keptLater⟩ := carried
    exact ⟨rounds + more, seen, last, run.trans further, logged, stops, plain, kept.trans keptLater⟩
  · obtain ⟨more, seen, last, further, same, keptLater, suited⟩ := carried
    exact ⟨rounds + more, seen, last, run.trans further, same, kept.trans keptLater, suited⟩

theorem bind (prev : Carries env owned cfg first between)
    (rest : ∀ res mid, Kept owned cfg mid → between res mid →
      Carries env owned mid (next res) suits) :
    Carries env owned cfg (first >>= next) suits := by
  intro log
  have carried := prev log
  rw [bind_apply]
  rcases ran : first (cfg.scene log) with
    ⟨trouble | res, scene⟩ <;> rw [ran] at carried <;> dsimp only at carried ⊢
  · exact carried
  · obtain ⟨rounds, seen, mid, run, rfl, kept, reached⟩ := carried
    have further := rest res mid kept reached (log ++ seen)
    rcases performedNext : next res (mid.scene (log ++ seen)) with
      ⟨trouble | final, scene⟩ <;> rw [performedNext] at further <;> dsimp only at further ⊢
    · obtain ⟨more, seenLater, last, later, logged, stops, plain, keptLater⟩ := further
      exact ⟨rounds + more, seen ++ seenLater, last, run.trans later,
        by rw [logged]; simp, stops, plain, kept.trans keptLater⟩
    · obtain ⟨more, seenLater, last, later, same, keptLater, suited⟩ := further
      exact ⟨rounds + more, seen ++ seenLater, last, run.trans later,
        by rw [same]; simp, kept.trans keptLater, suited⟩

theorem andThen (prev : Carries env owned cfg evaluated between)
    (rest : ∀ res mid, Kept owned cfg mid → between res mid →
      Carries env owned mid (Pure.pure res) suits) :
    Carries env owned cfg evaluated suits := by
  have carried := prev.bind rest
  rwa [bind_pure] at carried

theorem mono (carries : Carries env fewer cfg evaluated reached)
    (included : ∀ slot, fewer slot → owned slot)
    (weaken : ∀ res last, Kept fewer cfg last → reached res last → suits res last) :
    Carries env owned cfg evaluated suits := by
  intro log
  have carried := carries log
  rcases ran : evaluated (cfg.scene log) with
    ⟨trouble | res, scene⟩ <;> rw [ran] at carried <;> dsimp only at carried ⊢
  · obtain ⟨rounds, seen, last, run, logged, stops, plain, kept⟩ := carried
    exact ⟨rounds, seen, last, run, logged, stops, plain, kept.mono included⟩
  · obtain ⟨rounds, seen, last, run, same, kept, suited⟩ := carried
    exact ⟨rounds, seen, last, run, same, kept.mono included, weaken res last kept suited⟩

theorem imp (carries : Carries env owned cfg evaluated reached)
    (weaken : ∀ res last, Kept owned cfg last → reached res last → suits res last) :
    Carries env owned cfg evaluated suits :=
  carries.mono (fun _ owns => owns) weaken

theorem of_yields {next : Nat} {seen : World H → List Interaction} {results : α → List Value}
    (yields : Yields env.host env.program cfg next rest
      (seen cfg.world) (do return results (← work)))
    (plain : cfg.world.IsPlain env.clear) (keeps : Act.Plain env.clear work good) :
    Carries env owned cfg (act seen work) fun res last =>
      last = cfg.moved next ((results res).reverse ++ rest) last.world ∧
        last.world.IsPlain env.clear ∧ good res := by
  intro log
  obtain ⟨plainAfter, isGood⟩ := keeps.after plain
  rcases ran : work cfg.world with ⟨trouble | res, world⟩
  · have acted : act seen work (cfg.scene log) =
        (.error trouble, { world, log := log ++ seen cfg.world }) := by
      simp only [act, ran]
    rw [acted]
    rw [ran] at plainAfter
    refine ⟨0, [], cfg, .refl cfg, ?_, ?_, plainAfter, .refl _ _⟩
    · rw [yields.observed]
      rfl
    · exact yields.stops trouble world (by rw [bind_apply, ran])
  · have acted : act seen work (cfg.scene log) =
        (.ok res, { world, log := log ++ seen cfg.world }) := by
      simp only [act, ran]
    rw [acted]
    have continues := yields.continues (results res) world (by rw [bind_apply, ran]; rfl)
    rw [ran] at plainAfter isGood
    refine ⟨1, seen cfg.world, _, ?_, rfl, .moved _ _ _ _, rfl, plainAfter, isGood res rfl⟩
    rw [← yields.observed]
    exact .single continues

end Carries

section

variable {env : Setting H} {slots : Array Value} {cfg : Configuration H} {owned : Nat → Prop}

/-- A value is found on top of the stack, at the end of a draft. -/
abbrev Gives (env : Setting H) (slots : Array Value) (draft : Draft) (rest : List Value)
    (given : Value) (last : Configuration H) : Prop :=
  Ready env slots draft last ∧ last.frame.stack = given :: rest ∧ given.isPlain = true

variable (ready : Ready env slots draft cfg)

include ready

theorem Carries.instruction (d : Directive) (seen : World H → List Interaction)
    (results : α → List Value)
    (yields : Yields env.host env.program cfg (cfg.frame.next + d.size) rest (seen cfg.world)
      (do return results (← work)))
    (keeps : Act.Plain env.clear work good) :
    Carries env owned cfg (act seen work) fun res last =>
      Ready env slots (draft.wrote d) last ∧
        last.frame.stack = (results res).reverse ++ rest ∧ good res := by
  refine (Carries.of_yields yields ready.plain keeps).mono (fun _ owns => owns) ?_
  intro res last _ ⟨shape, plain, isGood⟩
  rw [shape]
  exact ⟨ready.wrote d rfl rfl plain, rfl, isGood⟩

variable {seen : List Interaction}

theorem Carries.value (d : Directive) {work}
    (yields : Yields env.host env.program cfg
      (cfg.frame.next + d.size) rest seen (do return [← work]))
    (keeps : Act.Plain env.clear work (·.isPlain)) :
    Carries env owned cfg (act (fun _ => seen) work) (Gives env slots (draft.wrote d) rest) :=
  Carries.instruction ready d (fun _ => seen) (fun given => [given]) yields keeps

theorem Carries.effect (d : Directive) {work}
    (yields : Yields env.host env.program cfg (cfg.frame.next + d.size) rest seen (do
        work
        return []))
    (keeps : Act.Plain env.clear work fun _ => True) :
    Carries env owned cfg (act (fun _ => seen) work)
      fun _ last => Ready env slots (draft.wrote d) last ∧ last.frame.stack = rest :=
  (Carries.instruction ready d (fun _ => seen) (fun _ => []) yields keeps).mono
    (fun _ owns => owns) fun _ _ _ ⟨readyLast, stack, _⟩ => ⟨readyLast, stack⟩

theorem Carries.on (written : env.Written (draft.wrote d))
    (asks : Asks env.host d true access args use results)
    (stack : cfg.frame.stack = args.reverse ++ standing :: rest) (looks : cfg.look standing = recv)
    (keeps : Act.Plain env.clear (use recv) good) :
    Carries env owned cfg (act (fun world => Interaction.on access recv (world.seen access args))
        (Act.onTarget recv use)) fun res last =>
        Ready env slots (draft.wrote d) last ∧
          last.frame.stack = (results res).reverse ++ rest ∧ good res := by
  obtain ⟨_, _, asm, pos, _⟩ := ready.located written
  have yields := asks.yields_on env.host asm pos stack
  rw [looks, ← asks.size_eq] at yields
  exact .instruction ready d
    (fun world => Interaction.on access recv (world.seen access args)) results yields
    (.onTarget keeps)

theorem Carries.apart (written : env.Written (draft.wrote d))
    (asks : Asks env.host d false access args use results)
    (stack : cfg.frame.stack = args.reverse ++ rest)
    (keeps : Act.Plain env.clear (use .null) good) :
    Carries env owned cfg
      (act (fun world => Interaction.apart access (world.seen access args)) (use .null))
      fun res last =>
        Ready env slots (draft.wrote d) last ∧
          last.frame.stack = (results res).reverse ++ rest ∧ good res := by
  obtain ⟨_, _, asm, pos, _⟩ := ready.located written
  have yields := asks.yields_apart env.host asm pos stack
  rw [← asks.size_eq] at yields
  exact .instruction ready d
    (fun world => Interaction.apart access (world.seen access args)) results yields keeps

theorem Carries.push (d : Directive)
    (yields : Yields env.host env.program cfg (cfg.frame.next + d.size) rest [] (Pure.pure results))
    (following : ∀ last, Ready env slots (draft.wrote d) last →
      last.frame.stack = results.reverse ++ rest → last.world = cfg.world →
      Kept owned cfg last → last.frame.locals = cfg.frame.locals →
      Carries env owned last evaluated suits) :
    Carries env owned cfg evaluated suits := by
  have continues := yields.continues results cfg.world rfl
  have run := Runs.single continues
  rw [yields.observed] at run
  refine .after run rfl (.moved _ _ _ _) ?_
  exact following _ (ready.wrote d rfl rfl ready.plain) rfl rfl (.moved _ _ _ _) rfl

omit ready in
theorem Carries.jumpIf (want : Bool) (ready : Ready env slots draft cfg)
    (written : env.Written (draft.wrote (.jump (jumpOp want) label)))
    (marked : Assembly.target? env.directives label = some tgt)
    (stack : cfg.frame.stack = given :: rest) :
    Carries env owned cfg (quietly (Act.boolean env.host given)) fun decided last =>
        last = cfg.moved (if decided = want then tgt else cfg.frame.next + 3) rest cfg.world := by
  obtain ⟨silent, decides⟩ := cycle_jumpIf env.host (ready.jump written marked) stack
  intro log
  have unchanged : (Act.boolean env.host given cfg.world).2 = cfg.world := by
    cases given <;> rfl
  rcases looked : Act.boolean env.host given cfg.world with
    ⟨trouble | decided, world⟩
  · rw [looked] at decides unchanged
    have acted : quietly (.boolean env.host given) (cfg.scene log) =
        (.error trouble, { world, log := log ++ [] }) := by
      simp only [quietly, act, looked]
    obtain rfl : world = cfg.world := unchanged
    rw [acted]
    exact ⟨0, [], cfg, .refl cfg, by simp [silent], decides, ready.plain, .refl _ _⟩
  · rw [looked] at decides unchanged
    obtain rfl : world = cfg.world := unchanged
    have acted : quietly (.boolean env.host given) (cfg.scene log) =
        (.ok decided, { world := cfg.world, log := log ++ [] }) := by
      simp only [quietly, act, looked]
    rw [acted]
    exact ⟨1, [], _, .silently ⟨silent, decides⟩, rfl, .moved _ _ _ _, rfl⟩

end

end HostScript.Simulation
