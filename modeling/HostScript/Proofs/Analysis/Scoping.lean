import HostScript.Proofs.Typing.Analysis

namespace HostScript

open List

/-!
# Static scoping

`Statement.extend` says what a statement declares, by its text alone.
-/

/-- The variables that the text declares before a place. -/
structure Declared where
  /-- Those of the enclosing blocks, the innermost first. -/
  blocks : List (List Variable) := []
  /-- Those that an assignment declares, anywhere. -/
  assigned : List Variable := []
  /-- All of the script, in the order of declaration. -/
  all : List Variable := []

namespace Declared

/-- The variables that a name may denote. -/
def visible (decl : Declared) : List Variable :=
  decl.blocks.flatten ++ decl.assigned

/-- A name denotes the only variable of this name. -/
def Denotes (decl : Declared) (name : Text) (denoted : Variable) : Prop :=
  denoted ∈ decl.visible ∧ denoted.name = name ∧
    ∀ other ∈ decl.visible, other.name = name → other = denoted

def declare (decl : Declared) (added : Variable) : Declared :=
  { decl with
    blocks := decl.blocks.modifyHead (· ++ [added])
    all := decl.all ++ [added] }

def assign (decl : Declared) (added : Variable) : Declared :=
  { decl with
    assigned := decl.assigned ++ [added]
    all := decl.all ++ [added] }

def target (decl : Declared) : Typed.Expr → Declared
  | .reference _ _ (some (.variable denoted)) =>
    if denoted ∈ decl.visible then decl else decl.assign denoted
  | _ => decl

def scopes (decl : Declared) (bound : SymbolTable) : Scopes where
  blocks := decl.blocks.map (List.map .variable)
  global := bound ++ decl.assigned.map .variable

end Declared

namespace Typed

mutual

def Statement.extend (decl : Declared) : Statement → Declared
  | .block body => body.extend decl
  | .assignment _ place _ => decl.target place
  | .declaration _ _ _ added _ | .persistent _ _ _ added => decl.declare added
  | .ifThen _ _ yes => yes.extend decl
  | .ifElse _ _ yes no => no.extend (yes.extend decl)
  | .whileLoop _ _ body => body.extend decl
  | .breakLoop _ | .continueLoop _ | .leave _ | .callStatement _ _
  | .invocationStatement _ _ => decl

/-- What is declared after a block: its own variables are not. -/
def Block.extend (decl : Declared) : Block → Declared
  | .mk _ _ body =>
    { Statement.extendAll { decl with blocks := [] :: decl.blocks } body with
      blocks := decl.blocks }

def Statement.extendAll (decl : Declared) : List Statement → Declared
  | [] => decl
  | first :: rest => Statement.extendAll (first.extend decl) rest

end

mutual

/-- The names in an expression that are resolved to variables. -/
def Expr.uses : Expr → List (Text × Variable)
  | .reference _ name (some (.variable denoted)) => [(name, denoted)]
  | .literal _ _ | .reference _ _ _ => []
  | .operator _ _ left right _ _ => left.uses ++ right.uses
  | .unary _ _ operand _ | .cast _ _ _ operand => operand.uses
  | .conditional _ condition yes no _ => condition.uses ++ (yes.uses ++ no.uses)
  | .call _ _ _ args | .expansion _ _ _ args _ => Expr.allUses args
  | .invocation _ target _ args _ | .lateInvocation _ target _ args
  | .index _ target args _ _ => target.uses ++ Expr.allUses args
  | .property _ target _ _ | .lateProperty _ target _ => target.uses

def Expr.allUses : List Expr → List (Text × Variable)
  | [] => []
  | first :: rest => first.uses ++ Expr.allUses rest

end

def Expr.IsScoped (decl : Declared) (expression : Expr) : Prop :=
  ∀ use ∈ expression.uses, decl.Denotes use.1 use.2

theorem Expr.target_eq {decl : Declared} {place : Expr} (means : place.IsScoped decl) :
    decl.target place = decl := by
  unfold Declared.target
  split
  · exact if_pos (means _ (List.mem_singleton_self _)).1
  · rfl

mutual

/-- Each name means the only variable of this name that is declared before in the text. -/
def Statement.IsScoped (decl : Declared) : Statement → Prop
  | .block body => body.IsScoped decl
  | .assignment _ place value =>
    place.IsScoped (decl.target place) ∧ value.IsScoped (decl.target place)
  | .declaration _ _ name added value => value.IsScoped decl ∧ added.name = name.name
  | .persistent _ _ name added => added.name = name.name
  | .ifThen _ condition body | .whileLoop _ condition body =>
    condition.IsScoped decl ∧ body.IsScoped decl
  | .ifElse _ condition yes no =>
    condition.IsScoped decl ∧ yes.IsScoped decl ∧ no.IsScoped (yes.extend decl)
  | .breakLoop _ | .continueLoop _ | .leave _ => True
  | .callStatement _ call | .invocationStatement _ call => call.IsScoped decl

def Block.IsScoped (decl : Declared) : Block → Prop
  | .mk _ _ body => Statement.AreScoped { decl with blocks := [] :: decl.blocks } body

def Statement.AreScoped (decl : Declared) : List Statement → Prop
  | [] => True
  | first :: rest => first.IsScoped decl ∧ Statement.AreScoped (first.extend decl) rest

end

end Typed

/-- A name is read or declared. -/
structure Moment where
  progress : Analysis.Progress
  declared : Declared
  isRead : Bool
  offset : Nat
  name : Text

/-- A name that is read has to mean something, one that is declared must not. -/
def Moment.fault? (moment : Moment) : Option CompileFailure :=
  match moment.isRead, moment.progress.scopes.find? moment.name with
  | true, none => some (semantic moment.offset (.undeclared moment.name))
  | false, some _ => some (semantic moment.offset (.previouslyDeclared moment.name))
  | _, _ => none

namespace Analysis

def andThen (outcome : Except CompileFailure α) (further : α → List Moment) : List Moment :=
  match outcome with
  | .ok value => further value
  | .error _ => []

def receiverMoments (dialect : Dialect) (target : Tree.Expr)
    (own further : Progress → List Moment) (progress : Progress) : List Moment :=
  andThen (typeTarget? target progress) fun found =>
    match found.1 with
    | some _ => further found.2
    | none =>
      own found.2 ++ andThen (expression dialect target found.2) fun given =>
        andThen (valueTarget target.offset given.1 given.2) fun receiver => further receiver.2

end Analysis

namespace Tree

open Analysis (Progress andThen)

variable (dialect : Dialect)

mutual

def Expr.moments (decl : Declared) : Expr → Progress → List Moment
  | .literal _ _, _ | .conversion _ _, _ => []
  | .reference offset name, progress => [⟨progress, decl, true, offset, name⟩]
  | .operator _ _ left right, progress =>
    left.moments decl progress ++
      andThen (Analysis.expression dialect left progress) fun made => right.moments decl made.2
  | .unary _ _ operand, progress | .cast _ _ operand, progress =>
    operand.moments decl progress
  | .conditional _ condition yes no, progress =>
    condition.moments decl progress ++
      andThen (Analysis.expression dialect condition progress) fun tested =>
        andThen (Analysis.castTo dialect.types tested.1 .bool) fun _ =>
          yes.moments decl tested.2 ++
            andThen (Analysis.expression dialect yes tested.2) fun made =>
              no.moments decl made.2
  | .call _ name args, progress =>
    match progress.scopes.find? name.name with
    | some (.transform _ _) => Expr.allMoments decl args progress
    | some (.method _ method) =>
      if args.length = method.params.length then
        Expr.allMoments decl args progress
      else []
    | _ => []
  | .invocation _ target _ args, progress | .index _ target args, progress =>
    Analysis.receiverMoments dialect target (target.moments decl)
      (Expr.allMoments decl args) progress
  | .property _ target _, progress =>
    Analysis.receiverMoments dialect target (target.moments decl) (fun _ => []) progress
  | .lateInvocation _ target _ args, progress =>
    target.moments decl progress ++
      andThen (Analysis.expression dialect target progress) fun given =>
        andThen (Analysis.valueTarget target.offset given.1 given.2) fun receiver =>
          Expr.boxedMoments decl args receiver.2
  | .lateProperty _ target _, progress => target.moments decl progress

def Expr.allMoments (decl : Declared) : List Expr → Progress → List Moment
  | [], _ => []
  | first :: rest, progress =>
    first.moments decl progress ++ andThen (Analysis.expression dialect first progress) fun made =>
        Expr.allMoments decl rest made.2

def Expr.boxedMoments (decl : Declared) : List Expr → Progress → List Moment
  | [], _ => []
  | first :: rest, progress =>
    first.moments decl progress ++ andThen (Analysis.expression dialect first progress) fun made =>
        andThen (Analysis.castTo dialect.types made.1 .object) fun _ =>
          Expr.boxedMoments decl rest made.2

end

/-- The moments of an assignment; a plain name denotes a variable before the value is read. -/
def assignmentMoments (decl : Declared) (target value : Expr) (progress : Progress) :
    List Moment :=
  match target with
  | .reference offset name =>
    andThen (Analysis.assigned offset name progress) fun place =>
      ⟨place.2, decl.target place.1, true, offset, name⟩ ::
        value.moments dialect (decl.target place.1) place.2
  | _ =>
    value.moments dialect decl progress ++
      andThen (Analysis.expression dialect value progress) fun given =>
        target.moments dialect decl given.2

/-- The moments of a declaration; the value is read before the name is declared. -/
def declarationMoments (decl : Declared) (typeName name : Ident) (value : Expr)
    (progress : Progress) : List Moment :=
  value.moments dialect decl progress ++
    andThen (Analysis.expression dialect value progress) fun given =>
      andThen (Analysis.lookupType typeName given.2) fun named =>
        if (if named.1 = .void then given.1.type else named.1) = .void then []
        else [⟨named.2, decl, false, name.offset, name.name⟩]

mutual

def Statement.moments (loops : Nat) (decl : Declared) :
    Statement → Progress → List Moment
  | .block body, progress => body.moments loops decl progress
  | .assignment _ target value, progress =>
    assignmentMoments dialect decl target value progress
  | .declaration _ typeName name value, progress =>
    declarationMoments dialect decl typeName name value progress
  | .persistent _ typeName name, progress =>
    andThen (Analysis.lookupType typeName progress) fun named =>
      if named.1 = .void then []
      else [⟨named.2, decl, false, name.offset, name.name⟩]
  | .ifThen _ tree yes, progress =>
    tree.moments dialect decl progress ++
      andThen (Analysis.condition dialect tree progress) fun chosen =>
        yes.moments loops decl chosen.2
  | .ifElse _ tree yes no, progress =>
    tree.moments dialect decl progress ++
      andThen (Analysis.condition dialect tree progress) fun chosen =>
        yes.moments loops decl chosen.2 ++
          andThen (Analysis.block dialect loops yes chosen.2) fun first =>
            no.moments loops (first.1.extend decl) first.2
  | .whileLoop _ tree body, progress =>
    tree.moments dialect decl progress ++
      andThen (Analysis.condition dialect tree progress) fun chosen =>
        body.moments (loops + 1) decl chosen.2
  | .breakLoop _, _ | .continueLoop _, _ | .leave _, _ => []
  | .callStatement _ call, progress | .invocationStatement _ call, progress =>
    call.moments dialect decl progress

def Block.moments (loops : Nat) (decl : Declared) : Block → Progress → List Moment
  | .mk _ body, progress =>
    Statement.allMoments loops { decl with blocks := [] :: decl.blocks } body
      { progress with scopes := progress.scopes.push }

def Statement.allMoments (loops : Nat) (decl : Declared) :
    List Statement → Progress → List Moment
  | [], _ => []
  | first :: rest, progress =>
    first.moments loops decl progress ++
      andThen (Analysis.statement dialect loops first progress) fun made =>
        Statement.allMoments loops (made.1.extend decl) rest made.2

end

end Tree

open Declared (visible)

variable {outcome : Except CompileFailure α} {failure : CompileFailure}

namespace Analysis

open Typed (Expr)

def isScoping : CompileFailure → Bool
  | .classified .semantic _ (.cause (.undeclared _))
  | .classified .semantic _ (.cause (.previouslyDeclared _)) => true
  | _ => false

def Calm (outcome : Except CompileFailure α) : Prop :=
  ∀ failure, outcome = .error failure → isScoping failure = false

theorem Calm.ok (val : α) : Calm (.ok val) := nofun

theorem Calm.error (other : isScoping failure = false) :
    Calm (.error failure : Except CompileFailure α) := by
  rintro _ ⟨⟩
  exact other

theorem Calm.bind (first : Calm outcome) (rest : ∀ val, Calm (cont val)) :
    Calm (outcome >>= cont) := by
  cases outcome with
  | error failure => exact .error (first failure rfl)
  | ok val => exact rest val

/-- A step that comes to no name, and whose result has only names that are given. -/
structure Keeps (given : List (Text × Variable)) (outcome : Except CompileFailure Expr) :
    Prop where
  calm : Calm outcome
  uses : ∀ made, outcome = .ok made → made.uses ⊆ given

namespace Keeps

variable {given : List (Text × Variable)}

theorem ok (subset : made.uses ⊆ given) : Keeps given (.ok made) := by
  refine ⟨.ok made, ?_⟩
  rintro _ ⟨⟩
  exact subset

theorem error (other : isScoping failure = false) : Keeps given (.error failure) :=
  ⟨.error other, nofun⟩

theorem bind {outcome} (first : Keeps part outcome)
    (rest : ∀ made, made.uses ⊆ part → Keeps given (cont made)) :
    Keeps given (outcome >>= cont) := by
  cases outcome with
  | error failure => exact .error (first.calm failure rfl)
  | ok made => exact rest made (first.uses made rfl)

end Keeps

section

variable (types : Universe)

theorem convertTo_keeps (off : Nat) (name : Option Ident) (given : Expr) (target : Ty) :
    Keeps given.uses (convertTo types off name given target) := by
  unfold convertTo
  dsimp only
  repeat' first
    | exact .ok (Subset.refl _)
    | exact .error rfl
    | split

theorem toNumber_keeps (given : Expr) (target : Ty) :
    Keeps given.uses (toNumber types given target) := by
  unfold toNumber
  split
  · exact .ok (Subset.refl _)
  · exact convertTo_keeps _ _ _ _ _

theorem truth_keeps (off : Nat) (given : Expr) : Keeps given.uses (truth types off given) := by
  unfold truth
  dsimp only
  repeat' first
    | exact .ok (by simp [Expr.uses])
    | exact .error rfl
    | split
  refine (toNumber_keeps types _ _).bind fun left kept => ?_
  refine (toNumber_keeps types _ _).bind fun right none => ?_
  exact .ok (append_subset.mpr ⟨kept, fun _ mem => absurd (none mem) not_mem_nil⟩)

theorem castTo_keeps (given : Expr) (target : Ty) :
    Keeps given.uses (castTo types given target) := by
  unfold castTo
  dsimp only
  repeat' first
    | exact .ok (Subset.refl _)
    | exact .error rfl
    | exact truth_keeps _ _ _
    | exact convertTo_keeps _ _ _ _ _
    | split

theorem writtenCast_keeps (off : Nat) (name : Ident) (target : Ty) (operand : Expr) :
    Keeps operand.uses (writtenCast types off name target operand) := by
  unfold writtenCast
  dsimp only
  repeat' first
    | exact .ok (Subset.refl _)
    | exact .error rfl
    | exact truth_keeps _ _ _
    | exact convertTo_keeps _ _ _ _ _
    | split

theorem operator_keeps (off : Nat) (op : Operator) (left right : Expr) :
    Keeps (left.uses ++ right.uses) (operator types off op left right) := by
  have converted : ∀ {first second : Expr}, first.uses ⊆ left.uses → second.uses ⊆ right.uses →
      first.uses ++ second.uses ⊆ left.uses ++ right.uses := fun ofLeft ofRight =>
    append_subset.mpr
      ⟨subset_append_of_subset_left _ ofLeft, subset_append_of_subset_right _ ofRight⟩
  unfold operator
  dsimp only
  repeat' first
    | exact .ok (Subset.refl _)
    | exact .error rfl
    | exact (castTo_keeps types _ _).bind fun _ ofLeft =>
        (castTo_keeps types _ _).bind fun _ ofRight => .ok (converted ofLeft ofRight)
    | split

theorem castAll_calm (given : List Expr) (params : List Ty) :
    Calm (castAll types given params) := by
  induction given generalizing params with
  | nil => exact .ok _
  | cons first _ ih =>
    cases params with
    | nil => exact .ok _
    | cons param params =>
      exact (castTo_keeps types first param).calm.bind fun _ => (ih params).bind fun _ => .ok _

theorem castAll_uses (done : castAll types given params = .ok converted) :
    Expr.allUses converted ⊆ Expr.allUses given := by
  induction given generalizing params converted with
  | nil =>
    cases done
    exact Subset.refl _
  | cons first _ ih =>
    cases params with
    | nil =>
      cases done
      exact Subset.refl _
    | cons param params =>
      obtain ⟨made, firstDone, done⟩ := ok_of_bind done
      obtain ⟨others, restDone, done⟩ := ok_of_bind done
      cases done
      exact append_subset.mpr
        ⟨subset_append_of_subset_left _ ((castTo_keeps types _ _).uses made firstDone),
          subset_append_of_subset_right _ (ih restDone)⟩

end

mutual

theorem final_uses : (tree : Tree.Expr) → (final tree).uses = []
  | .literal _ _ | .reference _ _ | .invocation _ _ _ _ | .property _ _ _ => rfl
  | .operator _ _ left right => by simp [final, Expr.uses, final_uses left, final_uses right]
  | .unary _ _ operand | .lateProperty _ operand _ => final_uses operand
  | .conditional _ condition yes no => by
    simp [final, Expr.uses, final_uses condition, final_uses yes, final_uses no]
  | .cast _ _ operand => by simp [final, missing, Expr.uses, Expr.allUses, final_uses operand]
  | .conversion _ operand => by
    rw [final]
    split
    · exact final_uses operand
    · simp [missing, Expr.uses, Expr.allUses, final_uses operand]
  | .call _ _ args => finals_uses args
  | .lateInvocation _ target _ args | .index _ target args => by
    simp [final, Expr.uses, final_uses target, finals_uses args]

theorem finals_uses : (trees : List Tree.Expr) → Expr.allUses (finals trees) = []
  | [] => rfl
  | first :: rest => by simp [finals, Expr.allUses, final_uses first, finals_uses rest]

end

section

variable {dialect : Dialect} {scopes : Scopes}

theorem Target.Proper.uses {target : Target} (proper : target.Proper)
    (ofValue : target.isStatic = false →
      ∀ use ∈ target.expression.uses, scopes.find? use.1 = some (.variable use.2)) :
    ∀ use ∈ target.expression.uses, scopes.find? use.1 = some (.variable use.2) := by
  cases isStatic : target.isStatic with
  | false => exact ofValue isStatic
  | true =>
    have named := proper.named isStatic
    unfold Expr.namesType at named
    split at named
    · next same =>
      rw [same]
      exact forall_mem_nil _
    · cases named

theorem forall_mem_allUses (all : ∀ argument ∈ given, ∀ use ∈ Expr.uses argument,
      scopes.find? use.1 = some (.variable use.2)) :
    ∀ use ∈ Expr.allUses given, scopes.find? use.1 = some (.variable use.2) := by
  induction given with
  | nil => exact forall_mem_nil _
  | cons first _ ih =>
    obtain ⟨ofFirst, ofRest⟩ := forall_mem_cons.mp all
    exact forall_mem_append.mpr ⟨ofFirst, ih ofRest⟩

/-- The names in what analysis makes were found in the tables. -/
theorem Elaborated.uses {finals expr} (made : Elaborated dialect scopes finals expr) :
    ∀ use ∈ expr.uses, scopes.find? use.1 = some (.variable use.2) := by
  induction made with
  | literal _ _ => exact forall_mem_nil _
  | reference _ found isPlace =>
    rcases isPlace with ⟨_, rfl⟩ | ⟨_, _, rfl⟩
    · exact forall_mem_singleton.mpr found
    · exact forall_mem_nil _
  | operator _ _ done left right =>
    intro use mem
    exact forall_mem_append.mpr ⟨left, right⟩ use ((operator_keeps _ _ _ _ _).uses _ done mem)
  | negation _ _ _ operand => exact operand
  | complement _ _ done operand =>
    exact fun use mem => operand use ((castTo_keeps _ _ _).uses _ done mem)
  | conditional _ _ _ _ chosenDone firstDone secondDone condition yes no =>
    refine forall_mem_append.mpr ⟨fun use mem => ?_, forall_mem_append.mpr
      ⟨fun use mem => ?_, fun use mem => ?_⟩⟩
    · exact condition use ((castTo_keeps _ _ _).uses _ chosenDone mem)
    · exact yes use ((castTo_keeps _ _ _).uses _ firstDone mem)
    · exact no use ((castTo_keeps _ _ _).uses _ secondDone mem)
  | cast _ _ done operand =>
    exact fun use mem => operand use ((writtenCast_keeps _ _ _ _ _).uses _ done mem)
  | final _ type tree =>
    rw [final_uses]
    exact forall_mem_nil _
  | call _ _ _ _ done given =>
    exact fun use mem => forall_mem_allUses given use (castAll_uses _ done mem)
  | expansion _ _ _ _ given => exact forall_mem_allUses given
  | invocation _ proper _ _ _ _ done target given
  | indexed _ proper _ _ _ _ _ done target given =>
    refine forall_mem_append.mpr ⟨proper.uses target, fun use mem => ?_⟩
    exact forall_mem_allUses given use (castAll_uses _ done mem)
  | lateInvocation _ _ _ _ _ done target given | element _ _ _ _ done target given =>
    refine forall_mem_append.mpr ⟨target, fun use mem => ?_⟩
    exact forall_mem_allUses given use (castAll_uses _ done mem)
  | property _ proper _ _ target => exact proper.uses target
  | lateProperty _ _ _ _ target => exact target

end

/-- The tables of an analysis hold the bound symbols and what the text declares. -/
structure Tracks (bound : SymbolTable) (decl : Declared) (progress : Progress) : Prop where
  plain : ∀ symbol ∈ bound, symbol.isVariable = false
  scopes : progress.scopes = decl.scopes bound
  names : (decl.visible.map Variable.name).Nodup
  fresh : ∀ known ∈ decl.visible, ∀ symbol ∈ bound, symbol.name ≠ known.name
  assigned : ∀ known ∈ decl.assigned, known.type = .single ∧ known.isPersistent = true
  slots : (decl.all.map Variable.slot).Pairwise (· < ·)
  below : ∀ known ∈ decl.all, known.slot < progress.locals.size

/--
The moments of an analysis: it fails for a name just if one of them is at fault, and the tables
are known at all of them and in the end.
-/
structure Charts (bound : SymbolTable) (progress : Progress) (run : Analyzer α)
    (moments : List Moment) (post : α → Progress → Prop) : Prop where
  faults : ∀ failure, isScoping failure = true →
    (run progress = .error failure ↔ ∃ moment ∈ moments, moment.fault? = some failure)
  tracked : ∀ moment ∈ moments, Tracks bound moment.declared moment.progress
  ensures : Ensures progress run post

section

variable {bound : SymbolTable} {p : Progress} {run : Analyzer α} {moments : List Moment}
  {between post : α → Progress → Prop}

namespace Charts

theorem quiet (calm : Calm (run p)) (ensures : Ensures p run post) :
    Charts bound p run [] post := by
  refine ⟨fun failure scoping => ⟨fun failed => ?_, nofun⟩, nofun, ensures⟩
  exact nomatch scoping.symm.trans (calm failure failed)

theorem pure (ensured : post res p) : Charts bound p (Pure.pure res) [] post :=
  quiet nofun (.pure ensured)

theorem throw (other : isScoping failure = false) :
    Charts bound p (MonadExcept.throw failure : Analyzer α) [] post :=
  quiet (.error other) (.throw _)

theorem mono (charts : Charts bound p run moments post)
    (implies : ∀ res after, post res after → weaker res after) :
    Charts bound p run moments weaker :=
  ⟨charts.faults, charts.tracked, charts.ensures.mono implies⟩

variable {next : α → Analyzer β} {further : α × Progress → List Moment}
  {final : β → Progress → Prop}

theorem bind (first : Charts bound p run moments between)
    (rest : ∀ val after, run p = .ok (val, after) → between val after →
      Charts bound after (next val) (further (val, after)) final) :
    Charts bound p (run >>= next) (moments ++ andThen (run p) further) final := by
  cases done : run p with
  | error failure =>
    have failed : (run >>= next) p = .error failure := by
      show (run p >>= _) = _
      rw [done]
      rfl
    refine ⟨fun other scoping => ?_, by simpa [andThen] using first.tracked, ?_⟩
    · have known := first.faults other scoping
      rw [done] at known
      rw [failed]
      simpa [andThen] using known
    · exact fun _ _ succeeded => nomatch failed.symm.trans succeeded
  | ok res =>
    obtain ⟨val, after⟩ := res
    have continued : (run >>= next) p = next val after := by
      show (run p >>= _) = _
      rw [done]
      rfl
    have continues := rest val after done (first.ensures val after done)
    refine ⟨fun failure scoping => ?_, fun moment member => ?_, fun res last succeeded =>
      continues.ensures res last (continued ▸ succeeded)⟩
    · rw [continued, continues.faults failure scoping]
      refine ⟨fun ⟨moment, member, fault⟩ => ⟨moment, mem_append_right _ member, fault⟩, ?_⟩
      rintro ⟨moment, member, fault⟩
      rcases mem_append.mp member with earlier | later
      · exact nomatch done.symm.trans ((first.faults failure scoping).mpr ⟨moment, earlier, fault⟩)
      · exact ⟨moment, later, fault⟩
    · rcases mem_append.mp member with earlier | later
      · exact first.tracked moment earlier
      · exact continues.tracked moment later

/-- What comes to no name may follow. -/
theorem tail (first : Charts bound p run moments between)
    (rest : ∀ val after, run p = .ok (val, after) → between val after →
      Charts bound after (next val) [] final) :
    Charts bound p (run >>= next) moments final := by
  have both : Charts bound p (run >>= next)
      (moments ++ andThen (run p) fun _ => []) final := first.bind rest
  have none : andThen (run p) (fun _ => []) = [] := by
    cases run p <;> rfl
  rwa [none, append_nil] at both

/-- What leaves the tables alone, and what follows. -/
theorem onward (first : Charts bound p run moments fun _ after => after = p)
    (rest : ∀ val, run p = .ok (val, p) → Charts bound p (next val) (further (val, p)) final) :
    Charts bound p (run >>= next) (moments ++ andThen (run p) further) final :=
  first.bind fun val _ done same => by
    subst same
    exact rest val done

theorem last (first : Charts bound p run moments fun _ after => after = p)
    (rest : ∀ val, run p = .ok (val, p) → Charts bound p (next val) [] final) :
    Charts bound p (run >>= next) moments final :=
  first.tail fun val _ done same => by
    subst same
    exact rest val done

theorem liftBind {further} (calm : Calm outcome)
    (rest : ∀ val, outcome = .ok val → Charts bound p (next val) (further val) final) :
    Charts bound p (liftM outcome >>= next) (andThen outcome further) final := by
  cases outcome with
  | error failure => exact throw (calm failure rfl)
  | ok val => exact rest val rfl

theorem lift (calm : Calm outcome) :
    Charts bound p (liftM outcome : Analyzer α) [] fun _ after => after = p :=
  quiet (calm.bind fun _ => Calm.ok _) (Ensures.mono (Finds.lift outcome) fun _ _ => And.left)

theorem faulty {moment} (tracks : Tracks bound moment.declared moment.progress)
    (fault : moment.fault? = some failure) :
    Charts bound p (MonadExcept.throw failure : Analyzer α) [moment] post := by
  refine ⟨fun _ _ => ?_, by simpa using tracks, .throw _⟩
  simp only [mem_singleton, exists_eq_left, fault, Option.some.injEq]
  exact ⟨Except.error.inj, congrArg Except.error⟩

theorem faultless {moment} (charts : Charts bound p run moments post)
    (tracks : Tracks bound moment.declared moment.progress) (none : moment.fault? = none) :
    Charts bound p run (moment :: moments) post := by
  refine ⟨fun failure scoping => ?_, forall_mem_cons.mpr ⟨tracks, charts.tracked⟩, charts.ensures⟩
  rw [charts.faults failure scoping]
  simp [none]

theorem congr (charts : Charts bound p other moments post) (same : run p = other p) :
    Charts bound p run moments post where
  faults := same ▸ charts.faults
  tracked := charts.tracked
  ensures res after done := charts.ensures res after (same ▸ done)

theorem get {next} (rest : Charts bound p (next p) moments final) :
    Charts bound p (MonadState.get >>= next) moments final :=
  rest.congr rfl

theorem lookup {name next} (rest : Charts bound p (next (p.scopes.find? name)) moments final) :
    Charts bound p (lookup name >>= next) moments final :=
  rest.congr rfl

end Charts

variable {dialect : Dialect}

theorem lookupType_charts (name : Ident) :
    Charts bound p (lookupType name) [] fun _ after => after = p := by
  refine .lookup ?_
  split
  · exact .pure rfl
  · exact .throw rfl
  · exact .throw rfl

theorem typeTarget?_charts (tree : Tree.Expr) :
    Charts bound p (typeTarget? tree) [] fun _ after => after = p := by
  unfold typeTarget?
  split
  · refine .lookup ?_
    split
    · split
      · exact .pure rfl
      · exact .pure rfl
    · exact .pure rfl
  · exact .pure rfl

theorem valueTarget_charts (off : Nat) (given : Expr) :
    Charts bound p (valueTarget off given) [] fun _ after => after = p := by
  unfold valueTarget
  split
  · exact .throw rfl
  · exact .pure rfl

theorem unary_charts (off : Nat) (op : Operator) (operand : Expr) :
    Charts bound p (unary dialect.types off op operand) [] fun _ after => after = p := by
  unfold unary
  split
  · exact .throw rfl
  · split
    · exact .pure rfl
    · exact (Charts.lift (castTo_keeps _ _ _).calm).last fun _ _ => Charts.pure rfl
    · exact .throw rfl

theorem cast_charts (off : Nat) (name : Ident) (operand : Expr) :
    Charts bound p (cast dialect.types off name operand) [] fun _ after => after = p := by
  refine .get ?_
  split
  · exact .throw rfl
  · split
    · exact .throw rfl
    · exact .lift (writtenCast_keeps _ _ _ _ _).calm

theorem resolved_charts (off : Nat) (name : Text) (symbol : Symbol) :
    Charts bound p (resolved off name symbol) [] fun _ after => after = p := by
  refine .quiet ?_ (.mono (resolved_finds off name symbol) fun _ _ => And.left)
  cases symbol with
  | «variable» _ | field _ _ => exact .ok _
  | method _ _ | transform _ _ | typeName _ _ => exact .error rfl

theorem invocation_charts (off : Nat) (target : Target) (name : Ident) (args : List Expr) :
    Charts bound p (invocation dialect.types off target name args) [] fun _ after => after = p := by
  unfold invocation
  dsimp only
  split
  · exact (Charts.lift (castAll_calm _ _ _)).last fun _ _ => Charts.pure rfl
  · exact .throw rfl

theorem property_charts (off : Nat) (target : Target) (name : Ident) :
    Charts bound p (property dialect.types off target name) [] fun _ after => after = p := by
  unfold property
  dsimp only
  split
  · exact .throw rfl
  · exact .pure rfl
  · exact .throw rfl

theorem integers_chart (given : List Expr) :
    Charts bound p (given.mapM fun expression =>
        (liftM (castTo dialect.types expression .int32) : Analyzer Expr))
      [] fun _ after => after = p := by
  induction given with
  | nil => exact .pure rfl
  | cons _ _ ih =>
    rw [mapM_cons]
    exact (Charts.lift (castTo_keeps _ _ _).calm).last fun _ _ =>
      ih.last fun _ _ => .pure rfl

theorem index_charts (off : Nat) (target : Target) (indices : List Expr) :
    Charts bound p (index dialect.types off target indices) [] fun _ after => after = p := by
  unfold index
  repeat' first
    | exact .throw rfl
    | exact (integers_chart indices).last fun _ _ => .pure rfl
    | exact (Charts.lift (castAll_calm _ _ _)).last fun _ _ => Charts.pure rfl
    | split

theorem receiver_charts
    (inner : Charts bound p (expression dialect target) (own p) fun _ after => after = p)
    (continued : ∀ receiver : Target, Charts bound p (cont receiver) (further p) post) :
    Charts bound p (do
        let found ← typeTarget? target
        match found with
          | some named => pure named >>= cont
          | none => do
            let given ← expression dialect target
            let receiver ← valueTarget target.offset given
            cont receiver)
      (receiverMoments dialect target own further p) post := by
  refine (typeTarget?_charts target).onward fun found _ => ?_
  cases found with
  | some named => exact (continued named).congr rfl
  | none =>
    exact inner.onward fun given _ => (valueTarget_charts _ given).onward fun receiver _ =>
      continued receiver

variable (dialect)

mutual

theorem expression_charts (tracks : Tracks bound decl p) :
    (tree : Tree.Expr) → Charts bound p (expression dialect tree) (tree.moments dialect decl p)
      fun _ after => after = p
  | .literal _ _ | .conversion _ _ => .pure rfl
  | .reference off name => by
    refine .lookup ?_
    cases found : p.scopes.find? name with
    | none => exact .faulty tracks (by simp [Moment.fault?, found])
    | some symbol =>
      exact (resolved_charts off name symbol).faultless tracks (by simp [Moment.fault?, found])
  | .operator off op left right =>
    (expression_charts tracks left).onward fun _ _ =>
      (expression_charts tracks right).last fun _ _ => .lift (operator_keeps _ _ _ _ _).calm
  | .unary off op operand =>
    (expression_charts tracks operand).last fun given _ => unary_charts off op given
  | .conditional off condition yes no => by
    refine (expression_charts tracks condition).onward fun _ _ => ?_
    refine .liftBind (castTo_keeps _ _ _).calm fun _ _ => ?_
    refine (expression_charts tracks yes).onward fun _ _ => ?_
    refine (expression_charts tracks no).last fun _ _ => ?_
    refine (Charts.lift (castTo_keeps _ _ _).calm).last fun _ _ => ?_
    exact (Charts.lift (castTo_keeps _ _ _).calm).last fun _ _ => Charts.pure rfl
  | .cast off name operand =>
    (expression_charts tracks operand).last fun given _ => cast_charts off name given
  | .call off name args => by
    refine .lookup ?_
    rw [Tree.Expr.moments]
    cases p.scopes.find? name.name with
    | none => exact .throw rfl
    | some symbol =>
      cases symbol with
      | «variable» _ | field _ _ | typeName _ _ => exact .throw rfl
      | transform _ transform =>
        exact (expressions_chart tracks args).last fun _ _ => .pure rfl
      | method _ method =>
        dsimp only
        by_cases many : args.length = method.params.length
        · rw [if_neg (Decidable.not_not.mpr many), if_pos many]
          exact (expressions_chart tracks args).last fun given _ =>
            (Charts.lift (castAll_calm _ _ _)).last fun _ _ => Charts.pure rfl
        · rw [if_pos many, if_neg many]
          exact .throw rfl
  | .invocation off target name args =>
    receiver_charts (expression_charts tracks target) fun receiver =>
      (expressions_chart tracks args).last fun given _ =>
        invocation_charts off receiver name given
  | .lateInvocation off target name args =>
    (expression_charts tracks target).onward fun given _ =>
      (valueTarget_charts _ given).onward fun _ _ =>
        (boxedExpressions_chart tracks args).last fun _ _ => .pure rfl
  | .property off target name =>
    receiver_charts (expression_charts tracks target) fun receiver =>
      property_charts off receiver name
  | .lateProperty off target name =>
    (expression_charts tracks target).last fun given _ =>
      (valueTarget_charts _ given).last fun _ _ => .pure rfl
  | .index off target indices =>
    receiver_charts (expression_charts tracks target) fun receiver =>
      (expressions_chart tracks indices).last fun given _ => index_charts off receiver given

theorem expressions_chart (tracks : Tracks bound decl p) :
    (trees : List Tree.Expr) → Charts bound p (expressions dialect trees)
      (Tree.Expr.allMoments dialect decl trees p) fun _ after => after = p
  | [] => .pure rfl
  | first :: rest =>
    (expression_charts tracks first).onward fun _ _ =>
      (expressions_chart tracks rest).last fun _ _ => .pure rfl

theorem boxedExpressions_chart (tracks : Tracks bound decl p) :
    (trees : List Tree.Expr) → Charts bound p (boxedExpressions dialect trees)
      (Tree.Expr.boxedMoments dialect decl trees p) fun _ after => after = p
  | [] => .pure rfl
  | first :: rest =>
    (expression_charts tracks first).onward fun _ _ =>
      Charts.liftBind (castTo_keeps _ _ _).calm fun _ _ =>
        (boxedExpressions_chart tracks rest).last fun _ _ => .pure rfl

end

end

variable {rest : List (List Variable)} {table : List Variable}

section

variable {bound : SymbolTable} {decl : Declared} {after : Progress}

theorem mem_symbols :
    symbol ∈ (decl.scopes bound).symbols ↔
      symbol ∈ bound ∨ ∃ known ∈ decl.visible, symbol = .variable known := by
  simp only [Scopes.symbols, Declared.scopes, visible, mem_append, mem_flatten, mem_map]
  grind

section

variable (tracks : Tracks bound decl p)

include tracks

theorem Tracks.name_ne (missing : p.scopes.find? name = none) :
    (∀ symbol ∈ bound, symbol.name ≠ name) ∧ ∀ known ∈ decl.visible, known.name ≠ name := by
  rw [tracks.scopes] at missing
  refine ⟨fun symbol member => ?_, fun known member => ?_⟩
  · exact Scopes.name_ne_of_find? missing (mem_symbols.mpr (Or.inl member))
  · exact Scopes.name_ne_of_find? missing (mem_symbols.mpr (Or.inr ⟨known, member, rfl⟩))

theorem Tracks.grow (declares : Declares add p added after)
    {later} (visible : later.visible.Perm (added :: decl.visible))
    (all : later.all = decl.all ++ [added])
    (scopes : ∀ changed, add (decl.scopes bound) (.variable added) = .ok changed →
      changed = later.scopes bound)
    (assigned : ∀ known ∈ later.assigned, known.type = .single ∧ known.isPersistent) :
    Tracks bound later after := by
  obtain ⟨boundNames, names⟩ := tracks.name_ne declares.fresh
  obtain ⟨changed, done, rfl⟩ := declares.added
  rw [tracks.scopes] at done
  refine ⟨tracks.plain, scopes changed done, ?_, fun known member symbol isBound => ?_, assigned,
    ?_, fun known member => ?_⟩
  · rw [(visible.map Variable.name).nodup_iff, map_cons, nodup_cons]
    exact ⟨fun member => by
      obtain ⟨known, isVisible, same⟩ := mem_map.mp member
      exact names known isVisible same, tracks.names⟩
  · rcases mem_cons.mp (visible.mem_iff.mp member) with rfl | earlier
    · exact boundNames symbol isBound
    · exact tracks.fresh known earlier symbol isBound
  · rw [all, map_append, pairwise_append]
    refine ⟨tracks.slots, pairwise_singleton _ _, ?_⟩
    simp only [mem_map, map_cons, map_nil, mem_singleton]
    rintro _ ⟨known, member, rfl⟩ _ rfl
    exact declares.slot ▸ tracks.below known member
  · rw [all] at member
    simp only [Progress.adding, Array.size_push]
    rcases mem_append.mp member with earlier | last
    · exact Nat.lt_succ_of_lt (tracks.below known earlier)
    · rw [mem_singleton.mp last, declares.slot]
      exact Nat.lt_succ_self _

theorem Tracks.declare (inside : decl.blocks = table :: rest)
    (declares : Declares Scopes.declare p added after) :
    Tracks bound (decl.declare added) after := by
  refine tracks.grow declares ?_ rfl (fun _ done => ?_) tracks.assigned
  · simp only [visible, Declared.declare, inside, modifyHead_cons,
      flatten_cons, append_assoc]
    exact perm_middle
  · simp only [Declared.scopes, inside, map_cons, Scopes.declare] at done
    obtain ⟨table, addedDone, done⟩ := ok_of_bind done
    cases done
    simp [Declared.scopes, Declared.declare, inside, Scopes.add_eq_ok addedDone]

theorem Tracks.assign {added} (single : added.type = .single ∧ added.isPersistent)
    (declares : Declares Scopes.declareGlobal p added after) :
    Tracks bound (decl.assign added) after := by
  refine tracks.grow declares ?_ rfl (fun _ done => ?_) ?_
  · simp only [visible, Declared.assign, ← append_assoc]
    exact perm_append_singleton _ _
  · obtain ⟨_, addedDone, done⟩ := ok_of_bind done
    cases done
    simp [Declared.scopes, Declared.assign, Scopes.add_eq_ok addedDone]
  · simp only [Declared.assign, forall_mem_append, forall_mem_singleton]
    exact ⟨tracks.assigned, single⟩

theorem Tracks.denotes (isVisible : known ∈ decl.visible) : decl.Denotes known.name known :=
  ⟨isVisible, rfl, fun _ member same => inj_on_of_nodup_map tracks.names member isVisible same⟩

theorem Tracks.denotes_of_find? (found : p.scopes.find? name = some (.variable denoted)) :
    decl.Denotes name denoted := by
  obtain rfl := Scopes.name_of_find? found
  rw [tracks.scopes] at found
  rcases mem_symbols.mp (Scopes.mem_of_find? found) with isBound | ⟨_, isVisible, same⟩
  · exact nomatch tracks.plain _ isBound
  · cases same
    exact tracks.denotes isVisible

theorem Tracks.isScoped (done : expression dialect tree p = .ok (made, after)) :
    made.IsScoped decl := by
  obtain ⟨_, elaborated⟩ := expression_makes dialect tree p made after done
  exact fun use mem => tracks.denotes_of_find? ((elaborated True fun _ => trivial).uses use mem)

theorem Tracks.opened :
    Tracks bound { decl with blocks := [] :: decl.blocks } { p with scopes := p.scopes.push } where
  plain := tracks.plain
  scopes := by simp [tracks.scopes, Scopes.push, Declared.scopes]
  names := tracks.names
  fresh := tracks.fresh
  assigned := tracks.assigned
  slots := tracks.slots
  below := tracks.below

theorem Tracks.closed (inside : decl.blocks = table :: rest)
    {popped scopes} (done : p.scopes.pop = .ok (popped, scopes)) :
    Tracks bound { decl with blocks := rest } { p with scopes } := by
  have outer : decl.visible = table ++ (rest.flatten ++ decl.assigned) := by
    simp [visible, inside]
  have names := tracks.names
  rw [outer, map_append, nodup_append] at names
  refine ⟨tracks.plain, ?_, names.2.1, fun known member => tracks.fresh known ?_,
    tracks.assigned, tracks.slots, tracks.below⟩
  · rw [tracks.scopes] at done
    simp only [Declared.scopes, inside, map_cons, Scopes.pop] at done
    cases done
    rfl
  · exact outer ▸ mem_append_right _ member

end

theorem takeSlot_charts (type : Ty) : Charts bound p (takeSlot type) [] fun _ _ => True :=
  Charts.quiet (.ok _) fun _ _ _ => trivial

theorem addVariable_charts (add : Scopes → Symbol → Except SymbolFault Scopes) (off : Nat)
    (added : Variable) : Charts bound p (addVariable add off added) [] fun _ _ => True := by
  refine .get ?_
  split
  · exact .quiet (.ok _) fun _ _ _ => trivial
  · exact .throw rfl

theorem isScoped_of_lift (means : given.IsScoped decl)
    (done : (liftM (castTo types given type) : Analyzer Expr) p = .ok (made, after)) :
    made.IsScoped decl :=
  fun use mem => means use ((castTo_keeps types given type).uses made (Finds.lift _ _ _ done).2 mem)

theorem assigned_charts (tracks : Tracks bound decl p) (off : Nat) (name : Text) :
    Charts bound p (assigned off name) [] fun place after =>
      place.IsScoped (decl.target place) ∧ Tracks bound (decl.target place) after ∧
        (after.scopes.find? name).isSome := by
  have charts : Charts bound p (assigned off name) [] fun _ _ => True := by
    refine .lookup ?_
    cases p.scopes.find? name with
    | some symbol => exact (resolved_charts off name symbol).mono fun _ _ _ => trivial
    | none =>
      refine .tail ?_ fun symbol _ _ (_ : True) =>
        (resolved_charts off name symbol).mono fun _ _ _ => trivial
      refine (takeSlot_charts .single).tail fun _ _ _ _ => ?_
      exact (addVariable_charts Scopes.declareGlobal off _).tail fun _ _ _ _ =>
        Charts.pure trivial
  refine ⟨charts.faults, charts.tracked, (assigned_ensures off name).mono ?_⟩
  · rintro _ _ (⟨rfl, symbol, found, rfl, isPlace⟩ | ⟨added, rfl, named, single, kept, declares⟩)
    · rcases isPlace with ⟨_, rfl⟩ | ⟨_, _, rfl⟩
      · have denotes := tracks.denotes_of_find? found
        rw [Declared.target, if_pos denotes.1, found]
        exact ⟨forall_mem_singleton.mpr denotes, tracks, rfl⟩
      · rw [found]
        exact ⟨forall_mem_nil _, tracks, rfl⟩
    · have missing := (tracks.name_ne declares.fresh).2
      rw [Declared.target, if_neg fun isVisible => missing added isVisible rfl]
      have later := tracks.assign ⟨single, kept⟩ declares
      have isVisible : added ∈ (decl.assign added).visible := by simp [visible, Declared.assign]
      refine ⟨forall_mem_singleton.mpr (named ▸ later.denotes isVisible), later,
        Option.isSome_iff_ne_none.mpr fun unknown => ?_⟩
      exact (later.name_ne unknown).2 added isVisible named

theorem declare_charts (tracks : Tracks bound decl p) (inside : decl.blocks = table :: rest)
    (name : Ident) (type : Ty) (isPersistent : Bool) :
    Charts bound p (declare name type isPersistent) [⟨p, decl, false, name.offset, name.name⟩]
      fun added after => added.name = name.name ∧ Tracks bound (decl.declare added) after := by
  have charts : Charts bound p (declare name type isPersistent)
      [⟨p, decl, false, name.offset, name.name⟩] fun _ _ => True := by
    refine .lookup ?_
    cases found : p.scopes.find? name.name with
    | some _ => exact .faulty tracks (by simp [Moment.fault?, found])
    | none =>
      refine .faultless ?_ tracks (by simp [Moment.fault?, found])
      refine (takeSlot_charts type).tail fun _ _ _ _ => ?_
      exact (addVariable_charts Scopes.declare name.offset _).tail fun _ _ _ _ =>
        Charts.pure trivial
  exact ⟨charts.faults, charts.tracked, (declare_ensures name type isPersistent).mono
    fun _ _ ⟨named, _, _, declares⟩ => ⟨named, tracks.declare inside declares⟩⟩

theorem closeScope_charts :
    Charts bound p closeScope [] fun table after =>
      ∃ scopes, p.scopes.pop = .ok (table, scopes) ∧ after = { p with scopes } := by
  have charts : Charts bound p closeScope [] fun _ _ => True := by
    refine .get ?_
    split
    · exact .quiet (.ok _) fun _ _ _ => trivial
    · exact .throw rfl
  exact ⟨charts.faults, charts.tracked, closeScope_ensures⟩

variable {dialect : Dialect}

section

variable (tracks : Tracks bound decl p)

include tracks

theorem condition_charts (tree : Tree.Expr) :
    Charts bound p (condition dialect tree) (tree.moments dialect decl p)
      fun _ after => after = p :=
  (expression_charts dialect tracks tree).last fun _ _ => .lift (castTo_keeps _ _ _).calm

theorem condition_isScoped (done : condition dialect tree p = .ok (made, after)) :
    made.IsScoped decl := by
  obtain ⟨given, between, givenDone, converted⟩ := bind_eq_ok done
  exact isScoped_of_lift (tracks.isScoped givenDone) converted

theorem declaration_charts (inside : decl.blocks = table :: rest)
    (off : Nat) (typeName name : Ident) (val : Tree.Expr) :
    Charts bound p (declaration dialect off typeName name val)
      (Tree.declarationMoments dialect decl typeName name val p)
      fun made after => made.IsScoped decl ∧ Tracks bound (made.extend decl) after := by
  refine (expression_charts dialect tracks val).onward fun given done => ?_
  refine (lookupType_charts typeName).onward fun named _ => ?_
  dsimp only
  generalize (if named = .void then given.type else named) = type
  split
  · exact .throw rfl
  · refine (declare_charts tracks inside name _ false).tail fun _ _ _ ⟨isNamed, tracked⟩ => ?_
    exact (Charts.lift (castTo_keeps _ _ _).calm).last fun _ converted =>
      Charts.pure ⟨⟨isScoped_of_lift (tracks.isScoped done) converted, isNamed⟩, tracked⟩

theorem persistentDeclaration_charts (inside : decl.blocks = table :: rest) (off : Nat)
    (typeName name : Ident) : Charts bound p (persistentDeclaration off typeName name)
      (andThen (lookupType typeName p) fun named =>
        if named.1 = .void then []
        else [⟨named.2, decl, false, name.offset, name.name⟩])
      fun made after => made.IsScoped decl ∧ Tracks bound (made.extend decl) after := by
  refine (lookupType_charts typeName).onward fun named _ => ?_
  dsimp only
  split
  · exact .throw rfl
  · exact (declare_charts tracks inside name _ true).tail fun _ _ _ tracked =>
      Charts.pure tracked

theorem assignment_charts (off : Nat) (target val : Tree.Expr) :
    Charts bound p (assignment dialect off target val)
      (Tree.assignmentMoments dialect decl target val p)
      fun made after => made.IsScoped decl ∧ Tracks bound (made.extend decl) after := by
  unfold assignment
  split
  · refine (assigned_charts tracks _ _).bind fun place after _ ⟨means, tracked, known⟩ => ?_
    obtain ⟨_, found⟩ := Option.isSome_iff_exists.mp known
    refine .faultless ?_ tracked (by simp [Moment.fault?, found])
    refine (expression_charts dialect tracked val).last fun given done => ?_
    exact (Charts.lift (castTo_keeps _ _ _).calm).last fun _ converted =>
      Charts.pure ⟨⟨means, isScoped_of_lift (tracked.isScoped done) converted⟩, tracked⟩
  · next other =>
    have listed : Tree.assignmentMoments dialect decl target val p = val.moments dialect decl p ++
          andThen (expression dialect val p) fun given =>
            target.moments dialect decl given.2 := by
      unfold Tree.assignmentMoments
      split
      · exact (other _ _ rfl).elim
      · rfl
    rw [listed]
    refine (expression_charts dialect tracks val).onward fun given givenDone => ?_
    refine (expression_charts dialect tracks target).last fun place done => ?_
    split
    · have kept := Typed.Expr.target_eq (tracks.isScoped done)
      refine (Charts.lift (castTo_keeps _ _ _).calm).last fun _ converted => Charts.pure ?_
      rw [Typed.Statement.IsScoped, Typed.Statement.extend, kept]
      exact ⟨⟨tracks.isScoped done, isScoped_of_lift (tracks.isScoped givenDone) converted⟩,
        tracks⟩
    · exact .throw rfl

end

end

end Analysis

namespace Typed

theorem Block.extend_blocks (decl : Declared) (body : Block) :
    (body.extend decl).blocks = decl.blocks := by
  cases body
  rfl

theorem Statement.extend_blocks {decl} (inside : decl.blocks = table :: rest)
    (statement : Statement) : ∃ table, (statement.extend decl).blocks = table :: rest := by
  cases statement with
  | assignment _ _ _ =>
    refine ⟨table, ?_⟩
    simp only [Statement.extend, Declared.target]
    repeat' split
    all_goals exact inside
  | declaration _ _ _ added _ | persistent _ _ _ added =>
    exact ⟨table ++ [added], by simp [Statement.extend, Declared.declare, inside]⟩
  | block _ | ifThen _ _ _ | ifElse _ _ _ _ | whileLoop _ _ _ | breakLoop _ | continueLoop _
  | leave _ | callStatement _ _ | invocationStatement _ _ =>
    exact ⟨table, by simp [Statement.extend, Block.extend_blocks, inside]⟩

theorem Statement.extendAll_blocks {decl} (inside : decl.blocks = table :: rest)
    (statements : List Statement) :
    ∃ table, (Statement.extendAll decl statements).blocks = table :: rest := by
  induction statements generalizing decl table with
  | nil => exact ⟨table, inside⟩
  | cons first _ ih =>
    obtain ⟨_, later⟩ := first.extend_blocks inside
    exact ih later

mutual

theorem Statement.extend_assigned (decl : Declared) :
    (statement : Statement) → decl.assigned <+: (statement.extend decl).assigned
  | .block body => body.extend_assigned decl
  | .assignment _ place _ => by
    simp only [Statement.extend, Declared.target]
    repeat' split
    all_goals first
      | exact prefix_rfl
      | exact prefix_append _ _
  | .declaration _ _ _ _ _ | .persistent _ _ _ _ => prefix_rfl
  | .ifThen _ _ yes => yes.extend_assigned decl
  | .ifElse _ _ yes no => (yes.extend_assigned decl).trans (no.extend_assigned _)
  | .whileLoop _ _ body => body.extend_assigned decl
  | .breakLoop _ | .continueLoop _ | .leave _ | .callStatement _ _
  | .invocationStatement _ _ => prefix_rfl

theorem Block.extend_assigned (decl : Declared) :
    (body : Block) → decl.assigned <+: (body.extend decl).assigned
  | .mk _ _ body =>
    Statement.extendAll_assigned { decl with blocks := [] :: decl.blocks } body

theorem Statement.extendAll_assigned (decl : Declared) :
    (statements : List Statement) → decl.assigned <+: (Statement.extendAll decl statements).assigned
  | [] => prefix_rfl
  | first :: rest =>
    (first.extend_assigned decl).trans (Statement.extendAll_assigned _ rest)

end

end Typed

namespace Analysis

section

variable (dialect : Dialect) {bound : SymbolTable}

mutual

theorem statement_charts : (tree : Tree.Statement) → (loops : Nat) → (p : Progress) →
      Tracks bound decl p → decl.blocks = table :: rest →
      Charts bound p (statement dialect loops tree) (tree.moments dialect loops decl p)
        fun made after => made.IsScoped decl ∧ Tracks bound (made.extend decl) after
  | .block body, loops, p, tracks, _ =>
    (block_charts body loops p tracks).tail fun _ _ _ tracked => .pure tracked
  | .assignment _ _ _, _, _, tracks, _ => assignment_charts tracks _ _ _
  | .declaration _ _ _ _, _, _, tracks, inside => declaration_charts tracks inside _ _ _ _
  | .persistent _ _ _, _, _, tracks, inside => persistentDeclaration_charts tracks inside _ _ _
  | .ifThen _ tree yes, loops, p, tracks, _
  | .whileLoop _ tree yes, loops, p, tracks, _ => by
    exact (condition_charts tracks tree).onward fun _ done =>
      (block_charts yes _ _ tracks).tail fun _ _ _ tracked =>
        .pure ⟨⟨condition_isScoped tracks done, tracked.1⟩, tracked.2⟩
  | .ifElse _ tree yes no, loops, p, tracks, _ => by
    refine (condition_charts tracks tree).onward fun _ done => ?_
    refine (block_charts yes loops _ tracks).bind fun _ _ _ first => ?_
    exact (block_charts no loops _ first.2).tail fun _ _ _ second =>
      .pure ⟨⟨condition_isScoped tracks done, first.1, second.1⟩, second.2⟩
  | .breakLoop _, loops, p, tracks, _ | .continueLoop _, loops, p, tracks, _ => by
    unfold statement
    split
    · exact .throw rfl
    · exact .pure ⟨trivial, tracks⟩
  | .leave _, _, _, tracks, _ => .pure ⟨trivial, tracks⟩
  | .callStatement _ call, _, p, tracks, _
  | .invocationStatement _ call, _, p, tracks, _ =>
    (expression_charts dialect tracks call).last fun _ done =>
      .pure ⟨tracks.isScoped done, tracks⟩

theorem block_charts : (tree : Tree.Block) → (loops : Nat) → (p : Progress) → Tracks bound decl p →
      Charts bound p (block dialect loops tree) (tree.moments dialect loops decl p)
        fun made after => made.IsScoped decl ∧ Tracks bound (made.extend decl) after
  | .mk _ body, loops, p, tracks => by
    have opens : Charts bound p openScope [] fun _ after =>
        after = { p with scopes := p.scopes.push } :=
      Charts.quiet (.ok _) openScope_ensures
    change Charts bound p _ ([] ++ andThen (openScope p) fun opened =>
      Tree.Statement.allMoments dialect loops { decl with blocks := [] :: decl.blocks }
        body opened.2) _
    refine opens.bind fun _ _ _ same => ?_
    subst same
    refine (statements_chart body loops _ tracks.opened rfl).tail fun made after _ tracked => ?_
    obtain ⟨_, inside⟩ : ∃ table, (Typed.Statement.extendAll
        { decl with blocks := [] :: decl.blocks } made).blocks = table :: decl.blocks :=
      Typed.Statement.extendAll_blocks rfl made
    refine closeScope_charts.tail fun _ _ _ ⟨scopes, popped, same⟩ => ?_
    subst same
    exact .pure ⟨tracked.1, tracked.2.closed inside popped⟩

theorem statements_chart : (trees : List Tree.Statement) → (loops : Nat) → (p : Progress) →
      Tracks bound decl p → decl.blocks = table :: rest →
      Charts bound p (statements dialect loops trees)
        (Tree.Statement.allMoments dialect loops decl trees p)
        fun made after => Typed.Statement.AreScoped decl made ∧
          Tracks bound (Typed.Statement.extendAll decl made) after
  | [], _, _, tracks, _ => .pure ⟨trivial, tracks⟩
  | first :: others, loops, p, tracks, inside => by
    refine (statement_charts first loops p tracks inside).bind fun made after _ known => ?_
    obtain ⟨_, later⟩ := made.extend_blocks inside
    exact (statements_chart others loops after known.2 later).tail
      fun _ _ _ tracked => .pure ⟨⟨known.1, tracked.1⟩, tracked.2⟩

end

end

/-- No name is declared in two of the tables. -/
def Apart (scopes : Scopes) : Prop :=
  (scopes.global :: scopes.blocks).Pairwise fun table other =>
    ∀ first ∈ table, ∀ second ∈ other, first.name ≠ second.name

theorem Tracks.apart (tracks : Tracks bound decl p) : Apart p.scopes := by
  have names := tracks.names
  rw [visible, map_append, nodup_append, map_flatten, nodup_flatten] at names
  obtain ⟨⟨_, blocks⟩, _, apart⟩ := names
  rw [tracks.scopes]
  refine pairwise_cons.mpr ⟨fun table isBlock first isGlobal second member => ?_, ?_⟩
  · obtain ⟨block, isDeclared, rfl⟩ := mem_map.mp isBlock
    obtain ⟨known, isKnown, rfl⟩ := mem_map.mp member
    have isInner : known ∈ decl.blocks.flatten := mem_flatten.mpr ⟨block, isDeclared, isKnown⟩
    rcases mem_append.mp isGlobal with isBound | isAssigned
    · exact tracks.fresh known (mem_append_left _ isInner) first isBound
    · obtain ⟨other, isOther, rfl⟩ := mem_map.mp isAssigned
      exact (apart known.name (map_flatten ▸ mem_map_of_mem isInner) other.name
        (mem_map_of_mem isOther)).symm
  · refine pairwise_map.mpr ((pairwise_map.mp blocks).imp ?_)
    intro table other disjoint first member second isOther same
    obtain ⟨known, isKnown, rfl⟩ := mem_map.mp member
    obtain ⟨later, isLater, rfl⟩ := mem_map.mp isOther
    have same : known.name = later.name := same
    exact disjoint (mem_map_of_mem isKnown) (same ▸ mem_map_of_mem isLater)

end Analysis

end HostScript
