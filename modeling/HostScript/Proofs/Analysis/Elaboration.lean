import HostScript.Proofs.Analysis.Ensures
import HostScript.Proofs.Typing.Members

namespace HostScript

open Typed (Expr)
open List

/-!
# What analysis makes of expressions

`Elaborated` has a rule for each node that analysis makes, with what was known when the node was
made.
-/

namespace Tree

mutual

def Expr.isSpelled : Expr → Bool
  | .literal _ _ | .reference _ _ => true
  | .operator _ _ left right => left.isSpelled && right.isSpelled
  | .unary _ _ operand => operand.isSpelled
  | .conditional _ cond yes no => cond.isSpelled && yes.isSpelled && no.isSpelled
  | .cast _ _ operand => operand.isSpelled
  | .conversion _ _ => false
  | .call _ _ args => Expr.areSpelled args
  | .invocation _ target _ args => target.isSpelled && Expr.areSpelled args
  | .lateInvocation _ target _ args => target.isSpelled && Expr.areSpelled args
  | .property _ target _ | .lateProperty _ target _ => target.isSpelled
  | .index _ target indices => target.isSpelled && Expr.areSpelled indices

/-- Whether no expression has a conversion that is given as final. -/
def Expr.areSpelled : List Expr → Bool
  | [] => true
  | first :: rest => first.isSpelled && Expr.areSpelled rest

end

mutual

/-- Whether a statement has no conversion that is given as final. -/
def Statement.isSpelled : Statement → Bool
  | .block body => body.isSpelled
  | .assignment _ target value => target.isSpelled && value.isSpelled
  | .declaration _ _ _ value => value.isSpelled
  | .persistent _ _ _ | .breakLoop _ | .continueLoop _ | .leave _ => true
  | .ifThen _ cond yes => cond.isSpelled && yes.isSpelled
  | .ifElse _ cond yes no => cond.isSpelled && yes.isSpelled && no.isSpelled
  | .whileLoop _ cond body => cond.isSpelled && body.isSpelled
  | .callStatement _ call | .invocationStatement _ call => call.isSpelled

/-- Whether a block has no conversion that is given as final. -/
def Block.isSpelled : Block → Bool
  | .mk _ body => Statement.areSpelled body

/-- Whether no statement has a conversion that is given as final. -/
def Statement.areSpelled : List Statement → Bool
  | [] => true
  | first :: rest => first.isSpelled && Statement.areSpelled rest

end

end Tree

def Typed.Expr.namesType : Expr → Bool
  | .reference _ _ (some (.typeName _ _)) => true
  | _ => false

namespace Analysis

/-- The target of a member access is the name of a type, or a value that is not `void`. -/
structure Target.Proper (target : Target) : Prop where
  named : target.isStatic = true → target.expression.namesType = true
  value : target.isStatic = false → target.type = target.expression.type ∧ target.type ≠ .void

section

variable (dialect : Dialect) (scopes : Scopes) (finals : Prop)

/--
The expressions that analysis makes, where names mean what the scopes say and conversions
that are given as final may be allowed.
-/
inductive Elaborated : Expr → Prop
  | literal (offset : Nat) (value : Literal) : Elaborated (.literal offset value)
  | reference (offset : Nat) {name symbol} (found : scopes.find? name = some symbol)
      (isPlace : (∃ decl, symbol = .variable decl) ∨ ∃ bound field, symbol = .field bound field) :
      Elaborated (.reference offset name (some symbol))
  | operator {offset op left right made} (leftMade : Elaborated left) (rightMade : Elaborated right)
      (done : operator dialect.types offset op left right = .ok made) :
      Elaborated made
  | negation (offset : Nat) {operand} (operandMade : Elaborated operand)
      (isValue : operand.type.isValue = true) :
      Elaborated (.unary offset .negate operand operand.type)
  | complement (offset : Nat) {operand converted} (operandMade : Elaborated operand)
      (done : castTo dialect.types operand .bool = .ok converted) :
      Elaborated (.unary offset .complement converted .bool)
  | conditional (offset : Nat) {cond chosen yes no first second}
      (conditionMade : Elaborated cond) (yesMade : Elaborated yes) (noMade : Elaborated no)
      (chosenDone : castTo dialect.types cond .bool = .ok chosen)
      (firstDone : castTo dialect.types yes (dialect.types.compatible yes.type no.type) = .ok first)
      (secondDone : castTo dialect.types no (dialect.types.compatible yes.type no.type) =
        .ok second) :
      Elaborated (.conditional offset chosen first second
        (dialect.types.compatible yes.type no.type))
  | cast {offset name symbol target operand made} (operandMade : Elaborated operand)
      (found : scopes.find? name.name = some (.typeName symbol target))
      (done : writtenCast dialect.types offset name target operand = .ok made) :
      Elaborated made
  | final (allowed : finals) (type : Ty) (tree : Tree.Expr) :
      Elaborated (Analysis.final (.conversion type tree))
  | call (offset : Nat) {name bound method given converted}
      (found : scopes.find? name.name = some (.method bound method))
      (givenMade : ∀ argument ∈ given, Elaborated argument)
      (many : given.length = method.params.length)
      (done : castAll dialect.types given method.params = .ok converted) :
      Elaborated (.call offset name method converted)
  | expansion (offset : Nat) {name bound transform given} (pieces : List Typed.Piece)
      (found : scopes.find? name.name = some (.transform bound transform))
      (givenMade : ∀ argument ∈ given, Elaborated argument) :
      Elaborated (.expansion offset name transform given pieces)
  | invocation (offset : Nat) {target : Target} {name : Ident} {given converted : List Expr}
      {method : Method} (proper : target.Proper)
      (targetMade : target.isStatic = false → Elaborated target.expression)
      (givenMade : ∀ argument ∈ given, Elaborated argument)
      (candidate : method ∈ dialect.types.methods target.type name.name target.isStatic)
      (many : given.length = method.params.length)
      (done : castAll dialect.types given method.params = .ok converted) :
      Elaborated (.invocation offset target.expression name converted method)
  | lateInvocation (offset : Nat) (name : Ident) {target given boxed}
      (targetMade : Elaborated target) (notVoid : target.type ≠ .void)
      (givenMade : ∀ argument ∈ given, Elaborated argument)
      (done : castAll dialect.types given (given.map fun _ => .object) = .ok boxed) :
      Elaborated (.lateInvocation offset target name boxed)
  | property (offset : Nat) {target : Target} {name : Ident} {member : DataMember}
      (proper : target.Proper) (targetMade : target.isStatic = false → Elaborated target.expression)
      (only : dialect.types.dataMembers target.type name.name target.isStatic = [member]) :
      Elaborated (.property offset target.expression name member)
  | lateProperty (offset : Nat) (name : Ident) {target}
      (targetMade : Elaborated target) (notVoid : target.type ≠ .void) :
      Elaborated (.lateProperty offset target name)
  | element (offset : Nat) {target given converted element} (targetMade : Elaborated target)
      (isArray : target.type = .array element given.length)
      (givenMade : ∀ index ∈ given, Elaborated index)
      (done : castAll dialect.types given (given.map fun _ => .int32) = .ok converted) :
      Elaborated (.index offset target converted none element)
  | indexed (offset : Nat) {target : Target} {given converted : List Expr} {indexer : Property}
      (proper : target.Proper) (targetMade : target.isStatic = false → Elaborated target.expression)
      (found : dialect.types.indexer? target.type = some indexer)
      (isStatic : target.isStatic = true → indexer.isStatic = true)
      (givenMade : ∀ index ∈ given, Elaborated index) (many : given.length = indexer.params.length)
      (done : castAll dialect.types given indexer.params = .ok converted) :
      Elaborated (.index offset target.expression converted (some indexer) indexer.type)

def AllElaborated (made : List Expr) : Prop :=
  ∀ expression ∈ made, Elaborated dialect scopes finals expression

end

section

variable {dialect : Dialect} {finals : Prop}

theorem typeTarget?_finds (tree : Tree.Expr) :
    Finds p (typeTarget? tree) fun found =>
      ∀ tgt, found = some tgt → tgt.isStatic ∧ tgt.Proper := by
  unfold typeTarget?
  split
  · refine (lookup_finds _).bind fun found _ => ?_
    split
    · split
      · exact Finds.pure nofun
      · refine Finds.pure fun _ same => ?_
        cases same
        exact ⟨rfl, fun _ => rfl, nofun⟩
    · exact Finds.pure nofun
  · exact Finds.pure nofun

theorem valueTarget_finds (off : Nat) (given : Expr) :
    Finds p (valueTarget off given) fun tgt =>
      tgt = ⟨given, given.type, false⟩ ∧ given.type ≠ .void := by
  unfold valueTarget
  split
  · exact .throw _
  · next notVoid => exact .pure ⟨rfl, notVoid⟩

theorem castAll_length (done : castAll tys given params = .ok converted) :
    converted.length = given.length := by
  induction given generalizing params converted with
  | nil =>
    cases done
    rfl
  | cons _ _ ih =>
    cases params with
    | nil =>
      cases done
      rfl
    | cons _ params =>
      obtain ⟨_, _, done⟩ := ok_of_bind done
      obtain ⟨_, followingDone, done⟩ := ok_of_bind done
      cases done
      exact congrArg Nat.succ (ih followingDone)

theorem integers_finds (given : List Expr) :
    Finds p (given.mapM fun expression =>
        (liftM (castTo dialect.types expression .int32) : Analyzer Expr))
      fun converted => castAll dialect.types given (given.map fun _ => .int32) = .ok converted := by
  induction given with
  | nil => exact .pure rfl
  | cons _ _ ih =>
    rw [mapM_cons]
    refine (Finds.lift _).bind fun _ done => ?_
    refine ih.bind fun _ followingDone => Finds.pure ?_
    simp only [map_cons, castAll, done, followingDone]
    rfl

/-- What is made of an expression without getting further, if enough is allowed. -/
def Makes (dialect : Dialect) (progress : Progress) (tree : Tree.Expr) : Prop :=
  Finds progress (expression dialect tree) fun made =>
    ∀ finals : Prop, (tree.isSpelled = false → finals) →
      Elaborated dialect progress.scopes finals made

theorem ofLeft {finals : Prop} (allowed : (a && b) = false → finals) (no : a = false) : finals :=
  allowed (by rw [no, Bool.false_and])

theorem ofRight {finals : Prop} (allowed : (a && b) = false → finals) (no : b = false) : finals :=
  allowed (by rw [no, Bool.and_false])

theorem receiver_ensures {tree : Tree.Expr} {found : Option Target} {next : Target → Analyzer α}
    {post : α → Progress → Prop} (inner : Makes dialect p tree)
    (isNamed : ∀ tgt, found = some tgt → tgt.isStatic ∧ tgt.Proper)
    (continued : ∀ tgt : Target, tgt.Proper →
      (∀ finals : Prop, (tree.isSpelled = false → finals) → tgt.isStatic = false →
        Elaborated dialect p.scopes finals tgt.expression) →
      Ensures p (next tgt) post) :
    Ensures p (match found with
        | some named => pure named >>= next
        | none => do
          let given ← expression dialect tree
          let recv ← valueTarget tree.offset given
          next recv)
      post := by
  cases found with
  | some named =>
    obtain ⟨isStatic, proper⟩ := isNamed named rfl
    exact continued named proper fun _ _ notStatic => nomatch isStatic.symm.trans notStatic
  | none =>
    refine inner.bind fun given givenMade => ?_
    refine (valueTarget_finds _ given).bind ?_
    rintro _ ⟨rfl, notVoid⟩
    exact continued _ ⟨nofun, fun _ => ⟨rfl, notVoid⟩⟩ fun finals allowed _ =>
      givenMade finals allowed

variable (dialect)

mutual

theorem expression_makes : (tree : Tree.Expr) → (p : Progress) → Makes dialect p tree
  | .literal off val, _ => Finds.pure fun _ _ => .literal off val
  | .reference off name, _ => by
    refine (reference_finds off name).mono ?_
    rintro _ ⟨sym, found, rfl, isPlace⟩ finals _
    exact .reference off found isPlace
  | .operator off op left right, p => by
    refine (expression_makes left p).bind fun first firstMade => ?_
    refine (expression_makes right p).bind fun second secondMade => ?_
    refine (Finds.lift _).mono fun _ done finals allowed => ?_
    exact .operator (firstMade finals (ofLeft allowed)) (secondMade finals (ofRight allowed)) done
  | .unary off op arg, p => by
    refine (expression_makes arg p).bind fun given givenMade => ?_
    unfold unary
    split
    · exact Ensures.throw _
    · next isValue =>
      split
      · exact Finds.pure fun finals allowed =>
          .negation off (givenMade finals allowed) (by simpa using isValue)
      · refine (Finds.lift _).bind fun converted done => ?_
        exact Finds.pure fun finals allowed => .complement off (givenMade finals allowed) done
      · exact Ensures.throw _
  | .conditional off cond yes no, p => by
    refine (expression_makes cond p).bind fun _ testedMade => ?_
    refine (Finds.lift _).bind fun _ chosenDone => ?_
    refine (expression_makes yes p).bind fun first firstMade => ?_
    refine (expression_makes no p).bind fun second secondMade => ?_
    refine (Finds.lift _).bind fun _ firstDone => ?_
    refine (Finds.lift _).bind fun _ secondDone => ?_
    refine Finds.pure fun finals allowed => ?_
    exact .conditional off (testedMade finals (ofLeft (ofLeft allowed)))
      (firstMade finals (ofRight (ofLeft allowed)))
      (secondMade finals (ofRight allowed))
      chosenDone firstDone secondDone
  | .cast off name arg, p => by
    refine (expression_makes arg p).bind fun given givenMade => ?_
    intro made after done
    obtain ⟨_, _, got, rest⟩ := bind_eq_ok done
    cases got
    cases named : lookupType name p with
    | error _ =>
      rw [named] at rest
      cases rest
    | ok res =>
      obtain ⟨tgt, between⟩ := res
      rw [named] at rest
      obtain ⟨_, sym, found⟩ := lookupType_finds name tgt between named
      dsimp only at rest
      split at rest
      · cases rest
      · obtain ⟨unchanged, written⟩ := Finds.lift _ made after rest
        exact ⟨unchanged, fun finals allowed => .cast (givenMade finals allowed) found written⟩
  | .conversion type arg, _ => Finds.pure fun _ allowed => .final (allowed rfl) type arg
  | .call off name args, p => by
    refine (lookup_finds name.name).bind fun found same => ?_
    match found, same with
    | none, _ | some (.variable _), _ | some (.field _ _), _ | some (.typeName _ _), _ =>
      exact Ensures.throw _
    | some (.transform _ transform), same =>
      refine (expressions_make args p).bind fun given ⟨_, givenMade⟩ => ?_
      exact Finds.pure fun finals allowed =>
        .expansion off _ same.symm (givenMade finals allowed)
    | some (.method _ meth), same =>
      dsimp only
      split
      · exact Ensures.throw _
      · next many =>
        refine (expressions_make args p).bind fun given ⟨length, givenMade⟩ => ?_
        refine (Finds.lift _).bind fun converted done => Finds.pure fun finals allowed => ?_
        exact .call off same.symm (givenMade finals allowed)
          (length.trans (Decidable.not_not.mp many)) done
  | .invocation off tgt name args, p => by
    refine (typeTarget?_finds tgt).bind fun found isNamed => ?_
    refine receiver_ensures (expression_makes tgt p) isNamed fun recv proper receiverMade => ?_
    refine (expressions_make args p).bind fun given ⟨_, givenMade⟩ => ?_
    unfold invocation
    dsimp only
    split
    · next meth selected =>
      refine (Finds.lift _).bind fun converted done => Finds.pure fun finals allowed => ?_
      obtain ⟨candidate, many⟩ := Universe.select_eq_ok selected
      rw [length_map] at many
      exact .invocation off proper (receiverMade finals (ofLeft allowed))
        (givenMade finals (ofRight allowed))
        candidate many.symm done
    · exact Ensures.throw _
  | .lateInvocation off tgt name args, p => by
    refine (expression_makes tgt p).bind fun given givenMade => ?_
    refine (valueTarget_finds _ given).bind ?_
    rintro _ ⟨rfl, notVoid⟩
    refine (boxedExpressions_make args p).bind
      fun _ ⟨_, done, unboxedMade⟩ => Finds.pure fun finals allowed => ?_
    exact .lateInvocation off name (givenMade finals (ofLeft allowed)) notVoid
      (unboxedMade finals (ofRight allowed)) done
  | .property off tgt name, p => by
    refine (typeTarget?_finds tgt).bind fun found isNamed => ?_
    refine receiver_ensures (expression_makes tgt p) isNamed fun recv proper receiverMade => ?_
    unfold property
    dsimp only
    split
    · exact Ensures.throw _
    · next only =>
      exact Finds.pure fun finals allowed =>
        .property off proper (receiverMade finals allowed) only
    · exact Ensures.throw _
  | .lateProperty off tgt name, p => by
    refine (expression_makes tgt p).bind fun given givenMade => ?_
    refine (valueTarget_finds _ given).bind ?_
    rintro _ ⟨rfl, notVoid⟩
    exact Finds.pure fun finals allowed =>
      .lateProperty off name (givenMade finals allowed) notVoid
  | .index off tgt idxs, p => by
    refine (typeTarget?_finds tgt).bind fun found isNamed => ?_
    refine receiver_ensures (expression_makes tgt p) isNamed fun recv proper receiverMade => ?_
    refine (expressions_make idxs p).bind fun given ⟨_, givenMade⟩ => ?_
    unfold index
    split
    · next _ _ isArray =>
      split
      · exact Ensures.throw _
      · next notStatic =>
        have notStatic : recv.isStatic = false := by simpa using notStatic
        split
        · exact Ensures.throw _
        · next many =>
          refine (integers_finds given).bind fun converted done =>
            Finds.pure fun finals allowed => ?_
          rw [(proper.value notStatic).1, ← Decidable.not_not.mp many] at isArray
          exact .element off (receiverMade finals (ofLeft allowed) notStatic) isArray
            (givenMade finals (ofRight allowed)) done
    · split
      · exact Ensures.throw _
      · next _ found =>
        split
        · exact Ensures.throw _
        · next notInstance =>
          split
          · exact Ensures.throw _
          · next many =>
            refine (Finds.lift _).bind fun converted done =>
              Finds.pure fun finals allowed => ?_
            exact .indexed off proper (receiverMade finals (ofLeft allowed))
              found (by simpa using notInstance)
              (givenMade finals (ofRight allowed))
              (Decidable.not_not.mp many) done

theorem expressions_make :
    (trees : List Tree.Expr) → (p : Progress) → Finds p (expressions dialect trees) fun made =>
        made.length = trees.length ∧
          ∀ finals : Prop, (Tree.Expr.areSpelled trees = false → finals) →
            AllElaborated dialect p.scopes finals made
  | [], _ => .pure ⟨rfl, fun _ _ => nofun⟩
  | first :: rest, p => by
    refine (expression_makes first p).bind fun made madeSo => ?_
    refine (expressions_make rest p).bind fun _ ⟨many, followingMade⟩ => ?_
    refine Finds.pure ⟨congrArg Nat.succ many, fun finals allowed => ?_⟩
    exact forall_mem_cons.mpr ⟨madeSo finals (ofLeft allowed),
        followingMade finals (ofRight allowed)⟩

theorem boxedExpressions_make : (trees : List Tree.Expr) → (p : Progress) →
      Finds p (boxedExpressions dialect trees) fun boxed =>
        ∃ given, castAll dialect.types given (given.map fun _ => .object) = .ok boxed ∧
          ∀ finals : Prop, (Tree.Expr.areSpelled trees = false → finals) →
            AllElaborated dialect p.scopes finals given
  | [], _ => .pure ⟨[], rfl, fun _ _ => nofun⟩
  | first :: rest, p => by
    refine (expression_makes first p).bind fun made madeSo => ?_
    refine (Finds.lift _).bind fun boxed done => ?_
    refine (boxedExpressions_make rest p).bind fun _ ⟨given, followingDone, givenMade⟩ => ?_
    refine Finds.pure ⟨made :: given, ?_, fun finals allowed => ?_⟩
    · simp only [map_cons, castAll, done, followingDone]
      rfl
    · exact forall_mem_cons.mpr ⟨madeSo finals (ofLeft allowed), givenMade finals (ofRight allowed)⟩

end

end

end Analysis

end HostScript
