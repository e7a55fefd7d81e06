import HostScript.Proofs.Meter

namespace HostScript

open List

/-!
# The names of persistent variables

A name that is declared may not be visible already.
-/

namespace Tree

mutual

def Statement.persistentNames : Statement → List Text
  | .persistent _ _ name => [name.name]
  | .block body => body.persistentNames
  | .ifThen _ _ yes => yes.persistentNames
  | .ifElse _ _ yes no => yes.persistentNames ++ no.persistentNames
  | .whileLoop _ _ body => body.persistentNames
  | .assignment _ _ _ | .declaration _ _ _ _ | .breakLoop _ | .continueLoop _ | .leave _
  | .callStatement _ _ | .invocationStatement _ _ => []

def Block.persistentNames : Block → List Text
  | .mk _ body => Statement.listedNames body

def Statement.listedNames : List Statement → List Text
  | [] => []
  | first :: rest => first.persistentNames ++ Statement.listedNames rest

end

def Statement.innerNames : Statement → List Text
  | .persistent _ _ _ => []
  | statement => statement.persistentNames

def Block.innerNames (root : Block) : List Text :=
  root.body.flatMap Statement.innerNames

end Tree

variable {scopes : Scopes}

namespace Scopes

/-- The symbols that stay visible to the end: those of the outermost block and the global ones. -/
def lasting (scopes : Scopes) : List Symbol :=
  scopes.blocks.getLast?.getD [] ++ scopes.global

theorem mem_symbols_of_lasting (lasts : sym ∈ scopes.lasting) : sym ∈ scopes.symbols := by
  rcases mem_append.mp lasts with outermost | isGlobal
  · cases last : scopes.blocks.getLast? with
    | none => simp [last] at outermost
    | some table =>
      rw [last] at outermost
      exact mem_append_left _ (mem_flatten.mpr ⟨table, mem_of_getLast? last, outermost⟩)
  · exact mem_append_right _ isGlobal

theorem lasting_push (inside : 0 < scopes.blocks.length) :
    scopes.push.lasting = scopes.lasting := by
  obtain ⟨_, _, blocks⟩ := exists_cons_of_length_pos inside
  simp [lasting, push, blocks, getLast?_cons_cons]

theorem lasting_of_pop {scopes : Scopes} (done : scopes.pop = .ok (table, rest))
    (inside : 1 < scopes.blocks.length) :
    rest.lasting = scopes.lasting ∧ rest.blocks.length + 1 = scopes.blocks.length := by
  unfold pop at done
  split at done
  · cases done
  · next blocks =>
    cases done
    rw [blocks, length_cons] at inside
    obtain ⟨_, _, shape⟩ := exists_cons_of_length_pos (Nat.lt_of_succ_lt_succ inside)
    simp [lasting, blocks, shape, getLast?_cons_cons]

theorem lasting_declareGlobal {scopes : Scopes} (done : scopes.declareGlobal sym = .ok changed) :
    changed.blocks = scopes.blocks ∧ changed.lasting = scopes.lasting ++ [sym] := by
  obtain ⟨_, added, rest⟩ := ok_of_bind done
  cases rest
  simp only [lasting, add_eq_ok added, append_assoc, and_self]

theorem lasting_declare {scopes : Scopes} (done : scopes.declare sym = .ok changed)
    (inside : 0 < scopes.blocks.length) :
    changed.blocks.length = scopes.blocks.length ∧
      (∀ other ∈ scopes.lasting, other ∈ changed.lasting) ∧
      (scopes.blocks.length = 1 → sym ∈ changed.lasting) := by
  obtain ⟨table, outer, blocks⟩ := exists_cons_of_length_pos inside
  unfold declare at done
  rw [blocks] at done
  obtain ⟨table, added, rest⟩ := ok_of_bind done
  cases rest
  cases outer with
  | nil =>
    simp only [lasting, blocks, add_eq_ok added]
    grind
  | cons _ _ =>
    simp [lasting, blocks, getLast?_cons_cons]

end Scopes

namespace Analysis

/-- Inside of a count of blocks, the persistent variables found so far whose names are not among
the inner ones stay visible and have names of their own. -/
structure Anchored (inner : List Text) (depth : Nat) (progress : Progress) : Prop where
  blocks : progress.scopes.blocks.length = depth
  inside : 0 < depth
  names : (progress.persistent.map Variable.name).Pairwise
    fun first second => first = second → first ∈ inner
  lasting : ∀ decl ∈ progress.persistent,
    decl.name ∈ inner ∨ .variable decl ∈ progress.scopes.lasting

section

variable {dialect : Dialect} {inner : List Text} {depth : Nat} {after : Progress}

theorem Anchored.fresh (anchored : Anchored inner depth p) (missing : p.scopes.find? name = none)
    (member : name ∈ p.persistent.map Variable.name) : name ∈ inner := by
  obtain ⟨decl, isPersistent, same⟩ := mem_map.mp member
  rcases anchored.lasting decl isPersistent with isInner | lasts
  · exact same ▸ isInner
  · exact absurd same (Scopes.name_ne_of_find? missing (Scopes.mem_symbols_of_lasting lasts))

theorem Anchored.keep (anchored : Anchored inner depth p) {decl}
    (missing : p.scopes.find? decl.name = none)
    (isPersistent : decl.isPersistent) (blocks : scopes.blocks.length = depth)
    (kept : ∀ other ∈ p.scopes.lasting, other ∈ scopes.lasting)
    (added : decl.name ∈ inner ∨ .variable decl ∈ scopes.lasting) :
    Anchored inner depth (p.adding decl scopes) where
  blocks := blocks
  inside := anchored.inside
  names := by
    simp only [Progress.adding, isPersistent, if_true, map_append, map_cons, map_nil]
    rw [pairwise_append]
    refine ⟨anchored.names, pairwise_singleton _ _, fun prev member _ last same => ?_⟩
    rw [mem_singleton.mp last] at same
    subst same
    exact anchored.fresh missing member
  lasting other member := by
    simp only [Progress.adding, isPersistent, if_true, mem_append, mem_singleton] at member
    rcases member with prev | rfl
    · exact (anchored.lasting other prev).imp_right (kept _)
    · exact added

theorem expression_keeps (tree : Tree.Expr) (p : Progress) :
    Finds p (expression dialect tree) fun _ => True :=
  (expression_makes dialect tree p).mono fun _ _ => trivial

theorem condition_keeps (tree : Tree.Expr) (p : Progress) :
    Finds p (condition dialect tree) fun _ => True :=
  (expression_keeps tree p).bind fun _ _ => (Finds.lift _).mono fun _ _ => trivial

section

variable (anchored : Anchored inner depth p)

include anchored

theorem assigned_anchored (off : Nat) (name : Text) :
    Ensures p (assigned off name) fun _ after => Anchored inner depth after := by
  refine (assigned_ensures off name).mono ?_
  rintro _ _ (⟨rfl, _⟩ | ⟨_, _, _, _, isPersistent, declares⟩)
  · exact anchored
  · obtain ⟨_, added, rfl⟩ := declares.added
    obtain ⟨blocks, lasting⟩ := Scopes.lasting_declareGlobal added
    refine anchored.keep declares.fresh isPersistent (blocks ▸ anchored.blocks)
      (fun _ member => ?_) ?_
    · exact lasting ▸ mem_append_left _ member
    · exact .inr (lasting ▸ mem_append_right _ (mem_singleton_self _))

theorem assignment_anchored (off : Nat) (tgt val : Tree.Expr) :
    Ensures p (assignment dialect off tgt val) fun _ after =>
      Anchored inner depth after := by
  unfold assignment
  split
  · refine (assigned_anchored anchored _ _).bind fun place mid anchored => ?_
    refine (expression_keeps val mid).bind fun given _ => ?_
    exact (Finds.lift _).bind fun _ _ => Ensures.pure anchored
  · refine (expression_keeps val p).bind fun given _ => ?_
    refine (expression_keeps tgt p).bind fun place _ => ?_
    split
    · exact (Finds.lift _).bind fun _ _ => Ensures.pure anchored
    · exact .throw _

theorem declaration_anchored (off : Nat) (typeName name : Ident) (val : Tree.Expr) :
    Ensures p (declaration dialect off typeName name val) fun _ after =>
      Anchored inner depth after := by
  refine (expression_keeps val p).bind fun given _ => ?_
  refine (lookupType_finds typeName).bind fun named _ => ?_
  generalize (if named = .void then given.type else named) = type
  dsimp only
  split
  · exact .throw _
  · refine (declare_ensures name type false).bind fun _ _ ⟨_, _, notKept, declares⟩ => ?_
    obtain ⟨_, added, rfl⟩ := declares.added
    obtain ⟨blocks, lasting, _⟩ := Scopes.lasting_declare added (anchored.blocks ▸ anchored.inside)
    refine (Finds.lift _).bind fun _ _ => Ensures.pure ?_
    refine ⟨blocks.trans anchored.blocks, anchored.inside, ?_, fun other member => ?_⟩
    · simpa only [Progress.adding, notKept, Bool.false_eq_true, if_false] using anchored.names
    · simp only [Progress.adding, notKept, Bool.false_eq_true, if_false] at member
      exact (anchored.lasting other member).imp_right (lasting _)

theorem persistentDeclaration_anchored (off : Nat)
    (typeName name : Ident) (allowed : name.name ∈ inner ∨ depth = 1) :
    Ensures p (persistentDeclaration off typeName name) fun _ after =>
      Anchored inner depth after := by
  refine (lookupType_finds typeName).bind fun named _ => ?_
  split
  · exact .throw _
  · refine (declare_ensures name named true).bind
      fun _ _ ⟨isNamed, _, isPersistent, declares⟩ => .pure ?_
    obtain ⟨_, added, rfl⟩ := declares.added
    obtain ⟨blocks, lasting, outermost⟩ := Scopes.lasting_declare added
      (anchored.blocks ▸ anchored.inside)
    refine anchored.keep declares.fresh isPersistent (blocks.trans anchored.blocks) lasting ?_
    exact allowed.imp (fun isInner => isNamed ▸ isInner)
      fun isOutermost => outermost (anchored.blocks.trans isOutermost)

end

mutual

theorem statement_anchored : (tree : Tree.Statement) → (loops depth : Nat) → (p : Progress) →
      tree.persistentNames ⊆ inner → Anchored inner depth p →
      Ensures p (statement dialect loops tree) fun _ after => Anchored inner depth after
  | .block body, loops, depth, p, allowed, anchored =>
    (block_anchored body loops depth p allowed anchored).bind fun _ _ anchored => .pure anchored
  | .assignment off tgt val, _, _, _, _, anchored =>
    assignment_anchored anchored off tgt val
  | .declaration off typeName name val, _, _, _, _, anchored =>
    declaration_anchored anchored off typeName name val
  | .persistent off typeName name, _, _, _, allowed, anchored =>
    persistentDeclaration_anchored anchored off typeName name (.inl (allowed mem_cons_self))
  | .ifThen off tree yes, loops, depth, p, allowed, anchored
  | .whileLoop off tree yes, loops, depth, p, allowed, anchored => by
    refine (condition_keeps tree p).bind fun _ _ => ?_
    exact (block_anchored yes _ depth p allowed anchored).bind fun _ _ anchored => .pure anchored
  | .ifElse off tree yes no, loops, depth, p, allowed, anchored => by
    refine (condition_keeps tree p).bind fun _ _ => ?_
    refine (block_anchored yes loops depth p (append_subset.mp allowed).1 anchored).bind
      fun _ mid anchored => ?_
    exact (block_anchored no loops depth mid (append_subset.mp allowed).2 anchored).bind
      fun _ _ anchored => .pure anchored
  | .breakLoop _, _, _, _, _, anchored | .continueLoop _, _, _, _, _, anchored => by
    unfold statement
    split
    · exact .throw _
    · exact .pure anchored
  | .leave _, _, _, _, _, anchored =>
    Ensures.pure anchored
  | .callStatement _ call, _, _, p, _, anchored
  | .invocationStatement _ call, _, _, p, _, anchored =>
    (expression_keeps call p).bind fun _ _ => .pure anchored

theorem block_anchored : (tree : Tree.Block) → (loops depth : Nat) → (p : Progress) →
      tree.persistentNames ⊆ inner → Anchored inner depth p →
      Ensures p (block dialect loops tree) fun _ after => Anchored inner depth after
  | .mk _ body, loops, depth, p, allowed, anchored => by
    refine openScope_ensures.bind fun _ opened isOpened => ?_
    have openedAnchored : Anchored inner (depth + 1) opened := by
      subst isOpened
      exact ⟨congrArg (· + 1) anchored.blocks, Nat.succ_pos depth, anchored.names,
        fun decl member => Scopes.lasting_push (anchored.blocks ▸ anchored.inside) ▸
          anchored.lasting decl member⟩
    refine (statements_anchored body loops (depth + 1) opened allowed openedAnchored).bind
      fun _ inner innerAnchored => ?_
    refine closeScope_ensures.bind fun _ _ ⟨_, popped, isAfter⟩ => .pure ?_
    subst isAfter
    have nested : 1 < inner.scopes.blocks.length := by
      rw [innerAnchored.blocks]
      exact Nat.succ_lt_succ anchored.inside
    obtain ⟨lasting, fewer⟩ := Scopes.lasting_of_pop popped nested
    rw [innerAnchored.blocks] at fewer
    exact ⟨Nat.succ.inj fewer, anchored.inside, innerAnchored.names,
      fun decl member => lasting ▸ innerAnchored.lasting decl member⟩

theorem statements_anchored : (trees : List Tree.Statement) → (loops depth : Nat) → (p : Progress) →
      Tree.Statement.listedNames trees ⊆ inner → Anchored inner depth p →
      Ensures p (statements dialect loops trees) fun _ after => Anchored inner depth after
  | [], _, _, _, _, anchored =>
    Ensures.pure anchored
  | first :: rest, loops, depth, p, allowed, anchored => by
    refine (statement_anchored first loops depth p (append_subset.mp allowed).1
      anchored).bind fun _ mid anchored => ?_
    exact (statements_anchored rest loops depth mid (append_subset.mp allowed).2
      anchored).bind fun _ _ anchored => .pure anchored

end

theorem outermost_anchored (trees : List Tree.Statement)
    (allowed : trees.flatMap Tree.Statement.innerNames ⊆ inner) (anchored : Anchored inner 1 p) :
    Ensures p (statements dialect 0 trees) fun _ after => Anchored inner 1 after := by
  induction trees generalizing p with
  | nil =>
    unfold statements
    exact .pure anchored
  | cons first _ ih =>
    rw [flatMap_cons, append_subset] at allowed
    have firstAnchored : Ensures p (statement dialect 0 first) fun _ after =>
        Anchored inner 1 after := by
      cases first with
      | persistent off typeName name =>
        unfold statement
        exact persistentDeclaration_anchored anchored off typeName name (.inr rfl)
      | _ => exact statement_anchored _ 0 1 p allowed.1 anchored
    unfold statements
    refine firstAnchored.bind fun _ _ anchored => ?_
    exact (ih allowed.2 anchored).bind fun _ _ anchored => .pure anchored

/--
If two persistent variables of a script share a name, and with it their key in the store,
the name is one that an inner block declares.
-/
theorem persistent_names_pairwise
    (dialect : Dialect) (root : Tree.Block) (analysed : Typed.Script)
    (accepted : script dialect root = .ok analysed) :
    (analysed.persistent.map Variable.name).Pairwise
      fun first second => first = second → first ∈ root.innerNames := by
  obtain ⟨⟨_, _⟩, done, rest⟩ := ok_of_bind accepted
  cases rest
  obtain ⟨offset, trees⟩ := root
  obtain ⟨_, _, openedDone, done⟩ := bind_eq_ok done
  obtain rfl := openScope_ensures _ _ openedDone
  obtain ⟨_, _, closingDone, done⟩ := bind_eq_ok done
  have started : Anchored (Tree.Block.mk offset trees).innerNames 1
      { scopes := Scopes.push { global := dialect.binding.symbols.withoutVariables } } :=
    ⟨rfl, Nat.one_pos, List.Pairwise.nil, nofun⟩
  have anchored := outermost_anchored trees (List.Subset.refl _) started _ _ closingDone
  obtain ⟨_, _, closedDone, done⟩ := bind_eq_ok done
  obtain ⟨_, _, rfl⟩ := closeScope_ensures _ _ closedDone
  cases done
  exact anchored.names

end

end Analysis

namespace Meter

/-- The name of the variables in the scripts below. -/
def keptName : Text := [Text.byte 'k']

/-- A script with two persistent variables: it declares one and assigns to the other. -/
def paired : Tree.Block :=
  .mk 0 [.persistent 0 ⟨floatName, 0⟩ ⟨keptName, 0⟩,
      .assignment 0 (.reference 0 [Text.byte 'm']) (.reference 0 keptName)]

theorem paired_names_pairwise :
    Analysis.script dialect paired = .ok (analysed paired) ∧
      (analysed paired).persistent.map Variable.name = [keptName, [Text.byte 'm']] ∧
      ((analysed paired).persistent.map Variable.name).Pairwise
        fun first second => first = second → first ∈ paired.innerNames :=
  ⟨rfl, rfl, Analysis.persistent_names_pairwise dialect paired (analysed paired) rfl⟩

/-- A script that declares one name for persistent variables in two blocks, and sets the first. -/
def siblings : Tree.Block :=
  let decl : Tree.Statement := .persistent 0 ⟨floatName, 0⟩ ⟨keptName, 0⟩
  let always : Tree.Expr := .literal 0 (.boolean true)
  .mk 0 [.ifThen 0 always (.mk 0
      [decl, .assignment 0 (.reference 0 keptName) (.literal 0 (.float 0x3f800000))]),
      .ifThen 0 always (.mk 0 [decl])]

theorem siblings_share :
    Analysis.script dialect siblings = .ok (analysed siblings) ∧
      (analysed siblings).persistent.map Variable.name = [keptName, keptName] ∧
      (Machine.runFor host (program siblings) {} 60 (Machine.start (program siblings) world)).1 =
        some (.ok ()) ∧
      (Machine.runFor host (program siblings) {} 60
          (Machine.start (program siblings) world)).2.world.store =
        .memory [(keptName, .float .single 0)] :=
  ⟨rfl, rfl, by decide +kernel, by decide +kernel⟩

end Meter

end HostScript
