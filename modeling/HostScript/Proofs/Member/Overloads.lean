import Mathlib
import HostScript.Proofs.Typing.Members

namespace HostScript

open List
open Method (params)

/-!
# Overloads

A type offers one method for each list of parameters, the nearest in its hierarchy.
-/

/-- What tells the methods of a type apart. -/
def Method.signature (method : Method) : Text × Bool × List Ty :=
  (method.name, method.isStatic, method.params)

section

variable {items : List α} {test : α → Bool} {item : α}

theorem find?_eq_some_of_unique (mem : item ∈ items) (passes : test item)
    (unique : ∀ other ∈ items, test other → other = item) : items.find? test = some item := by
  cases found : items.find? test with
  | none => exact absurd passes (find?_eq_none.mp found item mem)
  | some other =>
    rw [unique other (mem_of_find?_eq_some found) (find?_some found)]

/-- Where one member at most passes a test, the order of a list does not matter to a search. -/
theorem find?_of_perm (perm : items.Perm others)
    (unique : ∀ first ∈ items, ∀ second ∈ items, test first → test second → first = second) :
    items.find? test = others.find? test := by
  cases found : items.find? test with
  | none =>
    refine (find?_eq_none.mpr fun item mem => ?_).symm
    exact find?_eq_none.mp found item (perm.mem_iff.mpr mem)
  | some item =>
    have mem := mem_of_find?_eq_some found
    have passes := find?_some found
    refine (find?_eq_some_of_unique (perm.mem_iff.mp mem) passes fun other isOther also => ?_).symm
    exact unique other (perm.mem_iff.mpr isOther) item mem also passes

end

namespace Universe

section

variable {types : Universe} {decl collected : List Method}

/-! ## Methods that are offered -/

theorem find?_foldl_addUnhidden (decl collected : List Method) (params : List Ty) :
    (decl.foldl addUnhidden collected).find? (·.params == params) =
      (collected ++ decl).find? (·.params == params) := by
  induction decl generalizing collected with
  | nil => simp
  | cons first _ ih =>
    rw [foldl_cons, ih]
    unfold addUnhidden
    split
    · next hidden =>
      obtain ⟨other, mem, same⟩ := any_eq_true.mp hidden
      have same : other.params = first.params := eq_of_beq same
      rw [find?_append, find?_append]
      cases found : collected.find? (·.params == params) with
      | some => rfl
      | none =>
        have differs := find?_eq_none.mp found other mem
        rw [find?_cons_of_neg (same ▸ differs)]
    · rw [append_assoc, singleton_append]

theorem nodup_foldl_addUnhidden (distinct : (collected.map params).Nodup) :
    ((decl.foldl addUnhidden collected).map params).Nodup := by
  induction decl generalizing collected with
  | nil => exact distinct
  | cons _ _ ih =>
    refine ih ?_
    unfold addUnhidden
    split
    · exact distinct
    · next fresh =>
      rw [map_append]
      refine distinct.append (nodup_singleton _) (disjoint_singleton.mpr fun mem => ?_)
      obtain ⟨other, isOther, same⟩ := mem_map.mp mem
      exact fresh (any_eq_true.mpr ⟨other, isOther, beq_iff_eq.mpr same⟩)

variable {type : Ty} {name : Text} {isStatic : Bool}

theorem nodup_params_methods : ((types.methods type name isStatic).map params).Nodup :=
  nodup_foldl_addUnhidden nodup_nil

variable (types) in
/-- The nearest declaration of a signature, and in one type the first. -/
def nearest? (type : Ty) (name : Text) (isStatic : Bool) (params : List Ty) : Option Method :=
  (types.hierarchy type).findSome? fun level =>
    (types.declaration level).methods.find? fun method =>
      method.signature = (name, isStatic, params)

theorem find?_methods (params : List Ty) :
    (types.methods type name isStatic).find? (·.params == params) =
      types.nearest? type name isStatic params := by
  unfold methods nearest?
  rw [find?_foldl_addUnhidden, nil_append, find?_flatMap]
  congr 1
  funext level
  rw [find?_filter]
  congr 1
  funext meth
  simp [Method.signature, Bool.and_assoc]

theorem mem_methods_iff : meth ∈ types.methods type name isStatic ↔
    types.nearest? type name isStatic meth.params = some meth := by
  rw [← find?_methods]
  refine ⟨fun mem => ?_, mem_of_find?_eq_some⟩
  refine find?_eq_some_of_unique mem (beq_iff_eq.mpr rfl) fun _ isOther same => ?_
  exact inj_on_of_nodup_map nodup_params_methods isOther mem (eq_of_beq same)

/-! ## Selection -/

variable {candidates : List Method} {args : List (Option Ty)}

theorem matchesLoosely_iff : types.matchesLoosely meth args ↔
    List.Forall₂ (fun param argument => types.accepts param argument) meth.params args := by
  rw [forall₂_iff_zip]
  simp [matchesLoosely]

theorem exact_unique (distinct : (candidates.map params).Nodup) {first second}
    (mem : first ∈ candidates) (mem' : second ∈ candidates)
    (agrees : matchesExactly first args) (agrees' : matchesExactly second args) :
    first = second := by
  refine inj_on_of_nodup_map distinct mem mem' ?_
  refine map_injective_iff.mpr (fun _ _ => Option.some.inj) ?_
  exact (eq_of_beq agrees).trans (eq_of_beq agrees').symm

theorem select_of_perm (perm : candidates.Perm others) (distinct : (candidates.map params).Nodup) :
    types.select candidates args = types.select others args := by
  have loose := perm.filter fun meth => types.matchesLoosely meth args
  unfold select
  rw [find?_of_perm perm fun _ mem _ mem' => exact_unique distinct mem mem']
  split
  · rfl
  · revert loose
    generalize candidates.filter _ = first, others.filter _ = second
    intro loose
    rcases first with _ | ⟨meth, _ | ⟨_, _⟩⟩
    · rw [loose.nil_eq]
    · rw [singleton_perm.mp loose]
    · rcases second with _ | ⟨_, _ | _⟩
      · exact absurd loose.length_eq (by simp)
      · exact absurd loose.length_eq (by simp)
      · rfl

/-- A method is selected that matches exactly, or else the only one that accepts the arguments. -/
theorem select_eq_ok_iff (distinct : (candidates.map params).Nodup) :
    types.select candidates args = .ok meth ↔ meth ∈ candidates ∧
      (meth.params.map some = args ∨ (∀ other ∈ candidates, other.params.map some ≠ args) ∧
        ∀ other ∈ candidates, List.Forall₂
          (fun param argument => types.accepts param argument) other.params args ↔
            other = meth) := by
  simp only [← matchesLoosely_iff]
  unfold select
  split
  · next chosen found =>
    have mem := mem_of_find?_eq_some found
    have agrees := find?_some found
    constructor
    · rintro ⟨⟩
      exact ⟨mem, .inl (eq_of_beq agrees)⟩
    · rintro ⟨isCandidate, same | ⟨none, _⟩⟩
      · rw [exact_unique distinct mem isCandidate agrees (beq_iff_eq.mpr same)]
      · exact absurd (eq_of_beq agrees) (none chosen mem)
  · next none =>
    have none : ∀ other ∈ candidates, other.params.map some ≠ args := fun other mem same =>
      find?_eq_none.mp none other mem (beq_iff_eq.mpr same)
    have nodup := distinct.of_map.filter fun meth => types.matchesLoosely meth args
    have loose : ∀ other, other ∈ candidates.filter (fun meth => types.matchesLoosely meth args)
        ↔ other ∈ candidates ∧ types.matchesLoosely other args := fun _ => mem_filter
    revert nodup loose
    generalize candidates.filter _ = found
    intro nodup loose
    constructor
    · intro selected
      have only : found = [meth] := by
        split at selected <;> cases selected
        rfl
      have mem := (loose meth).mp (only ▸ mem_singleton_self meth)
      refine ⟨mem.1, .inr ⟨none, fun other isCandidate => ⟨fun accepts => ?_, ?_⟩⟩⟩
      · exact mem_singleton.mp (only ▸ (loose other).mpr ⟨isCandidate, accepts⟩)
      · rintro rfl
        exact mem.2
    · rintro ⟨mem, same | ⟨_, only⟩⟩
      · exact absurd same (none meth mem)
      · have all : ∀ other ∈ found, other = meth := fun other isFound =>
          (only other ((loose other).mp isFound).1).mp ((loose other).mp isFound).2
        have isFound := (loose meth).mpr ⟨mem, (only meth mem).mpr rfl⟩
        rw [eq_replicate_of_mem all, nodup_replicate] at nodup
        rw [eq_replicate_of_mem all]
        obtain one : found.length = 1 := Nat.le_antisymm nodup (length_pos_of_mem isFound)
        rw [one]
        rfl

end

/-! ## Orders of declaration -/

/-- A universe that differs only in the order in which its types declare their methods. -/
structure Reordered (types other : Universe) : Prop where
  length : other.declarations.length = types.declarations.length
  same : ∀ type, other.declaration type =
    { types.declaration type with methods := (other.declaration type).methods }
  perm : ∀ type, (other.declaration type).methods.Perm (types.declaration type).methods

namespace Reordered

variable {types other : Universe} (reordered : types.Reordered other)

include reordered

theorem base (type : Ty) : other.base type = types.base type := by
  rw [Universe.base, reordered.same]
  rfl

theorem interfaces (type : Ty) : other.interfaces type = types.interfaces type := by
  rw [Universe.interfaces, reordered.same]
  rfl

theorem kind (type : Ty) : other.kind type = types.kind type := by
  cases type with
  | named => rw [Universe.kind, reordered.same]; rfl
  | void | prim | string | object | array => rfl

theorem depth : other.depth = types.depth := congrArg (· + 2) reordered.length

theorem ancestors (type : Ty) : other.ancestors type = types.ancestors type := by
  have within : ∀ bound type, other.ancestorsWithin bound type =
      types.ancestorsWithin bound type := by
    intro bound
    induction bound with
    | zero => exact fun _ => rfl
    | succ bound ih => exact fun type => by simp only [ancestorsWithin, reordered.base, ih]
  rw [Universe.ancestors, reordered.depth, within]
  rfl

theorem implements (type interface : Ty) :
    other.implements type interface = types.implements type interface := by
  have within : ∀ bound type, other.implementsWithin bound type interface =
      types.implementsWithin bound type interface := by
    intro bound
    induction bound with
    | zero => exact fun _ => rfl
    | succ bound ih =>
      exact fun type => by
        simp only [implementsWithin, reordered.ancestors, reordered.interfaces, ih]
  rw [Universe.implements, reordered.depth, within]
  rfl

theorem isAssignable (tgt src : Ty) : other.isAssignable tgt src = types.isAssignable tgt src := by
  induction tgt generalizing src with
  | array _ _ ih =>
    rw [isAssignable.eq_def, isAssignable.eq_def types]
    cases src <;> simp only [ih]
  | object => rw [isAssignable.eq_def, isAssignable.eq_def types]
  | void | prim | string | named =>
    rw [isAssignable.eq_def, isAssignable.eq_def types]
    simp only [reordered.kind, reordered.implements, reordered.ancestors]

theorem hierarchy (type : Ty) : other.hierarchy type = types.hierarchy type := by
  have walk : ∀ bound, other.walkInterface bound = types.walkInterface bound := by
    intro bound
    induction bound with
    | zero => rfl
    | succ bound ih => funext seen type; simp only [walkInterface, reordered.interfaces, ih]
  have interfaces : other.interfaces = types.interfaces := funext reordered.interfaces
  simp only [Universe.hierarchy, reordered.kind, reordered.ancestors, reordered.depth, walk,
    interfaces]

theorem select (candidates : List Method) (args : List (Option Ty)) :
    other.select candidates args = types.select candidates args := by
  have accepts : other.accepts = types.accepts := by
    funext param argument
    cases argument with
    | none => rfl
    | some argument => simp only [Universe.accepts, reordered.isAssignable]
  have loosely : other.matchesLoosely = types.matchesLoosely := by
    funext meth args
    simp only [matchesLoosely, accepts]
  simp only [Universe.select, loosely]

theorem methods (distinct : ∀ type, ((types.declaration type).methods.map Method.signature).Nodup)
    (type : Ty) (name : Text) (isStatic : Bool) :
    (other.methods type name isStatic).Perm (types.methods type name isStatic) := by
  have nearest : ∀ params, other.nearest? type name isStatic params =
      types.nearest? type name isStatic params := by
    intro params
    unfold nearest?
    rw [reordered.hierarchy]
    congr 1
    funext level
    refine (find?_of_perm (reordered.perm level).symm
    fun _ mem _ mem' same same' => ?_).symm
    exact inj_on_of_nodup_map (distinct level) mem mem'
      ((of_decide_eq_true same).trans (of_decide_eq_true same').symm)
  refine (perm_ext_iff_of_nodup nodup_params_methods.of_map nodup_params_methods.of_map).mpr
    fun _ => ?_
  rw [mem_methods_iff, mem_methods_iff, nearest]

end Reordered

/-- A type offers the nearest method in its hierarchy for each list of parameters. Of these the one
is selected whose parameters are the types of the arguments, or else the only one that accepts
them, whatever the order in which types declare their methods. -/
theorem overload_selection (types : Universe) (type : Ty) (name : Text) (isStatic : Bool)
    (args : List (Option Ty)) :
    ((types.methods type name isStatic).map Method.params).Nodup ∧
      (∀ method, method ∈ types.methods type name isStatic ↔
        types.nearest? type name isStatic method.params = some method) ∧
      (∀ method, types.select (types.methods type name isStatic) args = .ok method ↔
        method ∈ types.methods type name isStatic ∧
        (method.params.map some = args ∨
          (∀ other ∈ types.methods type name isStatic, other.params.map some ≠ args) ∧
          ∀ other ∈ types.methods type name isStatic, List.Forall₂
            (fun param argument => types.accepts param argument = true) other.params args ↔
              other = method)) ∧
      ∀ other, types.Reordered other →
        (∀ level, ((types.declaration level).methods.map Method.signature).Nodup) →
        other.select (other.methods type name isStatic) args =
          types.select (types.methods type name isStatic) args := by
  refine ⟨nodup_params_methods, fun _ => mem_methods_iff,
    fun _ => select_eq_ok_iff nodup_params_methods, fun other reordered distinct => ?_⟩
  rw [reordered.select, select_of_perm (reordered.methods distinct type name isStatic)
    nodup_params_methods]

end Universe

end HostScript
