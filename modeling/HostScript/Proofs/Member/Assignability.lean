import HostScript.Proofs.Member.Graph
import HostScript.Proofs.Typing.Members

namespace HostScript.Universe

open Relation (ReflTransGen TransGen)
open List

/-!
# Assignability is an order

Apart from arrays and `object`, a location takes the values of the types from which its own type
is reached.
-/

section

variable {tys : Universe} {tgt src : Ty}

theorem isAssignable_void (tgt : Ty) : tys.isAssignable tgt .void = (tgt == .void) := by
  rw [isAssignable.eq_def]
  simp

theorem isAssignable_object (notVoid : src ≠ .void) : tys.isAssignable .object src = true := by
  rw [isAssignable.eq_def]
  simp [notVoid]

theorem isAssignable_array_iff {elem rank} :
    tys.isAssignable (.array elem rank) src = true ↔
      src = .array elem rank ∨ ∃ other, src = .array other rank ∧ elem.isValue = false ∧
        other.isValue = false ∧ tys.isAssignable elem other = true := by
  rw [isAssignable.eq_def]
  cases src <;> simp
  grind

/-- No array type implements an interface. -/
def HasBareArrays (types : Universe) : Prop :=
  ∀ elem rank, types.interfaces (.array elem rank) = []

/-- A type whose values are not taken in from everywhere or by their elements. -/
structure IsSimple (type : Ty) : Prop where
  notObject : type ≠ .object
  notArray : type.isArray = false

theorem cases_of_type (type : Ty) :
    IsSimple type ∨ type = .object ∨ ∃ elem rank, type = .array elem rank := by
  cases type with
  | void | prim | string | named => exact .inl ⟨nofun, rfl⟩
  | object => exact .inr (.inl rfl)
  | array elem rank => exact .inr (.inr ⟨elem, rank, rfl⟩)

theorem isAssignable_simple_iff (simple : IsSimple tgt) (notVoid : src ≠ .void) :
    tys.isAssignable tgt src = true ↔ tgt = src ∨
      if tys.kind tgt = .interface then tys.implements src tgt = true
      else tgt ∈ (tys.ancestors src).tail := by
  rw [isAssignable.eq_def]
  cases tgt with
  | object => cases simple.notObject rfl
  | array => cases simple.notArray
  | void | prim | string | named => simp [notVoid]

theorem reaches_of_isAssignable (simple : IsSimple tgt) (notVoid : src ≠ .void)
    (assignable : tys.isAssignable tgt src = true) : tys.Reaches src tgt := by
  rcases (isAssignable_simple_iff simple notVoid).mp assignable with same | found
  · exact same ▸ .refl
  · split at found
    · exact reaches_of_implementsWithin found
    · exact reaches_of_ancestor (mem_of_mem_tail found)

section Antisymm

variable (antisymm : ∀ {lower upper}, tys.Reaches lower upper → tys.Reaches upper lower →
    lower = upper) (top : ∀ {upper}, tys.Reaches .object upper → upper = .object)

include antisymm top

theorem isAssignable_antisymm (upward : tys.isAssignable tgt src = true)
    (downward : tys.isAssignable src tgt = true) : src = tgt := by
  by_cases targetVoid : tgt = .void
  · rw [targetVoid, isAssignable_void, beq_iff_eq] at downward
    rw [downward, targetVoid]
  induction src generalizing tgt with
  | array elem rank ih =>
    rcases isAssignable_array_iff.mp downward with same | ⟨other, rfl, _, _, inner⟩
    · exact same.symm
    · rcases isAssignable_array_iff.mp upward with same | ⟨_, same, _, _, inner'⟩
      · exact same
      · cases same
        by_cases elementVoid : other = .void
        · rw [elementVoid, isAssignable_void, beq_iff_eq] at inner
          rw [inner, elementVoid]
        · rw [ih inner' inner elementVoid]
  | void =>
    rw [isAssignable_void, beq_iff_eq] at upward
    exact upward.symm
  | object | prim | string | named =>
    rcases cases_of_type tgt with simple | rfl | ⟨elem, rank, rfl⟩
    · have reached := reaches_of_isAssignable simple Ty.noConfusion upward
      first
      | exact (top reached).symm
      | exact antisymm reached (reaches_of_isAssignable ⟨nofun, rfl⟩ targetVoid downward)
    · first
      | rfl
      | exact top (reaches_of_isAssignable ⟨nofun, rfl⟩ targetVoid downward)
    · rcases isAssignable_array_iff.mp upward with same | ⟨_, same, _⟩ <;> cases same

end Antisymm

namespace WellFormed

variable (wf : tys.WellFormed)

include wf

theorem ancestor_of_bare (bare : ∀ ancestor ∈ tys.ancestors src, tys.interfaces ancestor = [])
    (reached : tys.Reaches src tgt) : tgt ∈ tys.ancestors src := by
  rcases wf.reaches_cases reached with above | ⟨_, ancestor, above, chain⟩
  · exact above
  · obtain ⟨_, step, _⟩ := TransGen.head'_iff.mp chain
    rw [Implements, bare ancestor above] at step
    cases step

variable (acyclic : ∀ type, ¬TransGen tys.Implements type type)

include acyclic

theorem isAssignable_iff (simple : IsSimple tgt) (notVoid : src ≠ .void) :
    tys.isAssignable tgt src = true ↔ tys.Reaches src tgt := by
  rw [isAssignable_simple_iff simple notVoid]
  by_cases isInterface : tys.kind tgt = .interface
  · rw [if_pos isInterface, wf.implements_iff acyclic]
    exact ⟨fun found => found.elim (fun same => same ▸ .refl) id, .inr⟩
  · obtain ⟨_, split⟩ := wf.ancestors_eq_cons src
    rw [if_neg isInterface, split, tail_cons, ← mem_cons, ← split]
    refine ⟨reaches_of_ancestor, fun reached => ?_⟩
    exact (wf.reaches_cases reached).resolve_right fun found => isInterface found.1

theorem reaches_of_interface (isInterface : tys.kind tgt = .interface)
    (assignable : tys.isAssignable tgt src = true) : tys.Reaches src tgt := by
  obtain ⟨_, rfl⟩ := (kind_eq_interface_iff.mp isInterface).1
  refine (wf.isAssignable_iff acyclic ⟨Ty.noConfusion, rfl⟩ ?_).mp assignable
  rintro rfl
  rw [isAssignable_void] at assignable
  cases assignable

theorem reaches_antisymm (upward : tys.Reaches src tgt)
    (downward : tys.Reaches tgt src) : src = tgt := by
  rcases wf.reaches_cases upward with above | ⟨isInterface, _, above, chain⟩ <;>
    rcases wf.reaches_cases downward with below | ⟨isInterface', _, below, chain'⟩
  · obtain ⟨_, first⟩ := wf.ancestors_eq_cons src
    obtain ⟨_, second⟩ := wf.ancestors_eq_cons tgt
    have same := (wf.ancestors_suffix above).eq_of_length_le (wf.ancestors_suffix below).length_le
    rw [first, second] at same
    exact (List.cons.inj same).1.symm
  · rw [ancestors_of_root (wf.interfaceBase isInterface'), mem_singleton] at above
    exact above.symm
  · rw [ancestors_of_root (wf.interfaceBase isInterface), mem_singleton] at below
    exact below
  · rw [ancestors_of_root (wf.interfaceBase isInterface'), mem_singleton] at above
    rw [ancestors_of_root (wf.interfaceBase isInterface), mem_singleton] at below
    exact absurd (above ▸ chain.trans (below ▸ chain')) (acyclic _)

theorem eq_void_of_isAssignable (assignable : tys.isAssignable .void src = true) : src = .void := by
  refine Classical.byContradiction fun notVoid => ?_
  have simple : IsSimple .void := ⟨nofun, rfl⟩
  have reached := (wf.isAssignable_iff acyclic simple notVoid).mp assignable
  rcases (ReflTransGen.cases_tail_iff _ _ _).mp reached with same | ⟨_, _, isBase | mem⟩
  · exact notVoid same.symm
  · rcases (wf.isBase isBase).2 with same | ⟨_, same, _⟩ <;> cases same
  · cases wf.interfaces mem

variable (bare : tys.interfaces .object = [])

include bare

omit acyclic in
theorem eq_object_of_reaches (reached : tys.Reaches .object tgt) : tgt = .object := by
  have root := ancestors_of_root wf.objectBase
  have above := wf.ancestor_of_bare (by simp [root, bare]) reached
  rwa [root, mem_singleton] at above

variable (bareArrays : tys.HasBareArrays)

include bareArrays

/-- A simple type takes nothing from `object` or an array. -/
theorem isSimple_of_isAssignable (simple : IsSimple tgt) (notVoid : src ≠ .void)
    (assignable : tys.isAssignable tgt src = true) : IsSimple src := by
  have reached := (wf.isAssignable_iff acyclic simple notVoid).mp assignable
  rcases cases_of_type src with isSimple | rfl | ⟨elem, rank, rfl⟩
  · exact isSimple
  · exact wf.eq_object_of_reaches bare reached ▸ simple
  · have chain := (wf.ancestors_of_base (wf.arrayBase elem rank)).trans
      (congrArg _ (ancestors_of_root wf.objectBase))
    have above := wf.ancestor_of_bare (by simp [chain, bare, bareArrays elem rank]) reached
    rw [chain, mem_cons, mem_singleton] at above
    rcases above with rfl | rfl
    · exact simple
    · cases simple.notObject rfl

theorem isAssignable_trans_of_isSimple (simple : IsSimple upper)
    (first : tys.isAssignable mid lower = true) (second : tys.isAssignable upper mid = true) :
    tys.isAssignable upper lower = true := by
  by_cases lowerVoid : lower = .void
  · rw [lowerVoid, isAssignable_void, beq_iff_eq] at first
    exact lowerVoid ▸ first ▸ second
  · have middleNotVoid : mid ≠ .void := by
      rintro rfl
      exact lowerVoid (wf.eq_void_of_isAssignable acyclic first)
    have isSimple := wf.isSimple_of_isAssignable acyclic bare bareArrays simple middleNotVoid second
    rw [wf.isAssignable_iff acyclic simple middleNotVoid] at second
    rw [wf.isAssignable_iff acyclic isSimple lowerVoid] at first
    exact (wf.isAssignable_iff acyclic simple lowerVoid).mpr (first.trans second)

theorem isAssignable_trans (first : tys.isAssignable mid lower = true)
    (second : tys.isAssignable upper mid = true) : tys.isAssignable upper lower = true := by
  induction upper generalizing lower mid with
  | void | prim | string | named =>
    exact wf.isAssignable_trans_of_isSimple acyclic bare bareArrays ⟨Ty.noConfusion, rfl⟩ first
      second
  | object =>
    refine isAssignable_object ?_
    rintro rfl
    rw [isAssignable_void, beq_iff_eq] at first
    rw [first, isAssignable_void] at second
    cases second
  | array _ _ ih =>
    rcases isAssignable_array_iff.mp second with rfl | ⟨_, rfl, isReference, _, inner⟩
    · exact first
    · rcases isAssignable_array_iff.mp first with rfl | ⟨innermost, rfl, _, isReference', inner'⟩
      · exact second
      · exact isAssignable_array_iff.mpr
          (Or.inr ⟨innermost, rfl, isReference, isReference', ih inner' inner⟩)

end WellFormed

end

/--
In a graph without cycles of interfaces and where `object` and the array types implement
nothing, assignability is a partial order, and `object` is above every type but `void`.
-/
theorem isAssignable_isPartialOrder {types : Universe} (built : types.Built)
    (acyclic : ∀ type, ¬TransGen types.Implements type type)
    (bare : types.interfaces .object = []) (bareArrays : types.HasBareArrays) :
    (∀ type, types.isAssignable type type = true) ∧
      (∀ lower middle upper, types.isAssignable middle lower = true →
        types.isAssignable upper middle = true → types.isAssignable upper lower = true) ∧
      (∀ first second, types.isAssignable first second = true →
        types.isAssignable second first = true → first = second) ∧
      ∀ type, type ≠ .void → types.isAssignable .object type = true := by
  have wf := built.wellFormed
  refine ⟨types.isAssignable_self, fun lower middle upper => ?_, fun first second => ?_,
    fun type => isAssignable_object⟩
  · exact wf.isAssignable_trans acyclic bare bareArrays
  · exact fun downward upward => isAssignable_antisymm (wf.reaches_antisymm acyclic)
      (wf.eq_object_of_reaches bare) upward downward

theorem gauges_isPartialOrder :
    gauges.interfaces .object = [] ∧ gauges.isAssignable (.array device 2) (.array gauge 2) = true ∧
      gauges.isAssignable (.array labelled 2) (.array device 2) = true ∧
      gauges.isAssignable (.array labelled 2) (.array gauge 2) = true := by
  have first : gauges.isAssignable (.array device 2) (.array gauge 2) = true := by decide +kernel
  have second : gauges.isAssignable (.array labelled 2) (.array device 2) = true := by
    decide +kernel
  have ordered := isAssignable_isPartialOrder gauges_built gauges_acyclic rfl fun _ _ => rfl
  exact ⟨rfl, first, second, ordered.2.1 _ _ _ first second⟩

/-- `gauges` where the arrays of devices implement `readable`. -/
def readableArrays : Universe :=
  gauges.amend (.array device 1) fun decl =>
    { decl with interfaces := decl.interfaces ++ [readable] }

/-- An array type does not inherit what the array of its element's base implements. -/
theorem readableArrays_not_transitive :
    readableArrays.Built ∧ (∀ type, ¬TransGen readableArrays.Implements type type) ∧
      readableArrays.interfaces .object = [] ∧
      readableArrays.isAssignable (.array device 1) (.array gauge 1) = true ∧
      readableArrays.isAssignable readable (.array device 1) = true ∧
      readableArrays.isAssignable readable (.array gauge 1) = false := by
  have areInterfaces : ∀ other ∈ [readable], gauges.kind other = .interface := by decide +kernel
  refine ⟨.implement gauges_built areInterfaces, fun type => ?_, by decide +kernel⟩
  exact acyclic_of_rank (fun type => (readableArrays.hierarchy type).length)
    (by decide +kernel) type

end HostScript.Universe
