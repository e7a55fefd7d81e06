import Mathlib
import HostScript.Member.Universe

namespace HostScript.Universe

open Relation (ReflTransGen TransGen)
open List

/-!
# Type graphs

A type graph grows from the predeclared types.
-/

/-- The chain of bases above a type has at most so many links. -/
inductive Rooted (types : Universe) : Nat → Ty → Prop
  | root {count type} (isRoot : types.base type = none) : Rooted types count type
  | link {count type parent} (isBase : types.base type = some parent)
      (above : Rooted types count parent) : Rooted types (count + 1) type

/-- Classes and `object` can be bases. -/
def IsBase (types : Universe) (type : Ty) : Prop :=
  types.declarations.lookup type ≠ none ∧
    (type = .object ∨ ∃ name, type = .named name ∧ types.kind type = .classKind)

/--
Graphs that are built: from the predeclared types by new classes and interfaces, by having a
type implement interfaces and by adding members.
-/
inductive Built : Universe → Prop
  | predeclared : Built predeclared
  | newClass {types} (built : Built types) {name}
      (fresh : types.declarations.lookup (.named name) = none)
      {parent} (isBase : types.IsBase parent) :
      Built (types.declare (.named name) { base := some parent })
  | newInterface {types} (built : Built types) {name}
      (fresh : types.declarations.lookup (.named name) = none)
      {extended} (areInterfaces : ∀ other ∈ extended, types.kind other = .interface) :
      Built (types.declare (.named name) ⟨true, none, extended, [], [], [], none⟩)
  | implement {types} (built : Built types) {type}
      {added} (areInterfaces : ∀ other ∈ added, types.kind other = .interface) :
      Built (types.amend type fun decl =>
        { decl with interfaces := decl.interfaces ++ added })
  | addMembers {types} (built : Built types) (type : Ty) {change}
      (keeps : ∀ decl, (change decl).isInterface = decl.isInterface ∧
        (change decl).base = decl.base ∧
        (change decl).interfaces = decl.interfaces) :
      Built (types.amend type change)

/-- What holds of every graph that is built. -/
structure WellFormed (types : Universe) : Prop where
  rooted : ∀ type, types.Rooted (types.declarations.length + 1) type
  isBase : ∀ {type parent}, types.base type = some parent → types.IsBase parent
  interfaceBase : ∀ {type}, types.kind type = .interface → types.base type = none
  objectBase : types.base .object = none
  interfaces : ∀ {type other}, other ∈ types.interfaces type → types.kind other = .interface
  arrayBase : ∀ element rank, types.base (.array element rank) = some .object

section

variable {types : Universe} {type other : Ty}

theorem declaration_declare (types : Universe) (changed : Ty) (decl : TypeDecl) (type : Ty) :
    (types.declare changed decl).declaration type =
      if type = changed then decl else types.declaration type := by
  unfold declare declaration
  by_cases same : type = changed
  · simp [same, List.lookup]
  · simp [same, List.lookup, beq_eq_false_iff_ne.mpr same]

/-- A type that is not declared implements nothing and has `object` as its base. -/
theorem declaration_cases (types : Universe) (type : Ty) :
    (type, types.declaration type) ∈ types.declarations ∨ types.declaration type =
      { base := if type = .void ∨ type = .object then none else some .object } := by
  cases found : types.declarations.lookup type with
  | some decl =>
    obtain ⟨_, _, split, _⟩ := lookup_eq_some_iff.mp found
    have same : types.declaration type = decl := by simp only [declaration, found]
    rw [same, split]
    exact .inl (by simp)
  | none =>
    refine .inr ?_
    unfold declaration
    rw [found]
    cases type <;> rfl

theorem kind_eq_interface_iff :
    types.kind type = .interface ↔
      (∃ name, type = .named name) ∧ (types.declaration type).isInterface := by
  cases type <;> simp [kind]

theorem lookup_of_interface (isInterface : types.kind type = .interface) :
    types.declarations.lookup type ≠ none := by
  obtain ⟨⟨_, rfl⟩, isInterface⟩ := kind_eq_interface_iff.mp isInterface
  intro missing
  simp [declaration, missing] at isInterface

/-- Declaring a type that is new, or again with the same base, keeps a graph well-formed. -/
theorem WellFormed.declare (wf : types.WellFormed) {decl}
    (kept : ((∃ name, changed = .named name) ∧ types.declarations.lookup changed = none) ∨
      decl.isInterface = (types.declaration changed).isInterface ∧ decl.base = types.base changed)
    (isBase : ∀ {parent}, decl.base = some parent → types.IsBase parent)
    (interfaceBase : (∃ name, changed = .named name) → decl.isInterface → decl.base = none)
    (interfaces : ∀ other ∈ decl.interfaces, types.kind other = .interface) :
    (types.declare changed decl).WellFormed := by
  generalize grows : types.declare changed decl = grown
  have length : grown.declarations.length = types.declarations.length + 1 := by
    rw [← grows]
    rfl
  have found : ∀ type, grown.declaration type =
      if type = changed then decl else types.declaration type :=
    grows ▸ types.declaration_declare changed decl
  have same : ∀ {type}, types.declarations.lookup type ≠ none →
      (grown.declaration type).isInterface = (types.declaration type).isInterface ∧
        grown.base type = types.base type := by
    intro type isDeclared
    rw [base, found]
    split
    · next equal =>
      rcases kept with ⟨_, fresh⟩ | kept
      · exact absurd (equal ▸ fresh) isDeclared
      · exact equal ▸ kept
    · exact ⟨rfl, rfl⟩
  have kinds : ∀ {type}, types.declarations.lookup type ≠ none →
      grown.kind type = types.kind type := by
    intro type isDeclared
    cases type with
    | named => simp only [kind, (same isDeclared).1]
    | void | prim | string | object | array => rfl
  have bases : ∀ {type}, types.IsBase type → grown.IsBase type := by
    rintro type ⟨isDeclared, _⟩
    refine ⟨?_, by rwa [kinds isDeclared]⟩
    rw [← grows, Universe.declare, lookup_cons]
    split
    · exact Option.some_ne_none _
    · exact isDeclared
  have parents : ∀ {type parent}, grown.base type = some parent → types.IsBase parent := by
    intro type parent
    rw [base, found]
    split
    · exact isBase
    · exact wf.isBase
  have roots : ∀ {count type}, types.IsBase type → types.Rooted count type →
      grown.Rooted count type := by
    intro count type known rooted
    induction rooted with
    | root isRoot => exact .root ((same known.1).2.trans isRoot)
    | link above _ ih => exact .link ((same known.1).2.trans above) (ih (wf.isBase above))
  refine ⟨fun type => ?_, fun above => bases (parents above), fun {type} isInterface => ?_, ?_,
    fun {type other} mem => ?_, fun elem rank => ?_⟩
  · cases above : grown.base type with
    | none => exact .root above
    | some parent =>
      rw [length]
      exact .link above (roots (parents above) (wf.rooted parent))
  · rw [kind_eq_interface_iff, found] at isInterface
    rw [base, found]
    split <;> rename_i equal
    · rw [if_pos equal] at isInterface
      exact interfaceBase (equal ▸ isInterface.1) isInterface.2
    · rw [if_neg equal] at isInterface
      exact wf.interfaceBase (kind_eq_interface_iff.mpr isInterface)
  · rw [base, found]
    split
    · next equal =>
      rcases kept with ⟨⟨name, isNamed⟩, _⟩ | ⟨_, kept⟩
      · cases equal.trans isNamed
      · rw [kept, ← equal, wf.objectBase]
    · exact wf.objectBase
  · have isInterface : types.kind other = .interface := by
      rw [Universe.interfaces, found] at mem
      split at mem
      · exact interfaces other mem
      · exact wf.interfaces mem
    rwa [kinds (lookup_of_interface isInterface)]
  · rw [base, found]
    split
    · next equal =>
      rcases kept with ⟨⟨name, isNamed⟩, _⟩ | ⟨_, kept⟩
      · cases equal.trans isNamed
      · rw [kept, ← equal, wf.arrayBase]
    · exact wf.arrayBase elem rank

theorem predeclared_wellFormed : predeclared.WellFormed := by
  have entries : ∀ entry ∈ predeclared.declarations,
      (entry.2.base = none ∨ entry.2.base = some .object) ∧
        (entry.2.isInterface → entry.2.base = none) ∧
        (∀ other ∈ entry.2.interfaces, other = .comparable) ∧ entry.1.isArray = false := by
    decide +kernel
  have bases : ∀ {type parent}, predeclared.base type = some parent → parent = .object := by
    intro type parent above
    rcases predeclared.declaration_cases type with isEntry | isDefault
    · rcases (entries _ isEntry).1 with none | object
      · cases none.symm.trans above
      · exact Option.some.inj (above.symm.trans object)
    · rw [base, isDefault] at above
      split at above
      · cases above
      · exact (Option.some.inj above).symm
  refine ⟨fun type => ?_, fun {type parent} above => ?_, fun {type} kind => ?_, rfl,
    fun {type other} mem => ?_, fun elem rank => ?_⟩
  · cases above : predeclared.base type with
    | none => exact .root above
    | some parent =>
      obtain rfl := bases above
      exact .link above (.root rfl)
  · obtain rfl := bases above
    exact ⟨nofun, .inl rfl⟩
  · obtain ⟨_, isInterface⟩ := kind_eq_interface_iff.mp kind
    rcases predeclared.declaration_cases type with isEntry | isDefault
    · exact (entries _ isEntry).2.1 isInterface
    · rw [isDefault] at isInterface
      cases isInterface
  · rcases predeclared.declaration_cases type with isEntry | isDefault
    · rw [(entries _ isEntry).2.2.1 other mem]
      decide +kernel
    · rw [interfaces, isDefault] at mem
      cases mem
  · rcases predeclared.declaration_cases (.array elem rank) with isEntry | isDefault
    · cases (entries _ isEntry).2.2.2
    · rw [base, isDefault]
      rfl

theorem WellFormed.amend (wf : types.WellFormed)
    (keeps : ∀ decl, (change decl).isInterface = decl.isInterface ∧ (change decl).base = decl.base)
    (interfaces : ∀ other ∈ (change (types.declaration type)).interfaces,
      types.kind other = .interface) : (types.amend type change).WellFormed := by
  obtain ⟨isInterface, isBase⟩ := keeps (types.declaration type)
  refine wf.declare (.inr ⟨isInterface, isBase⟩) (fun above => ?_) (fun named marked => ?_)
    interfaces
  · exact wf.isBase (isBase.symm.trans above)
  · exact isBase.trans (wf.interfaceBase
      (kind_eq_interface_iff.mpr ⟨named, isInterface.symm.trans marked⟩))

theorem Built.wellFormed (built : types.Built) : types.WellFormed := by
  induction built with
  | predeclared => exact predeclared_wellFormed
  | newClass _ fresh isBase ih =>
    exact ih.declare (.inl ⟨⟨_, rfl⟩, fresh⟩) (fun same => Option.some.inj same ▸ isBase)
      nofun nofun
  | newInterface _ fresh areInterfaces ih =>
    exact ih.declare (.inl ⟨⟨_, rfl⟩, fresh⟩) nofun (fun _ _ => rfl) areInterfaces
  | implement _ areInterfaces ih =>
    refine ih.amend (fun _ => ⟨rfl, rfl⟩) fun other mem => ?_
    rcases mem_append.mp mem with old | new
    · exact ih.interfaces old
    · exact areInterfaces other new
  | addMembers _ type keeps ih =>
    refine ih.amend (fun decl => ⟨(keeps decl).1, (keeps decl).2.1⟩) fun other mem => ?_
    exact ih.interfaces ((keeps _).2.2 ▸ mem)

/-! ## Bases -/

theorem Rooted.ancestors_eq {count bound} (rooted : types.Rooted count type)
    (enough : count ≤ bound) :
    types.ancestorsWithin bound type = types.ancestorsWithin (bound + 1) type := by
  induction rooted generalizing bound with
  | root isRoot => cases bound <;> simp only [ancestorsWithin, isRoot]
  | link isBase _ ih =>
    obtain _ | fewer := bound
    · omega
    rw [ancestorsWithin, ancestorsWithin]
    simp only [isBase, ih (show _ ≤ fewer by omega)]

theorem ancestors_of_root (isRoot : types.base type = none) : types.ancestors type = [type] := by
  simp only [ancestors, depth, ancestorsWithin, isRoot]

variable (types) in
/-- The types that are declared to be above a type. -/
def Implements (lower upper : Ty) : Prop :=
  upper ∈ types.interfaces lower

variable (types) in
def Parent (lower upper : Ty) : Prop :=
  types.base lower = some upper ∨ types.Implements lower upper

variable (types) in
abbrev Reaches : Ty → Ty → Prop :=
  ReflTransGen types.Parent

variable (types) in
/-- How many declared types are not among those seen. -/
def unseen (seen : List Ty) : Nat :=
  ((types.declarations.map Prod.fst).toFinset \ seen.toFinset).card

section

variable {seen : List Ty}

theorem unseen_mono (grows : seen ⊆ found) : types.unseen found ≤ types.unseen seen :=
  Finset.card_le_card (Finset.sdiff_subset_sdiff (Finset.Subset.refl _)
    fun _ mem => mem_toFinset.mpr (grows (mem_toFinset.mp mem)))

theorem unseen_lt (isEntry : (type, types.declaration type) ∈ types.declarations)
    (fresh : type ∉ seen) : types.unseen (seen ++ [type]) < types.unseen seen := by
  have decl : type ∈ types.declarations.map Prod.fst := mem_map.mpr ⟨_, isEntry, rfl⟩
  refine Finset.card_lt_card ⟨Finset.sdiff_subset_sdiff (Finset.Subset.refl _) ?_, fun same => ?_⟩
  · exact fun _ _ => by simp_all
  · have kept := same (Finset.mem_sdiff.mpr ⟨mem_toFinset.mpr decl, by simpa using fresh⟩)
    simp at kept

theorem unseen_le (seen : List Ty) : types.unseen seen ≤ types.declarations.length :=
  calc types.unseen seen ≤ (types.declarations.map Prod.fst).toFinset.card :=
        Finset.card_le_card Finset.sdiff_subset
    _ ≤ (types.declarations.map Prod.fst).length := toFinset_card_le _
    _ = types.declarations.length := length_map _

end

theorem entry_of_implements (implemented : types.Implements type other) :
    (type, types.declaration type) ∈ types.declarations := by
  rcases types.declaration_cases type with isEntry | isDefault
  · exact isEntry
  · rw [Implements, interfaces, isDefault] at implemented
    cases implemented

theorem entry_of_interface (isInterface : types.kind type = .interface) :
    (type, types.declaration type) ∈ types.declarations := by
  rcases types.declaration_cases type with isEntry | isDefault
  · exact isEntry
  · have isInterface := (kind_eq_interface_iff.mp isInterface).2
    rw [isDefault] at isInterface
    cases isInterface

section

variable {upper : Ty}

theorem chain_of_ancestor (above : upper ∈ types.ancestors type) :
    ReflTransGen (fun lower upper => types.base lower = some upper) type upper := by
  unfold ancestors at above
  generalize types.depth = bound at above
  induction bound generalizing type with
  | zero => exact mem_singleton.mp above ▸ .refl
  | succ bound ih =>
    unfold ancestorsWithin at above
    split at above
    · next isBase =>
      rcases mem_cons.mp above with rfl | beyond
      · exact .refl
      · exact .head isBase (ih beyond)
    · exact mem_singleton.mp above ▸ .refl

theorem reaches_of_ancestor (above : upper ∈ types.ancestors type) : types.Reaches type upper :=
  ReflTransGen.mono (fun _ _ => .inl) _ _ (chain_of_ancestor above)

theorem reaches_of_implementsWithin (found : types.implementsWithin bound type upper) :
    types.Reaches type upper := by
  induction bound generalizing type with
  | zero => exact eq_of_beq found ▸ .refl
  | succ bound ih =>
    obtain ⟨_, above, found⟩ := any_eq_true.mp found
    have climbs := reaches_of_ancestor above
    rcases Bool.or_eq_true_iff.mp found with same | more
    · exact eq_of_beq same ▸ climbs
    · obtain ⟨_, mem, found⟩ := any_eq_true.mp more
      exact (climbs.tail (.inr mem)).trans (ih found)

end

namespace WellFormed

variable (wf : types.WellFormed) {parent upper : Ty}

include wf

theorem ancestors_of_base (isBase : types.base type = some parent) :
    types.ancestors type = type :: types.ancestors parent := by
  have stable := (wf.rooted parent).ancestors_eq (Nat.le_refl _)
  rw [ancestors, ancestors, depth, ancestorsWithin]
  simp only [isBase, stable]

/-- What holds of a type if it holds of its base holds of every type. -/
theorem base_induction {holds : Ty → Prop} (type : Ty)
    (root : ∀ type, types.base type = none → holds type)
    (link : ∀ type parent, types.base type = some parent → holds parent → holds type) :
    holds type := by
  have rooted := wf.rooted type
  generalize types.declarations.length + 1 = count at rooted
  induction rooted with
  | root isRoot => exact root _ isRoot
  | link isBase _ ih => exact link _ _ isBase ih

theorem ancestors_eq_cons (type : Ty) : ∃ above, types.ancestors type = type :: above := by
  cases isBase : types.base type with
  | none => exact ⟨_, ancestors_of_root isBase⟩
  | some _ => exact ⟨_, wf.ancestors_of_base isBase⟩

theorem self_mem_ancestors (type : Ty) : type ∈ types.ancestors type := by
  obtain ⟨_, split⟩ := wf.ancestors_eq_cons type
  exact split ▸ .head _

theorem mem_ancestors_iff :
    upper ∈ types.ancestors type ↔
      ReflTransGen (fun lower upper => types.base lower = some upper) type upper := by
  refine ⟨chain_of_ancestor, fun chain => ?_⟩
  induction chain using ReflTransGen.head_induction_on with
  | refl => exact wf.self_mem_ancestors _
  | head isBase _ ih =>
    rw [wf.ancestors_of_base isBase]
    exact .tail _ ih

theorem ancestors_suffix (above : upper ∈ types.ancestors type) :
    types.ancestors upper <:+ types.ancestors type := by
  induction wf.mem_ancestors_iff.mp above using ReflTransGen.head_induction_on with
  | refl => exact suffix_rfl
  | head isBase chain ih =>
    rw [wf.ancestors_of_base isBase]
    exact (ih (wf.mem_ancestors_iff.mpr chain)).trans (suffix_cons _ _)

theorem nodup_ancestors (type : Ty) : (types.ancestors type).Nodup := by
  induction type using wf.base_induction with
  | root type isRoot => simp [ancestors_of_root isRoot]
  | link type _ isBase ih =>
    have split := wf.ancestors_of_base isBase
    rw [split]
    refine nodup_cons.mpr ⟨fun again => ?_, ih⟩
    have shorter := (wf.ancestors_suffix again).length_le
    rw [split, length_cons] at shorter
    omega

/-! ## Interfaces -/

/-- Above a type stand its bases and then the interfaces that they implement. -/
theorem reaches_cases (reached : types.Reaches type upper) :
    upper ∈ types.ancestors type ∨ (types.kind upper = .interface ∧
      ∃ ancestor ∈ types.ancestors type, TransGen types.Implements ancestor upper) := by
  induction reached with
  | refl => exact .inl (wf.self_mem_ancestors _)
  | tail _ step ih =>
    rcases ih with above | ⟨isInterface, ancestor, above, chain⟩ <;>
      rcases step with isBase | implemented
    · exact .inl (wf.mem_ancestors_iff.mpr ((wf.mem_ancestors_iff.mp above).tail isBase))
    · exact .inr ⟨wf.interfaces implemented, _, above, .single implemented⟩
    · cases (wf.interfaceBase isInterface).symm.trans isBase
    · exact .inr ⟨wf.interfaces implemented, ancestor, above, chain.tail implemented⟩

variable (acyclic : ∀ type, ¬TransGen types.Implements type type)

include acyclic

omit wf in
theorem unseen_lt_of_implements (below : ∀ lower ∈ seen, TransGen types.Implements lower type)
    (step : types.Implements type other) : types.unseen (seen ++ [type]) < types.unseen seen :=
  unseen_lt (entry_of_implements step) fun again => acyclic type (below type again)

/-- A chain of interfaces ends before it has seen every declaration. -/
theorem implementsWithin_of_chain (below : ∀ lower ∈ seen, TransGen types.Implements lower type)
    (enough : types.unseen seen ≤ bound) (chain : ReflTransGen types.Implements type upper) :
    types.implementsWithin bound type upper := by
  induction bound generalizing type seen with
  | zero =>
    rcases chain.cases_head with rfl | ⟨next, step, _⟩
    · exact beq_self_eq_true _
    · have shrinks := unseen_lt_of_implements acyclic below step
      omega
  | succ bound ih =>
    refine any_eq_true.mpr ⟨type, wf.self_mem_ancestors _, Bool.or_eq_true_iff.mpr ?_⟩
    rcases chain.cases_head with rfl | ⟨next, step, rest⟩
    · exact .inl (beq_self_eq_true _)
    · have more : ∀ lower ∈ seen ++ [type], TransGen types.Implements lower next := by
        intro lower mem
        rcases mem_append.mp mem with old | new
        · exact (below lower old).tail step
        · exact mem_singleton.mp new ▸ .single step
      have shrinks := unseen_lt_of_implements acyclic below step
      exact .inr (any_eq_true.mpr ⟨next, step, ih more (by omega) rest⟩)

/-- The bounded search answers whether an interface stands above a type. -/
theorem implements_iff : types.implements type upper ↔ types.Reaches type upper := by
  refine ⟨reaches_of_implementsWithin, fun reached => any_eq_true.mpr ?_⟩
  rcases wf.reaches_cases reached with above | ⟨_, ancestor, above, chain⟩
  · exact ⟨upper, above, by simp⟩
  · obtain ⟨next, step, rest⟩ := TransGen.head'_iff.mp chain
    have enough : types.unseen [] ≤ types.declarations.length + 1 :=
      (unseen_le _).trans (Nat.le_succ _)
    have found := wf.implementsWithin_of_chain acyclic (by simp) enough rest
    exact ⟨ancestor, above, Bool.or_eq_true_iff.mpr (.inr (any_eq_true.mpr ⟨next, step, found⟩))⟩

end WellFormed

theorem acyclic_of_rank (rank : Ty → Nat) (descends : ∀ entry ∈ types.declarations,
      ∀ upper ∈ entry.2.interfaces, rank upper < rank entry.1) (type : Ty) :
    ¬TransGen types.Implements type type := by
  have falls : ∀ {lower upper}, TransGen types.Implements lower upper →
      rank upper < rank lower := by
    intro lower upper chain
    induction chain with
    | single step => exact descends _ (entry_of_implements step) _ step
    | tail _ step ih => exact (descends _ (entry_of_implements step) _ step).trans ih
  exact fun cycle => Nat.lt_irrefl _ (falls cycle)

end

/-! A gauge is a device, and what can be read, as a device can, has a label. -/

def labelled : Ty := .named ⟨3, "ILabelled"⟩

def readable : Ty := .named ⟨4, "IReadable"⟩

def device : Ty := .named ⟨5, "Device"⟩

def gauge : Ty := .named ⟨6, "Gauge"⟩

def label : Method := { name := "Label", result := some .string, routine := .host "label" }

def gauges : Universe :=
  predeclared.declare labelled ⟨true, none, [], [], [], [], none⟩
    |>.declare readable ⟨true, none, [labelled], [], [], [], none⟩
    |>.declare device { base := some .object }
    |>.declare gauge { base := some device }
    |>.amend device (fun decl =>
      { decl with interfaces := decl.interfaces ++ [readable] })
    |>.amend labelled fun decl => { decl with methods := [label] }

theorem gauges_built : gauges.Built := by
  refine .addMembers (.implement (.newClass (.newClass (.newInterface (.newInterface
    .predeclared ?_ ?_) ?_ ?_) ?_ ⟨?_, .inl rfl⟩) ?_ ⟨?_, .inr ⟨_, rfl, ?_⟩⟩) ?_)
    labelled fun _ => ⟨rfl, rfl, rfl⟩
  all_goals decide +kernel

theorem gauges_acyclic (type : Ty) : ¬TransGen gauges.Implements type type :=
  acyclic_of_rank (fun type => (gauges.hierarchy type).length) (by decide +kernel) type

end HostScript.Universe
