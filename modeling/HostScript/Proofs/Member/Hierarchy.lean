import HostScript.Proofs.Member.Assignability
import HostScript.Proofs.Member.Overloads

namespace HostScript.Universe

open Relation (ReflTransGen TransGen)
open List

/-!
# The hierarchy of a type

The hierarchy lists the bases of a type and then, in the order of a depth-first walk, the
interfaces that are reached from them, each once.
-/

section

variable {types : Universe} {type start : Ty} {seen starts found : List Ty}

variable (types) in
/-- What a walk from some types finds in addition to the types seen before. -/
structure Walks (seen starts found : List Ty) : Prop where
  grows : seen <+: found
  nodup : seen.Nodup → found.Nodup
  holds : starts ⊆ found
  sound : ∀ type ∈ found, type ∈ seen ∨ ∃ start ∈ starts, ReflTransGen types.Implements start type
  closed : ∀ type ∈ found, type ∉ seen → types.interfaces type ⊆ found

theorem Walks.done (mem : type ∈ seen) : types.Walks seen [type] seen :=
  ⟨prefix_rfl, id, by simpa using mem, fun _ => .inl, fun _ mem fresh =>
    absurd mem fresh⟩

/-- A walk comes to a new type and goes on from the interfaces that it implements. -/
theorem Walks.visit (fresh : type ∉ seen)
    (walks : types.Walks (seen ++ [type]) (types.interfaces type) found) :
    types.Walks seen [type] found where
  grows := (prefix_append _ _).trans walks.grows
  nodup distinct := walks.nodup (by simpa [nodup_append] using
    ⟨distinct, fun _ mem same => fresh (same ▸ mem)⟩)
  holds := by simpa using walks.grows.subset (mem_append_right _ (mem_singleton.mpr rfl))
  sound other mem := by
    rcases walks.sound other mem with old | ⟨_, implemented, chain⟩
    · rcases mem_append.mp old with pre | new
      · exact .inl pre
      · exact .inr ⟨type, mem_singleton.mpr rfl, mem_singleton.mp new ▸ .refl⟩
    · exact .inr ⟨type, mem_singleton.mpr rfl, .head implemented chain⟩
  closed other mem unvisited := by
    by_cases same : other = type
    · exact same ▸ walks.holds
    · exact walks.closed other mem (by simpa using ⟨unvisited, same⟩)

theorem Walks.trans (first : types.Walks seen starts found)
    (second : types.Walks found more further) : types.Walks seen (starts ++ more) further where
  grows := first.grows.trans second.grows
  nodup distinct := second.nodup (first.nodup distinct)
  holds := append_subset.mpr ⟨fun _ mem => second.grows.subset (first.holds mem), second.holds⟩
  sound type mem := by
    rcases second.sound type mem with old | ⟨start, isStart, chain⟩
    · rcases first.sound type old with pre | ⟨start, isStart, chain⟩
      · exact .inl pre
      · exact .inr ⟨start, mem_append_left _ isStart, chain⟩
    · exact .inr ⟨start, mem_append_right _ isStart, chain⟩
  closed type mem unvisited := by
    by_cases early : type ∈ found
    · exact fun _ implemented =>
        second.grows.subset (first.closed type early unvisited implemented)
    · exact second.closed type mem early

theorem walks_foldl (each : ∀ seen type, types.unseen seen ≤ bound → types.kind type = .interface →
      types.Walks seen [type] (walk seen type))
    (areInterfaces : ∀ start ∈ starts, types.kind start = .interface)
    (enough : types.unseen seen ≤ bound) : types.Walks seen starts (starts.foldl walk seen) := by
  induction starts generalizing seen with
  | nil =>
    exact ⟨prefix_rfl, id, nil_subset _, fun _ => .inl, fun _ mem fresh =>
      absurd mem fresh⟩
  | cons start _ ih =>
    have first := each seen start enough (areInterfaces start (.head _))
    exact first.trans (ih (fun other mem => areInterfaces other (.tail _ mem))
      ((unseen_mono first.grows.subset).trans enough))

theorem WellFormed.walks_walkInterface (wf : types.WellFormed) (enough : types.unseen seen ≤ bound)
    (isInterface : types.kind type = .interface) :
    types.Walks seen [type] (types.walkInterface bound seen type) := by
  induction bound generalizing seen type with
  | zero | succ bound ih =>
    unfold walkInterface
    split
    · next mem => exact .done (contains_iff_mem.mp mem)
    · next fresh =>
      have fresh : type ∉ seen := by simpa using fresh
      have shrinks := unseen_lt (entry_of_interface isInterface) fresh
      first
      | omega
      | exact .visit fresh (walks_foldl (fun _ _ => ih) (fun _ => wf.interfaces) (by omega))

/-! ## Hierarchies -/

namespace WellFormed

variable (wf : types.WellFormed)

include wf

/-- A hierarchy is a walk from the bases; that of an interface has `object` at its end. -/
theorem walks_hierarchy (type : Ty) :
    ∃ found, types.Walks (types.ancestors type)
      ((types.ancestors type).flatMap types.interfaces) found ∧ types.hierarchy type =
        if types.kind type = .interface then found ++ [.object] else found := by
  have walks : ∀ {bound seen starts}, types.declarations.length ≤ bound →
      (∀ start ∈ starts, types.kind start = .interface) →
      types.Walks seen starts (starts.foldl (types.walkInterface bound) seen) :=
    fun enough areInterfaces => walks_foldl (fun _ _ => wf.walks_walkInterface)
      areInterfaces ((unseen_le _).trans enough)
  by_cases isInterface : types.kind type = .interface
  · refine ⟨types.walkInterface types.depth [] type, ?_, ?_⟩
    · rw [ancestors_of_root (wf.interfaceBase isInterface), flatMap_singleton]
      exact walks (Nat.le_succ _) fun _ => wf.interfaces
    · rw [hierarchy, if_pos isInterface, if_pos isInterface]
  · refine ⟨types.hierarchy type, ?_, (if_neg isInterface).symm⟩
    rw [hierarchy, if_neg isInterface]
    refine walks (Nat.le_add_right _ 2) fun start mem => ?_
    obtain ⟨_, _, implemented⟩ := mem_flatMap.mp mem
    exact wf.interfaces implemented

theorem interface_of_walk (walks : types.Walks (types.ancestors type)
      ((types.ancestors type).flatMap types.interfaces) found) (mem : other ∈ found)
    (beyond : other ∉ types.ancestors type) : types.kind other = .interface := by
  rcases walks.sound other mem with old | ⟨_, isStart, chain⟩
  · exact absurd old beyond
  · obtain ⟨_, _, implemented⟩ := mem_flatMap.mp isStart
    rcases chain.cases_tail with rfl | ⟨_, _, last⟩
    · exact wf.interfaces implemented
    · exact wf.interfaces last

theorem nodup_hierarchy (type : Ty) : (types.hierarchy type).Nodup := by
  obtain ⟨found, walks, eq⟩ := wf.walks_hierarchy type
  have nodup := walks.nodup (wf.nodup_ancestors type)
  rw [eq]
  split
  · next isInterface =>
    have apart : .object ∉ found := by
      intro mem
      refine Kind.noConfusion (wf.interface_of_walk walks mem fun isAncestor => ?_)
      rw [ancestors_of_root (wf.interfaceBase isInterface), mem_singleton] at isAncestor
      cases isAncestor ▸ isInterface
    exact nodup.append (nodup_singleton _) (by simpa using apart)
  · exact nodup

theorem ancestors_prefix (type : Ty) : types.ancestors type <+: types.hierarchy type := by
  obtain ⟨_, walks, eq⟩ := wf.walks_hierarchy type
  rw [eq]
  split
  · exact walks.grows.trans (prefix_append _ _)
  · exact walks.grows

/-- The interfaces of a hierarchy are those that are reached. -/
theorem mem_hierarchy_iff (isInterface : types.kind upper = .interface) :
    upper ∈ types.hierarchy type ↔ types.Reaches type upper := by
  obtain ⟨found, walks, eq⟩ := wf.walks_hierarchy type
  have members : upper ∈ types.hierarchy type ↔ upper ∈ found := by
    rw [eq]
    split
    · refine ⟨fun mem => ?_, mem_append_left _⟩
      rcases mem_append.mp mem with early | last
      · exact early
      · cases mem_singleton.mp last ▸ isInterface
    · rfl
  have closed : ∀ {lower other}, lower ∈ found → types.Implements lower other → other ∈ found := by
    intro lower other mem implemented
    by_cases isAncestor : lower ∈ types.ancestors type
    · exact walks.holds (mem_flatMap.mpr ⟨lower, isAncestor, implemented⟩)
    · exact walks.closed lower mem isAncestor implemented
  have chained : ∀ {lower other}, lower ∈ found →
      ReflTransGen types.Implements lower other → other ∈ found := by
    intro lower other mem chain
    induction chain with
    | refl => exact mem
    | tail _ step ih => exact closed ih step
  rw [members]
  constructor
  · intro mem
    rcases walks.sound upper mem with isAncestor | ⟨_, isStart, chain⟩
    · exact reaches_of_ancestor isAncestor
    · obtain ⟨ancestor, isAncestor, implemented⟩ := mem_flatMap.mp isStart
      exact ((reaches_of_ancestor isAncestor).tail (.inr implemented)).trans
        (.mono (fun _ _ => .inr) _ _ chain)
  · intro reached
    rcases wf.reaches_cases reached with isAncestor | ⟨_, ancestor, isAncestor, chain⟩
    · exact walks.grows.subset isAncestor
    · exact chained (walks.grows.subset isAncestor) chain.to_reflTransGen

end WellFormed

/-! ## Methods -/

variable {after : List Method}

/-- A declared method is found unless an earlier one has the same parameters. -/
theorem exists_offered :
    ∃ offered ∈ (pre ++ meth :: after).foldl addUnhidden [], offered.params = meth.params ∧
      (offered = meth ∨ offered ∈ pre) := by
  have found := find?_foldl_addUnhidden (pre ++ meth :: after) [] meth.params
  rw [nil_append, find?_append] at found
  cases early : pre.find? (·.params == meth.params) with
  | some offered =>
    have same := find?_some early
    rw [early] at found
    exact ⟨offered, mem_of_find?_eq_some found, eq_of_beq same, .inr (mem_of_find?_eq_some early)⟩
  | none =>
    have same : (meth.params == meth.params) := beq_iff_eq.mpr rfl
    rw [early, Option.none_or, find?_cons, same] at found
    exact ⟨meth, mem_of_find?_eq_some found, rfl, .inl rfl⟩

theorem exists_offered_method (split : types.hierarchy type = nearer ++ level :: farther)
    (own : (types.declaration level).methods = pre ++ meth :: after)
    (isInstance : meth.isStatic = false) :
    ∃ offered ∈ types.methods type meth.name false, offered.params = meth.params ∧
      (offered = meth ∨ offered ∈ pre ∨
        ∃ above ∈ nearer, offered ∈ (types.declaration above).methods) := by
  have kept : (meth.name == meth.name && meth.isStatic == false) := by
    simp [isInstance]
  unfold methods
  rw [split, flatMap_append, flatMap_cons, own, filter_append,
    filter_cons, if_pos kept, append_assoc, cons_append, ← append_assoc]
  obtain ⟨offered, mem, same, first | early⟩ := exists_offered
  · exact ⟨offered, mem, same, .inl first⟩
  · refine ⟨offered, mem, same, .inr ?_⟩
    rcases mem_append.mp early with above | within
    · obtain ⟨nearby, isNearer, kept⟩ := mem_flatMap.mp above
      exact .inr ⟨nearby, isNearer, mem_of_mem_filter kept⟩
    · exact .inl (mem_of_mem_filter within)

end

/-- A hierarchy holds no type twice, starts with its type and lists the bases before the
interfaces. Where no interface extends itself, it holds those that the type implements, and their
methods are offered unless a nearer declaration has the same parameters. -/
theorem hierarchy_lists {types : Universe} (built : types.Built) (type : Ty) :
    (types.hierarchy type).Nodup ∧ (∃ rest, types.hierarchy type = type :: rest) ∧
      (types.kind type ≠ .interface → ∃ bases interfaces,
        types.hierarchy type = bases ++ interfaces ∧
        (∀ base, base ∈ bases ↔
          ReflTransGen (fun lower upper => types.base lower = some upper) type base) ∧
        ∀ interface ∈ interfaces, types.kind interface = .interface) ∧
      ((∀ lower, ¬TransGen types.Implements lower lower) → ∀ interface,
        types.kind interface = .interface →
        (interface ∈ types.hierarchy type ↔ types.implements type interface = true) ∧
        (types.isAssignable interface type = true → ∃ nearer farther,
          types.hierarchy type = nearer ++ interface :: farther ∧
          ∀ before method after,
            (types.declaration interface).methods = before ++ method :: after →
            method.isStatic = false →
            ∃ offered ∈ types.methods type method.name false, offered.params = method.params ∧
              (offered = method ∨ offered ∈ before ∨
                ∃ above ∈ nearer, offered ∈ (types.declaration above).methods))) := by
  have wf := built.wellFormed
  refine ⟨wf.nodup_hierarchy type, ?_, fun notInterface => ?_,
    fun acyclic interface isInterface => ?_⟩
  · obtain ⟨above, split⟩ := wf.ancestors_eq_cons type
    obtain ⟨rest, eq⟩ := wf.ancestors_prefix type
    exact ⟨above ++ rest, by rw [← eq, split, List.cons_append]⟩
  · obtain ⟨_, walks, eq⟩ := wf.walks_hierarchy type
    obtain ⟨rest, rfl⟩ := walks.grows
    refine ⟨_, rest, eq.trans (if_neg notInterface), fun _ => wf.mem_ancestors_iff, ?_⟩
    intro interface mem
    have distinct := walks.nodup (wf.nodup_ancestors type)
    refine wf.interface_of_walk walks (List.mem_append_right _ mem) fun again => ?_
    exact List.disjoint_of_nodup_append distinct again mem
  · have listed : interface ∈ types.hierarchy type ↔ _ := wf.mem_hierarchy_iff isInterface
    refine ⟨listed.trans (wf.implements_iff acyclic).symm, fun assignable => ?_⟩
    have mem := listed.mpr (wf.reaches_of_interface acyclic isInterface assignable)
    obtain ⟨nearer, farther, split⟩ := List.append_of_mem mem
    exact ⟨nearer, farther, split, fun before method after => exists_offered_method split⟩

theorem gauge_offers_label :
    gauges.hierarchy gauge = [gauge, device, .object, readable, labelled] ∧
      (gauges.hierarchy gauge).Nodup ∧ gauges.implements gauge labelled = true ∧
      ∃ offered ∈ gauges.methods gauge label.name false, offered.params = label.params := by
  have isInterface : gauges.kind labelled = .interface := by decide +kernel
  have taken : gauges.isAssignable labelled gauge = true := by decide +kernel
  have order : gauges.hierarchy gauge = [gauge, device, .object, readable, labelled] := by
    decide +kernel
  obtain ⟨nodup, _, _, interfaces⟩ := hierarchy_lists gauges_built gauge
  obtain ⟨listed, offers⟩ := interfaces gauges_acyclic labelled isInterface
  obtain ⟨_, _, _, offers⟩ := offers taken
  obtain ⟨offered, found, same, _⟩ := offers [] label [] (by decide +kernel) rfl
  exact ⟨order, nodup, listed.mp (order ▸ by decide +kernel), offered, found, same⟩

end HostScript.Universe
