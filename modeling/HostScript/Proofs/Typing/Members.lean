import HostScript.Proofs.Typing.Basic

namespace HostScript

open Typed (Rules)
open List

/-!
# Members that are found

Whatever a search through a hierarchy finds was declared by some type.
-/

/-- All members that the types declare obey the rules. -/
structure Universe.Obeys (types : Universe) (rules : Rules) : Prop where
  field : ∀ type, ∀ field ∈ (types.declaration type).fields, rules.field field
  property : ∀ type, ∀ property ∈ (types.declaration type).properties, rules.property property
  method : ∀ type, ∀ method ∈ (types.declaration type).methods, rules.method method
  indexer : ∀ type indexer, (types.declaration type).indexer = some indexer → rules.property indexer

namespace Universe

variable {tys : Universe} {rules : Rules}

variable {type : Ty} {name : Text} {isStatic : Bool} {member : DataMember}

theorem ownDataMembers_obey (obeys : tys.Obeys rules)
    (found : member ∈ tys.ownDataMembers type name isStatic) :
    rules.Member member ∧ member.isStatic = isStatic := by
  rcases mem_append.mp found with inFields | inProperties
  · obtain ⟨field, kept, rfl⟩ := mem_map.mp inFields
    obtain ⟨decl, test⟩ := mem_filter.mp kept
    simp only [Bool.and_eq_true, beq_iff_eq] at test
    exact ⟨obeys.field type field decl, test.2⟩
  · obtain ⟨prop, kept, rfl⟩ := mem_map.mp inProperties
    obtain ⟨decl, test⟩ := mem_filter.mp kept
    simp only [Bool.and_eq_true, beq_iff_eq, List.isEmpty_iff] at test
    exact ⟨⟨obeys.property type prop decl, test.2⟩, test.1.2⟩

theorem dataMembers_obey (obeys : tys.Obeys rules)
    (found : member ∈ tys.dataMembers type name isStatic) :
    rules.Member member ∧ member.isStatic = isStatic := by
  unfold dataMembers at found
  cases level : List.find? (fun found => !found.isEmpty)
      ((tys.hierarchy type).map fun level => tys.ownDataMembers level name isStatic) with
  | none => simp [level] at found
  | some _ =>
    obtain ⟨_, _, rfl⟩ := mem_map.mp (mem_of_find?_eq_some level)
    rw [level] at found
    exact ownDataMembers_obey obeys found

theorem isAssignable_self (tys : Universe) (type : Ty) : tys.isAssignable type type := by
  rw [isAssignable.eq_def]
  simp

variable {meth : Method}

theorem mem_foldl_addUnhidden {decl collected : List Method}
    (found : meth ∈ decl.foldl addUnhidden collected) : meth ∈ collected ∨ meth ∈ decl := by
  induction decl generalizing collected with
  | nil => exact .inl found
  | cons _ _ ih =>
    rcases ih found with prev | later
    · unfold addUnhidden at prev
      split at prev
      · exact .inl prev
      · rcases mem_append.mp prev with old | new
        · exact .inl old
        · exact .inr (mem_cons.mpr (.inl (mem_singleton.mp new)))
    · exact .inr (mem_cons_of_mem _ later)

theorem methods_obey (obeys : tys.Obeys rules) (found : meth ∈ tys.methods type name isStatic) :
    rules.method meth ∧ meth.isStatic = isStatic := by
  rcases mem_foldl_addUnhidden found with none | decl
  · exact nomatch none
  · obtain ⟨level, _, kept⟩ := mem_flatMap.mp decl
    obtain ⟨member, test⟩ := mem_filter.mp kept
    simp only [Bool.and_eq_true, beq_iff_eq] at test
    exact ⟨obeys.method level meth member, test.2⟩

theorem obeys_nothing : tys.Obeys ⟨fun _ => True, fun _ => True, fun _ => True, fun _ => True⟩ :=
  ⟨fun _ _ _ => trivial, fun _ _ _ => trivial, fun _ _ _ => trivial, fun _ _ _ => trivial⟩

theorem isStatic_of_methods (found : meth ∈ tys.methods type name isStatic) :
    meth.isStatic = isStatic :=
  (methods_obey obeys_nothing found).2

theorem indexer?_obeys (obeys : tys.Obeys rules) {indexer}
    (found : tys.indexer? type = some indexer) : rules.property indexer := by
  obtain ⟨level, _, decl⟩ := exists_of_findSome?_eq_some found
  exact obeys.indexer level indexer decl

/-- The chosen method is a candidate that matches the types exactly, or loosely. -/
theorem select_cases {candidates args} (selected : tys.select candidates args = .ok meth) :
    meth ∈ candidates ∧ (matchesExactly meth args ∨ tys.matchesLoosely meth args) := by
  unfold select at selected
  split at selected
  · next found =>
    cases selected
    exact ⟨mem_of_find?_eq_some found, .inl (by simpa using find?_some found)⟩
  · split at selected <;> cases selected
    next only =>
    obtain ⟨member, test⟩ := mem_filter.mp (only ▸ mem_singleton_self meth)
    exact ⟨member, .inr test⟩

theorem select_eq_ok (selected : tys.select candidates args = .ok meth) :
    meth ∈ candidates ∧ meth.params.length = args.length := by
  obtain ⟨member, agrees | test⟩ := select_cases selected
  · simp only [matchesExactly, beq_iff_eq] at agrees
    exact ⟨member, by rw [← agrees, length_map]⟩
  · simp only [matchesLoosely, Bool.and_eq_true, beq_iff_eq] at test
    exact ⟨member, test.1⟩

end Universe

end HostScript
