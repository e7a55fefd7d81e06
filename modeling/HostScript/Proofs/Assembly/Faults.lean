import HostScript.Proofs.Assembly.Parts

namespace HostScript

open List

/-!
# When directives make a program

Assembly keeps the first fault and goes on, so whether there is a program shows only in the end.
-/

/-- The entries of a list without those that count as the same as an earlier one. -/
def firstUses (same : α → α → Bool) (uses : List α) : List α :=
  uses.foldl (fun seen use => if seen.any (same use) then seen else seen ++ [use]) []

theorem firstUses_concat (same : α → α → Bool) (uses : List α) (last : α) :
    firstUses same (uses ++ [last]) =
      if (firstUses same uses).any (same last) then firstUses same uses
      else firstUses same uses ++ [last] := by
  unfold firstUses
  rw [foldl_append]
  rfl

theorem firstUses_pairwise (same : α → α → Bool) (uses : List α) :
    (firstUses same uses).Pairwise fun prev later => same later prev = false := by
  induction uses using List.reverseRecOn with
  | nil => exact .nil
  | append_singleton uses _ ih =>
    rw [firstUses_concat]
    split
    · exact ih
    · next isNew =>
      refine pairwise_append.mpr ⟨ih, pairwise_singleton _ _, ?_⟩
      intro prev mem later isLast
      cases mem_singleton.mp isLast
      have other := any_eq_false.mp (Bool.eq_false_iff.mpr isNew) prev mem
      simpa using other

variable {label : Nat}

namespace Directive

def constant? : Directive → Option Value
  | .constant .null => none
  | .constant value => some value
  | _ => none

def type? : Directive → Option Ty
  | .type _ operand => some operand
  | _ => none

def field? : Directive → Option Field
  | .field _ operand => some operand
  | _ => none

def property? : Directive → Option Property
  | .property _ operand => some operand
  | _ => none

def method? : Directive → Option Method
  | .method _ operand => some operand
  | _ => none

def name? : Directive → Option Text
  | .name _ operand => some operand
  | _ => none

/-- A pool after some directives: its operands in the order of their first use. -/
def pool (same : α → α → Bool) (operand? : Directive → Option α) (directives : List Directive) :
    List α :=
  firstUses same (directives.filterMap operand?)

/-- A pool with one more operand, unless it counts as the same as one that is there. -/
def grown (same : α → α → Bool) (entries : List α) : Option α → List α
  | none => entries
  | some operand => if entries.any (same operand) then entries else entries ++ [operand]

def poolFits (same : α → α → Bool) (operand? : Directive → Option α)
    (before : List Directive) (operand : α) : Prop :=
  (pool same operand? before).findIdx (same operand) < 65536

def marked? (before : List Directive) : Directive → Option (Nat × Nat)
  | .mark label => some (label, extent before)
  | .beginFinally => (parts before).head?.map fun part => (part.label, extent before + 3)
  | .endTry => (parts before).head?.map fun part => (part.label + 1, extent before + 1)
  | _ => none

def referred? (before : List Directive) : Directive → Option Nat
  | .jump _ label => some label
  | .beginTry => some (labels before)
  | .beginFinally => (parts before).head?.map fun part => part.label + 1
  | _ => none

def Marks (directives : List Directive) (label pos : Nat) : Prop :=
  ∃ before directive after, directives = before ++ directive :: after ∧
    directive.marked? before = some (label, pos)

def Refers (directives : List Directive) (label : Nat) : Prop :=
  ∃ before directive after, directives = before ++ directive :: after ∧
    directive.referred? before = some label

/-- Whether a directive may follow others as far as its own operand goes. -/
def OperandFits (before : List Directive) : Directive → Prop
  | .plain op => Code.size op = 1
  | .constant .null => True
  | .constant value => poolFits Value.equals constant? before value
  | .slot _ operand | .rank _ operand => 0 ≤ operand ∧ operand < 65536
  | .type _ operand => poolFits (· == ·) type? before operand
  | .field _ operand => poolFits (· == ·) field? before operand
  | .property _ operand => poolFits (· == ·) property? before operand
  | .method _ operand => poolFits (· == ·) method? before operand
  | .name _ operand => poolFits (· == ·) name? before operand
  | .beginFinally => ∃ part outer, parts before = part :: outer ∧ part.isHandler = false
  | .endTry => ∃ part outer, parts before = part :: outer ∧ part.isHandler = true
  | _ => True

/-- Whether a directive may follow others: its operand fits, and its label has no position yet. -/
structure Fits (before : List Directive) (directive : Directive) : Prop where
  operand : directive.OperandFits before
  unmarked : ∀ label pos, directive.marked? before = some (label, pos) →
    ∀ earlier, ¬ Marks before label earlier

def OwnsMarks (directives : List Directive) : Prop :=
  ∀ {before after : List Directive} {label : Nat},
    directives = before ++ .mark label :: after → label < labels before

/-- What directives have to be for a program. -/
structure IsBuildable (directives : List Directive) : Prop where
  fits : ∀ {before directive after}, directives = before ++ directive :: after →
    directive.Fits before
  closed : parts directives = []
  resolved : ∀ label, Refers directives label → ∃ pos, Marks directives label pos ∧ pos < 65536

theorem OwnsMarks.of_append (owns : OwnsMarks (ds ++ more)) : OwnsMarks ds := by
  intro pre after label split
  exact owns (show ds ++ more = pre ++ .mark label :: (after ++ more) by
    rw [split, append_assoc, cons_append])

theorem split_concat {pre after last d} :
    ds ++ [last] = pre ++ d :: after ↔ (∃ rest, after = rest ++ [last] ∧ ds = pre ++ d :: rest) ∨
        (after = [] ∧ pre = ds ∧ d = last) := by
  constructor
  · intro split
    rcases eq_nil_or_concat after with rfl | ⟨rest, final, rfl⟩
    · obtain ⟨same, single⟩ := append_inj' split rfl
      exact .inr ⟨rfl, same.symm, (List.cons.inj single).1.symm⟩
    · rw [concat_eq_append] at split ⊢
      have shape : ds ++ [last] = (pre ++ d :: rest) ++ [final] := by
        rw [split, append_assoc, cons_append]
      obtain ⟨same, single⟩ := append_inj' shape rfl
      cases (List.cons.inj single).1
      exact .inl ⟨rest, rfl, same⟩
  · rintro (⟨rest, rfl, rfl⟩ | ⟨rfl, rfl, rfl⟩)
    · simp
    · rfl

theorem exists_split_concat {holds : List Directive → Directive → Prop} :
    (∃ pre d after, ds ++ [last] = pre ++ d :: after ∧ holds pre d) ↔
      (∃ pre d after, ds = pre ++ d :: after ∧ holds pre d) ∨ holds ds last := by
  constructor
  · rintro ⟨pre, d, after, split, here⟩
    rcases split_concat.mp split with ⟨rest, _, prev⟩ | ⟨_, rfl, rfl⟩
    · exact .inl ⟨pre, d, rest, prev, here⟩
    · exact .inr here
  · rintro (⟨pre, d, after, rfl, here⟩ | here)
    · exact ⟨pre, d, after ++ [last], by simp, here⟩
    · exact ⟨ds, last, [], rfl, here⟩

theorem refers_concat :
    Refers (ds ++ [last]) label ↔ Refers ds label ∨ last.referred? ds = some label :=
  exists_split_concat

theorem pool_concat (same : α → α → Bool) (operand? : Directive → Option α)
    (ds : List Directive) (last : Directive) :
    pool same operand? (ds ++ [last]) = grown same (pool same operand? ds) (operand? last) := by
  unfold pool
  cases shape : operand? last with
  | none => simp [filterMap_append, shape, grown]
  | some _ => simp [filterMap_append, shape, firstUses_concat, grown]

end Directive

namespace Assembly

open Draft
open Directive

theorem intern_eq (same : α → α → Bool) (entries : Array α) (entry : α) :
    (intern same entries entry).1.toList = (if entries.toList.any (same entry) then entries.toList
          else entries.toList ++ [entry]) ∧
      (intern same entries entry).2 = entries.toList.findIdx (same entry) := by
  obtain ⟨entries⟩ := entries
  unfold intern
  rw [findIdx?_toArray]
  split
  · next _ found =>
    rw [findIdx?_eq_some_iff_findIdx_eq] at found
    refine ⟨?_, found.2.symm⟩
    rw [if_pos]
    rw [any_eq_true]
    have inside : entries.findIdx (same entry) < entries.length := by omega
    exact ⟨_, getElem_mem inside, findIdx_getElem⟩
  · next missing =>
    have others := findIdx?_eq_none_iff.mp missing
    refine ⟨?_, (findIdx_eq_length.mpr others).symm⟩
    rw [if_neg (by simpa using others)]
    simp

theorem fault_checked (draft : Draft) (what : Text) (op : UInt8) (arg : Int) :
    (draft.checked what op arg).fault = none ↔ draft.fault = none ∧ 0 ≤ arg ∧ arg < 65536 := by
  unfold Draft.checked
  split
  · next fits => exact ⟨fun clean => ⟨clean, fits⟩, fun both => both.1⟩
  · next wrong => exact ⟨(nomatch ·), fun both => absurd both.2 wrong⟩

theorem fault_mark (draft : Draft) (label : Nat) :
    (draft.mark label).fault = none ↔
      draft.fault = none ∧ ∀ pos, draft.labels[label]? ≠ some (some pos) := by
  unfold Draft.mark
  split
  · next pos marked =>
    exact ⟨(nomatch ·), fun both => absurd marked (both.2 pos)⟩
  · next unmarked =>
    exact ⟨fun clean => ⟨clean, fun pos => unmarked pos⟩, fun both => both.1⟩

/-- What the pools of a program become by a directive. -/
structure Pooled (program : Program) (directive : Directive) (after : Program) : Prop where
  constants : after.constants.toList =
    grown Value.equals program.constants.toList directive.constant?
  types : after.types.toList = grown (· == ·) program.types.toList directive.type?
  fields : after.fields.toList = grown (· == ·) program.fields.toList directive.field?
  properties : after.properties.toList =
    grown (· == ·) program.properties.toList directive.property?
  methods : after.methods.toList = grown (· == ·) program.methods.toList directive.method?
  names : after.names.toList = grown (· == ·) program.names.toList directive.name?

theorem pools_checked (draft : Draft) (what : Text) (op : UInt8) (arg : Int) :
    { (draft.checked what op arg).program with code := #[] } =
      { draft.program with code := #[] } := by
  unfold Draft.checked
  split <;> rfl

theorem Pooled.of_code {program after other} (pooled : Pooled program d after)
    (same : { other with code := #[] } = { after with code := #[] }) : Pooled program d other where
  constants := (congrArg (·.constants.toList) same).trans pooled.constants
  types := (congrArg (·.types.toList) same).trans pooled.types
  fields := (congrArg (·.fields.toList) same).trans pooled.fields
  properties := (congrArg (·.properties.toList) same).trans pooled.properties
  methods := (congrArg (·.methods.toList) same).trans pooled.methods
  names := (congrArg (·.names.toList) same).trans pooled.names

theorem step_pooled (draft : Draft) (d : Directive) :
    Pooled draft.program d (step draft d).program := by
  have checked : ∀ {d : Directive} {after : Program} {what : Text} {op : UInt8}
      {arg : Int}, Pooled draft.program d after → Pooled draft.program d
        (Draft.checked { draft with program := after } what op arg).program :=
    fun pooled => pooled.of_code (pools_checked ..)
  cases d with
  | declareLocal | defineLabel | jump | convert | beginTry => constructor <;> rfl
  | slot | rank => exact checked (by constructor <;> rfl)
  | mark label =>
    exact .of_code (by constructor <;> rfl)
      (congrArg ({ · with code := #[] }) (program_mark draft label))
  | plain op =>
    rw [step_plain]
    split <;> constructor <;> rfl
  | constant val =>
    by_cases isNull : val = .null
    · subst isNull
      constructor <;> rfl
    · rw [step_constant draft isNull]
      refine checked ?_
      have used : (Directive.constant val).constant? = some val := by
        cases val <;> first | exact absurd rfl isNull | rfl
      refine ⟨?_, rfl, rfl, rfl, rfl, rfl⟩
      rw [used]
      exact (intern_eq _ _ _).1
  | type _ arg | field _ arg | property _ arg | method _ arg | name _ arg =>
    refine checked ?_
    constructor <;> first | rfl | exact (intern_eq (· == ·) _ arg).1
  | beginFinally =>
    by_cases within : Within draft false
    · obtain ⟨_, _, _, opened⟩ := within
      rw [step_beginFinally draft opened, program_mark]
      constructor <;> rfl
    · rw [step_beginFinally_fails within]
      constructor <;> rfl
  | endTry =>
    by_cases within : Within draft true
    · obtain ⟨_, _, _, entered⟩ := within
      rw [step_endTry draft entered, program_mark]
      constructor <;> rfl
    · rw [step_endTry_fails within]
      constructor <;> rfl

/-- What a draft without fault knows of its directives. -/
structure Tracks (directives : List Directive) (draft : Draft) : Prop where
  marks : ∀ {label pos : Nat}, draft.labels[label]? = some (some pos) ↔ Marks directives label pos
  refers : ∀ {label : Nat}, (∃ place, (place, label) ∈ draft.fixups) ↔ Refers directives label
  constants : draft.program.constants.toList =
    pool Value.equals constant? directives
  types : draft.program.types.toList = pool (· == ·) type? directives
  fields : draft.program.fields.toList = pool (· == ·) field? directives
  properties : draft.program.properties.toList = pool (· == ·) property? directives
  methods : draft.program.methods.toList = pool (· == ·) method? directives
  names : draft.program.names.toList = pool (· == ·) name? directives

variable {draft : Draft}

theorem labels_mark (clean : (draft.mark marked).fault = none)
    (defined : marked < draft.labels.size) :
    (draft.mark marked).labels[label]? = some (some pos) ↔ draft.labels[label]? = some (some pos) ∨
        (marked, draft.position) = (label, pos) := by
  have unmarked := ((fault_mark draft marked).mp clean).2
  unfold Draft.mark
  split
  · next prev found => exact absurd found (unmarked prev)
  · by_cases same : marked = label
    · subst same
      simp only [Array.getElem?_setIfInBounds_self_of_lt defined, Option.some.injEq, Prod.mk.injEq,
        true_and, unmarked pos, false_or]
    · simp only [Array.getElem?_setIfInBounds_ne same, Prod.mk.injEq, same, false_and, or_false]

variable {labels : Array (Option Nat)}

theorem labels_push_none :
    (labels.push none)[label]? = some (some pos) ↔ labels[label]? = some (some pos) := by
  rw [Array.getElem?_push]
  split
  · next last => simp [last]
  · rfl

/-- What a directive does to the labels of a draft and to the operands that wait for one. -/
structure Moves (before : List Directive) (directive : Directive) (draft after : Draft) :
    Prop where
  marks : ∀ {label pos : Nat}, after.labels[label]? = some (some pos) ↔
    draft.labels[label]? = some (some pos) ∨ directive.marked? before = some (label, pos)
  refers : ∀ {label : Nat}, (∃ place, (place, label) ∈ after.fixups) ↔
    (∃ place, (place, label) ∈ draft.fixups) ∨ directive.referred? before = some label

theorem Moves.of_same {draft after} (labels : after.labels = draft.labels)
    (fixups : after.fixups = draft.fixups) (marks : d.marked? pre = none)
    (refers : d.referred? pre = none) : Moves pre d draft after where
  marks := by simp [labels, marks]
  refers := by simp [fixups, refers]

variable {op : UInt8}

theorem fixups_jump : (∃ place, (place, label) ∈ (draft.jump op tgt).fixups) ↔
      (∃ place, (place, label) ∈ draft.fixups) ∨ some tgt = some label := by
  simp only [Draft.jump, Array.mem_push, Prod.mk.injEq, Option.some.injEq]
  constructor
  · rintro ⟨place, prev | ⟨_, same⟩⟩
    · exact .inl ⟨place, prev⟩
    · exact .inr same.symm
  · rintro (⟨place, prev⟩ | same)
    · exact ⟨place, .inl prev⟩
    · exact ⟨_, .inr ⟨rfl, same.symm⟩⟩

theorem labels_checked (draft : Draft) (what : Text) (op : UInt8) (arg : Int) :
    (draft.checked what op arg).labels = draft.labels ∧
      (draft.checked what op arg).fixups = draft.fixups := by
  unfold Draft.checked
  split <;> exact ⟨rfl, rfl⟩

@[simp] theorem fixups_mark (draft : Draft) (label : Nat) :
    (draft.mark label).fixups = draft.fixups := by
  unfold Draft.mark
  split <;> rfl

theorem exists_innermost (regions : (drafted pre).regions = (parts pre).map Part.drafted)
    (opened : (drafted pre).regions = { handler, exit, inHandler } :: outer) :
    ∃ part rest, parts pre = part :: rest ∧ handler = part.label ∧ exit = part.label + 1 ∧
      inHandler = part.isHandler := by
  rw [regions] at opened
  obtain ⟨part, rest, shape, same, _⟩ := map_eq_cons_iff.mp opened
  cases same
  exact ⟨part, rest, shape, rfl, rfl, rfl⟩

theorem step_moves (owns : OwnsMarks (pre ++ [d])) (clean : (step (drafted pre) d).fault = none) :
    Moves pre d (drafted pre) (step (drafted pre) d) := by
  have earlierClean := (step_extends _ d).fault clean
  have counts := drafted_counts pre earlierClean
  have regions := regions_drafted pre earlierClean
  have inside := (start_pairwise pre).1
  have checked : ∀ {d : Directive} {program : Program} {what : Text} {op : UInt8}
      {arg : Int}, d.marked? pre = none → d.referred? pre = none →
      Moves pre d (drafted pre) (Draft.checked { drafted pre with program } what op arg) :=
    fun marks refers => .of_same (labels_checked ..).1 (labels_checked ..).2 marks refers
  cases d with
  | declareLocal | convert => exact .of_same rfl rfl rfl rfl
  | slot | rank | type | field | property | method | name => exact checked rfl rfl
  | constant val =>
    by_cases isNull : val = .null
    · subst isNull
      exact .of_same rfl rfl rfl rfl
    · rw [step_constant _ isNull]
      exact checked rfl rfl
  | plain op =>
    rw [step_plain]
    split <;> exact .of_same rfl rfl rfl rfl
  | defineLabel =>
    exact ⟨⟨fun marked => .inl (labels_push_none.mp marked),
      fun either => either.elim labels_push_none.mpr nofun⟩,
      ⟨.inl, fun either => either.elim id nofun⟩⟩
  | mark label =>
    have defined : label < (drafted pre).labels.size := counts.labels ▸ owns rfl
    refine ⟨fun {other pos} => ?_, fun {other} => ?_⟩
    · rw [marked?, ← counts.position, Option.some.injEq]
      exact labels_mark clean defined
    · change (∃ place, (place, other) ∈ ((drafted pre).mark label).fixups) ↔ _
      rw [fixups_mark]
      exact ⟨.inl, fun either => either.elim id nofun⟩
  | jump op label =>
    exact ⟨⟨.inl, fun either => either.elim id nofun⟩, fixups_jump⟩
  | beginTry =>
    rw [step_beginTry]
    refine ⟨⟨fun marked => .inl (labels_push_none.mp (labels_push_none.mp marked)),
      fun either => either.elim (fun marked => labels_push_none.mpr (labels_push_none.mpr marked))
        nofun⟩, fun {label} => ?_⟩
    rw [referred?, ← counts.labels]
    exact fixups_jump
  | beginFinally =>
    obtain ⟨handler, exit, outer, opened⟩ := opened_of_clean clean
    obtain ⟨part, rest, shape, rfl, rfl, _⟩ := exists_innermost regions opened
    have defined := (inside part (by simp [shape])).2
    rw [step_beginFinally _ opened] at clean ⊢
    refine ⟨fun {label pos} => ?_, fun {label} => ?_⟩
    · rw [marked?, shape, head?_cons, Option.map_some, Option.some.injEq,
        ← counts.position]
      refine (labels_mark clean ?_).trans ?_
      · change part.label < (drafted pre).labels.size
        rw [counts.labels]
        omega
      · rw [position_jump]
        rfl
    · rw [fixups_mark, referred?, shape]
      exact fixups_jump
  | endTry =>
    obtain ⟨handler, exit, outer, entered⟩ := entered_of_clean clean
    obtain ⟨part, rest, shape, rfl, rfl, _⟩ := exists_innermost regions entered
    have defined := (inside part (by simp [shape])).2
    rw [step_endTry _ entered] at clean ⊢
    refine ⟨fun {label pos} => ?_, fun {label} => ?_⟩
    · rw [marked?, shape, head?_cons, Option.map_some, Option.some.injEq,
        ← counts.position]
      refine (labels_mark clean ?_).trans ?_
      · change part.label + 1 < (drafted pre).labels.size
        rw [counts.labels]
        omega
      · rw [position_byte]
        rfl
    · rw [fixups_mark]
      exact ⟨.inl, fun either => either.elim id nofun⟩

theorem drafted_tracks (owns : OwnsMarks ds) (clean : (drafted ds).fault = none) :
    Tracks ds (drafted ds) := by
  induction ds using List.reverseRecOn with
  | nil =>
    refine ⟨fun {label pos} => ?_, fun {label} => ?_, rfl, rfl, rfl, rfl, rfl, rfl⟩
    · simp [drafted, Marks]
    · simp [drafted, Refers]
  | append_singleton ds last ih =>
    rw [drafted_concat] at clean ⊢
    have prev := ih owns.of_append ((step_extends _ last).fault clean)
    have moves := step_moves owns clean
    have pooled := step_pooled (drafted ds) last
    exact {
      marks := by
        intro label pos
        rw [moves.marks, prev.marks]
        exact exists_split_concat.symm
      refers := by intro label; rw [moves.refers, prev.refers, refers_concat]
      constants := by rw [pooled.constants, prev.constants, pool_concat]
      types := by rw [pooled.types, prev.types, pool_concat]
      fields := by rw [pooled.fields, prev.fields, pool_concat]
      properties := by rw [pooled.properties, prev.properties, pool_concat]
      methods := by rw [pooled.methods, prev.methods, pool_concat]
      names := by rw [pooled.names, prev.names, pool_concat] }

theorem fault_pooled {program what same} {operand? : Directive → Option α} {entries}
    (clean : draft.fault = none) (pooled : entries.toList = pool same operand? pre) (arg : α) :
    (Draft.checked { draft with program } what op (intern same entries arg).2).fault = none ↔
      poolFits same operand? pre arg := by
  rw [fault_checked, (intern_eq same entries arg).2, pooled, poolFits]
  exact ⟨fun _ => by omega, fun _ => ⟨clean, by omega, by omega⟩⟩

theorem fault_step (clean : (drafted pre).fault = none) (tracks : Tracks pre (drafted pre)) :
    (step (drafted pre) d).fault = none ↔ d.Fits pre := by
  have regions := regions_drafted pre clean
  have unmarking : ∀ {d : Directive} {faultless : Prop},
      d.marked? pre = none → (faultless ↔ d.OperandFits pre) → (faultless ↔ d.Fits pre) := by
    intro d faultless marks fits
    rw [fits]
    refine ⟨fun arg => ⟨arg, ?_⟩, Fits.operand⟩
    intro label pos marked
    rw [marks] at marked
    cases marked
  have marking : ∀ {d : Directive} {later : Draft} {label pos : Nat},
      d.marked? pre = some (label, pos) → d.OperandFits pre →
      later.fault = none → later.labels = (drafted pre).labels →
      ((later.mark label).fault = none ↔ d.Fits pre) := by
    intro d later label pos marks arg cleanLater same
    refine (fault_mark _ _).trans ⟨fun both => ⟨arg, ?_⟩, fun fits => ⟨cleanLater, ?_⟩⟩
    · intro _ _ marked prev present
      cases marks.symm.trans marked
      exact both.2 prev (same ▸ tracks.marks.mpr present)
    · intro prev present
      exact fits.unmarked _ _ marks prev (tracks.marks.mp (same ▸ present))
  cases d with
  | declareLocal | defineLabel | jump | convert | beginTry =>
    exact unmarking rfl ⟨fun _ => trivial, fun _ => clean⟩
  | slot op arg | rank op arg =>
    refine unmarking rfl ((fault_checked ..).trans ?_)
    exact ⟨And.right, fun fits => ⟨clean, fits⟩⟩
  | plain op =>
    refine unmarking rfl ?_
    rw [step_plain]
    split
    · next single => exact ⟨fun _ => single, fun _ => clean⟩
    · next longer => exact ⟨nofun, fun single => absurd single longer⟩
  | constant val =>
    by_cases isNull : val = .null
    · subst isNull
      exact unmarking rfl ⟨fun _ => trivial, fun _ => clean⟩
    · refine unmarking rfl ?_
      rw [step_constant _ isNull]
      refine (fault_pooled clean tracks.constants val).trans ?_
      cases val <;> first | exact absurd rfl isNull | rfl
  | type op arg => exact unmarking rfl (fault_pooled clean tracks.types arg)
  | field op arg => exact unmarking rfl (fault_pooled clean tracks.fields arg)
  | property op arg => exact unmarking rfl (fault_pooled clean tracks.properties arg)
  | method op arg => exact unmarking rfl (fault_pooled clean tracks.methods arg)
  | name op arg => exact unmarking rfl (fault_pooled clean tracks.names arg)
  | mark label => exact marking rfl trivial clean rfl
  | beginFinally =>
    by_cases within : Within (drafted pre) false
    · obtain ⟨_, _, _, opened⟩ := within
      obtain ⟨part, rest, shape, rfl, rfl, inside⟩ := exists_innermost regions opened
      rw [step_beginFinally _ opened]
      exact marking (by rw [marked?, shape]; rfl) ⟨part, rest, shape, inside.symm⟩
        clean rfl
    · rw [step_beginFinally_fails within]
      refine ⟨nofun, fun fits => ?_⟩
      obtain ⟨⟨_, _, _⟩, _, shape, rfl⟩ := fits.operand
      rw [shape] at regions
      exact absurd ⟨_, _, _, regions⟩ within
  | endTry =>
    by_cases within : Within (drafted pre) true
    · obtain ⟨_, _, _, entered⟩ := within
      obtain ⟨part, rest, shape, rfl, rfl, inside⟩ := exists_innermost regions entered
      rw [step_endTry _ entered]
      exact marking (by rw [marked?, shape]; rfl) ⟨part, rest, shape, inside.symm⟩
        clean rfl
    · rw [step_endTry_fails within]
      refine ⟨nofun, fun fits => ?_⟩
      obtain ⟨⟨_, _, _⟩, _, shape, rfl⟩ := fits.operand
      rw [shape] at regions
      exact absurd ⟨_, _, _, regions⟩ within

theorem fault_drafted (owns : OwnsMarks ds) :
    (drafted ds).fault = none ↔ ∀ {pre d after}, ds = pre ++ d :: after → d.Fits pre := by
  induction ds using List.reverseRecOn with
  | nil =>
    refine ⟨fun _ => ?_, fun _ => rfl⟩
    intro pre d after split
    cases pre <;> cases split
  | append_singleton ds last ih =>
    have prev := ih owns.of_append
    constructor
    · intro clean
      rw [drafted_concat] at clean
      have earlierClean := (step_extends _ last).fault clean
      intro pre d after split
      rcases split_concat.mp split with ⟨_, _, within⟩ | ⟨_, rfl, rfl⟩
      · exact prev.mp earlierClean within
      · exact (fault_step earlierClean (drafted_tracks owns.of_append earlierClean)).mp clean
    · intro fits
      have earlierClean : (drafted ds).fault = none := prev.mpr fun within =>
        fits (split_concat.mpr (.inl ⟨_, rfl, within⟩))
      rw [drafted_concat]
      exact (fault_step earlierClean (drafted_tracks owns.of_append earlierClean)).mpr (fits rfl)

theorem patches_isOk {fixups : List (Nat × Nat)} (code : Array UInt8) :
    (∃ patched, fixups.foldlM (patch labels) code = .ok patched) ↔
      ∀ fixup ∈ fixups, ∃ pos, labels[fixup.2]? = some (some pos) ∧ pos < 65536 := by
  induction fixups generalizing code with
  | nil => exact ⟨fun _ => nofun, fun _ => ⟨code, rfl⟩⟩
  | cons first _ ih =>
    rw [forall_mem_cons, foldlM_cons]
    constructor
    · rintro ⟨patched, done⟩
      cases firstDone : patch labels code first with
      | error _ =>
        rw [firstDone] at done
        cases done
      | ok next =>
        rw [firstDone] at done
        obtain ⟨pos, small, marked, _⟩ := patch_eq_ok firstDone
        exact ⟨⟨pos, marked, small⟩, (ih next).mp ⟨patched, done⟩⟩
    · rintro ⟨⟨pos, marked, small⟩, others⟩
      have firstDone : ∃ next, patch labels code first = .ok next := by
        unfold patch
        rw [marked]
        exact ⟨_, if_pos small⟩
      obtain ⟨next, firstDone⟩ := firstDone
      rw [firstDone]
      exact (ih next).mpr others

theorem assemble_isOk_iff (owns : OwnsMarks ds) :
    (∃ program, assemble ds = .ok program) ↔ Directive.IsBuildable ds := by
  constructor
  · rintro ⟨program, asm⟩
    obtain ⟨clean, code, filled, _⟩ := finish_eq_ok (show finish (drafted _) = _ from asm)
    have tracks := drafted_tracks owns clean
    refine ⟨(fault_drafted owns).mp clean, parts_eq_nil asm, fun label referred => ?_⟩
    obtain ⟨place, waiting⟩ := tracks.refers.mpr referred
    obtain ⟨pos, marked, small⟩ :=
      (patches_isOk _).mp ⟨code, filled⟩ (place, label) (Array.mem_toList_iff.mpr waiting)
    exact ⟨pos, tracks.marks.mp marked, small⟩
  · intro buildable
    have clean := (fault_drafted owns).mpr buildable.fits
    have tracks := drafted_tracks owns clean
    have closed : (drafted ds).regions.isEmpty := by
      rw [regions_drafted ds clean, buildable.closed]
      rfl
    obtain ⟨code, filled⟩ := (patches_isOk (drafted ds).program.code).mpr
      fun fixup (waiting : fixup ∈ (drafted ds).fixups.toList) => by
        obtain ⟨pos, marked, small⟩ := buildable.resolved fixup.2
          (tracks.refers.mp ⟨fixup.1, Array.mem_toList_iff.mp waiting⟩)
        exact ⟨pos, tracks.marks.mpr marked, small⟩
    refine ⟨{ (drafted ds).program with code }, ?_⟩
    change finish (drafted ds) = _
    unfold finish
    rw [clean]
    simp only [closed, ↓reduceIte, filled]
    rfl

end Assembly

end HostScript
