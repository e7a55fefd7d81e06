import HostScript.Proofs.Emission.Control
import HostScript.Proofs.Emission.Drafts
import HostScript.Proofs.Typing.Basic

namespace HostScript

open Typed (Expr Rules)
open Directive (labelCount labels labels_cons labels_reverse)
open List

/-!
# Shapes of the stack

A shape says what the entries of the stack are, the top first.
-/

/-- What is known of an entry of the stack. -/
inductive Cell where
  | value (type : Ty)
  | host
  | address (type : Ty)
  deriving DecidableEq

/-- What is known of the stack, its top first. -/
abbrev Shape := List Cell

namespace Shape

def pushed : Shape → List Ty → Shape
  | shape, [] => shape
  | shape, type :: rest => pushed (.value type :: shape) rest

def called (shape : Shape) (type : Ty) : Shape :=
  if type = .void then shape else .value type :: shape

@[simp] theorem length_pushed (shape : Shape) (tys : List Ty) :
    (shape.pushed tys).length = shape.length + tys.length := by
  induction tys generalizing shape with
  | nil => rfl
  | cons _ _ ih =>
    rw [pushed, ih, length_cons, length_cons]
    omega

theorem length_called (shape : Shape) (type : Ty) :
    (shape.called type).length = shape.length + if type = .void then 0 else 1 := by
  unfold called
  split <;> rfl

theorem called_of_isData (shape : Shape) {type} (isData : type.isData) :
    shape.called type = .value type :: shape :=
  if_neg (Ty.ne_void_of_isData isData)

end Shape

/-- What code is checked against: the rules for its members and the slots that it may use. -/
structure Checker where
  rules : Rules
  types : Universe
  /-- The count of the variables, which have the first slots. -/
  variableCount : Nat
  /-- The first slot that is free for other uses. -/
  scratch : Nat

variable {chk : Checker} {d : Directive}

namespace Checker

/-- A constant stands for a value of a type. -/
inductive Constant (checker : Checker) : Value → Ty → Prop
  | literal (literal : Literal) : Constant checker literal.value literal.type
  | field {field value} (allowed : checker.rules.field field)
      (isConstant : field.literal = some value) : Constant checker value field.type

/-- What has one shape may be used where another one is wanted. -/
inductive Suits (checker : Checker) : Shape → Shape → Prop
  | refl (shape : Shape) : Suits checker shape shape
  | trans {first second third} (earlier : Suits checker first second)
      (later : Suits checker second third) : Suits checker first third
  | fits {actual wanted} (rest : Shape) (fits : checker.rules.Fits actual wanted) :
      Suits checker (.value actual :: rest) (.value wanted :: rest)
  | assignable {actual wanted} (rest : Shape) (isReference : actual.isReference = true)
      (assignable : checker.types.isAssignable wanted actual = true) :
      Suits checker (.value actual :: rest) (.value wanted :: rest)

theorem Suits.length_eq {first second} (suits : chk.Suits first second) :
    first.length = second.length := by
  induction suits with
  | refl | fits | assignable => rfl
  | trans _ _ prev later => exact prev.trans later

end Checker

/-- The types of the local variables, and the shapes at the labels. -/
structure Expectation where
  slots : Nat → Option Ty
  marks : Nat → Shape

/-- The arithmetic operations on two values of a primitive type. -/
def Op.Computes (op : Op) (primitive : Prim) : Prop :=
  op ∈ [Op.add, .subtract, .multiply, .divide, .remainder] ∨
    op ∈ [Op.bitAnd, .bitOr] ∧ primitive = .int .int32

section

variable (checker : Checker) (expected : Expectation)

/-- A directive leads from one shape to another. -/
inductive Directive.Passes : Directive → Shape → Shape → Prop
  | declareLocal (type shape) : Passes (.declareLocal type) shape shape
  | defineLabel (shape) : Passes .defineLabel shape shape
  | constant {value type} (shape) (stands : checker.Constant value type) :
      Passes (.constant value) shape (.value type :: shape)
  | pop (cell shape) : Passes (.plain Op.pop) (cell :: shape) shape
  | loadHost (shape) : Passes (.plain Op.loadHost) shape (.host :: shape)
  | loadLocal {slot type} (shape) (known : expected.slots slot = some type) :
      Passes (.slot Op.loadLocal slot) shape (.value type :: shape)
  | storeLocal {slot type} (shape) (known : expected.slots slot = some type) :
      Passes (.slot Op.storeLocal slot) (.value type :: shape) shape
  | loadLocalAddress {slot type} (shape) (known : expected.slots slot = some type) :
      Passes (.slot Op.loadLocalAddress slot) shape (.address type :: shape)
  | loadField {field} (receiver shape) (allowed : checker.rules.field field) :
      Passes (.field Op.loadField field) (receiver :: shape) (.value field.type :: shape)
  | loadStaticField {field} (shape) (allowed : checker.rules.field field) :
      Passes (.field Op.loadStaticField field) shape (.value field.type :: shape)
  | storeField (field receiver shape) :
      Passes (.field Op.storeField field) (.value field.type :: receiver :: shape) shape
  | storeStaticField (field shape) :
      Passes (.field Op.storeStaticField field) (.value field.type :: shape) shape
  | getProperty {property} (receiver shape) (allowed : checker.rules.property property) :
      Passes (.property Op.getProperty property) (Shape.pushed (receiver :: shape) property.params)
        (.value property.type :: shape)
  | getStaticProperty {property} (shape) (allowed : checker.rules.property property) :
      Passes (.property Op.getStaticProperty property) (Shape.pushed shape property.params)
        (.value property.type :: shape)
  | setProperty (property receiver shape) :
      Passes (.property Op.setProperty property)
        (.value property.type :: Shape.pushed (receiver :: shape) property.params) shape
  | setStaticProperty (property shape) :
      Passes (.property Op.setStaticProperty property)
        (.value property.type :: Shape.pushed shape property.params) shape
  | call {method} (shape) (allowed : checker.rules.method method) :
      Passes (.method Op.call method) (Shape.pushed shape method.params) (shape.called method.type)
  | callVirtual {method} (receiver shape) (allowed : checker.rules.method method) :
      Passes (.method Op.callVirtual method) (Shape.pushed (receiver :: shape) method.params)
        (Shape.called shape method.type)
  | loadElement {element} (rank : Nat) (shape) (isData : element.isData = true) :
      Passes (.rank Op.loadElement rank)
        (Shape.pushed (.value (.array element rank) :: shape) (List.replicate rank .int32))
        (.value element :: shape)
  | storeElement {element} (rank : Nat) (shape) :
      Passes (.rank Op.storeElement rank) (.value element ::
          Shape.pushed (.value (.array element rank) :: shape) (List.replicate rank .int32)) shape
  | newArray (element shape) :
      Passes (.type Op.newArray element) (.value .int32 :: shape)
        (.value (.array element 1) :: shape)
  | lateGet (name receiver shape) :
      Passes (.name Op.lateGet name) (.value receiver :: shape) (.value .object :: shape)
  | lateSet (name receiver shape) :
      Passes (.name Op.lateSet name) (.value .object :: .value receiver :: shape) shape
  | lateCall (name receiver shape) :
      Passes (.name Op.lateCall name) (.value (.array .object 1) :: .value receiver :: shape)
        (.value .object :: shape)
  | arithmetic {op : Op} {primitive : Prim} (shape) (computes : op.Computes primitive) :
      Passes (.plain op) (.value (.prim primitive) :: .value (.prim primitive) :: shape)
        (.value (.prim primitive) :: shape)
  | equal {left right} (shape)
      (comparable : left = right ∨ left.isReference = true ∧ right.isReference = true) :
      Passes (.plain Op.equal) (.value right :: .value left :: shape) (.value .bool :: shape)
  | order {op : Op} {primitive : Prim} (shape) (orders : op = .greater ∨ op = .less) :
      Passes (.plain op) (.value (.prim primitive) :: .value (.prim primitive) :: shape)
        (.value .bool :: shape)
  | negate {type} (shape) (isValue : type.isValue = true) :
      Passes (.plain Op.negate) (.value type :: shape) (.value type :: shape)
  | complement (shape) :
      Passes (.plain Op.complement) (.value .bool :: shape) (.value .bool :: shape)
  | convert {source target} (shape) (fromValue : source.isValue = true)
      (toValue : target.isValue = true) :
      Passes (.convert (checker.types.kind target).number) (.value source :: shape)
        (.value target :: shape)
  | box {source target} (shape) (holds : checker.types.isAssignable target source = true) :
      Passes (.type Op.box source) (.value source :: shape) (.value target :: shape)
  | unbox {source target} (shape) (isReference : source.isReference = true)
      (isValue : target.isValue = true) :
      Passes (.type Op.unbox target) (.value source :: shape) (.value target :: shape)
  | castClass {source target} (shape) (isReference : source.isReference = true) :
      Passes (.type Op.castClass target) (.value source :: shape) (.value target :: shape)
  | jump {label} (dead) : Passes (.jump Op.jump label) (expected.marks label) dead
  | jumpIf {op : Op} {label : Nat} (decides : op = .jumpIfTrue ∨ op = .jumpIfFalse) :
      Passes (.jump op label) (.value .bool :: expected.marks label) (expected.marks label)
  | leave {label} (dead) (out : expected.marks label = []) : Passes (.jump Op.leave label) [] dead
  | beginFinally : Passes .beginFinally [] []
  | endTry : Passes .endTry [] []
  | stateGet (type held shape) :
      Passes (.type Op.stateGet type) (.value .string :: .value held :: shape)
        (.value type :: shape)
  | stateSet (type held shape) :
      Passes (.plain Op.stateSet) (.value type :: .value .string :: .value held :: shape) shape

/-- A directive after others leads from one shape to another; the labels of a protected region are
reached with nothing on the stack. -/
inductive Directive.Steps (before : List Directive) : Directive → Shape → Shape → Prop
  | passes {directive : Directive} {actual wanted after : Shape}
      (suits : checker.Suits actual wanted)
      (passes : directive.Passes checker expected wanted after) :
      Steps before directive actual after
  | mark {label actual} (suits : checker.Suits actual (expected.marks label))
      (defined : label < Directive.labels before) :
      Steps before (.mark label) actual (expected.marks label)
  | beginTry {actual} (suits : checker.Suits actual [])
      (handler : expected.marks (Directive.labels before) = [])
      (exit : expected.marks (Directive.labels before + 1) = []) :
      Steps before .beginTry actual []

end

theorem Directive.Steps.suited {want : Expectation} {pre : List Directive}
    {actual wanted after : Shape} (steps : d.Steps chk want pre wanted after)
    (suits : chk.Suits actual wanted) : d.Steps chk want pre actual after := by
  cases steps with
  | passes further passes => exact .passes (suits.trans further) passes
  | mark further defined => exact .mark (suits.trans further) defined
  | beginTry further handler exit => exact .beginTry (suits.trans further) handler exit

variable {draft after : Draft}

namespace Emission

/-- The parts of a script that have code of their own. -/
inductive Fragment where
  | expression (value : Expr)
  | statement (act : Typed.Statement)

/-- The entries that an expression of a type adds to the stack. -/
def cells (type : Ty) : Nat :=
  if type = .void then 0 else 1

/-- Drafts that follow on one another. -/
structure Between (draft first last after : Draft) : Prop where
  starts : draft.directives <:+ first.directives
  inner : first.directives <:+ last.directives
  ends : last.directives <:+ after.directives

/--
A part of a script has its code between two drafts: an expression adds its value, a statement
starts and ends with nothing on the stack.
-/
def Fragment.Stands (types : Universe) (height : Nat → Nat) (draft after : Draft) : Fragment → Prop
  | .expression value => ∃ first last, Code types (.one value) first last ∧
      Between draft first last after ∧
      height last.directives.length = height first.directives.length + cells value.type
  | .statement act => ∃ around first last, around.types = types ∧
      BodyCode around (.one act) first last ∧ Between draft first last after ∧
      height first.directives.length = 0 ∧ height last.directives.length = 0

theorem Between.widen {first last outer further} (between : Between draft first last after)
    (prev : outer.directives <:+ draft.directives)
    (later : after.directives <:+ further.directives) : Between outer first last further :=
  ⟨prev.trans between.starts, between.inner, between.ends.trans later⟩

theorem Fragment.Stands.widen {outer further : Draft} {fragment : Fragment}
    (stands : fragment.Stands tys height draft after) (prev : outer.directives <:+ draft.directives)
    (later : after.directives <:+ further.directives)
    (same : ∀ place, draft.directives.length ≤ place → place ≤ after.directives.length →
      other place = height place) : fragment.Stands tys other outer further := by
  have inside : ∀ {first last : Draft}, Between draft first last after →
      other first.directives.length = height first.directives.length ∧
        other last.directives.length = height last.directives.length := by
    intro first last between
    have atStart := between.starts.length_le
    have atEnd := between.ends.length_le
    have inner := between.inner.length_le
    exact ⟨same _ atStart (by omega), same _ (by omega) atEnd⟩
  cases fragment with
  | expression =>
    obtain ⟨first, last, code, between, adds⟩ := stands
    obtain ⟨atFirst, atLast⟩ := inside between
    exact ⟨first, last, code, between.widen prev later, by rw [atFirst, atLast, adds]⟩
  | statement =>
    obtain ⟨around, first, last, sameTypes, code, between, starts, ends⟩ := stands
    obtain ⟨atFirst, atLast⟩ := inside between
    exact ⟨around, first, last, sameTypes, code, between.widen prev later,
      by rw [atFirst, starts], by rw [atLast, ends]⟩

/-- An expectation knows the local variables that code may use. -/
def Knows (checker : Checker) (expected : Expectation) (draft : Draft) : Prop :=
  ∀ slot type, draft.declared[slot]? = some type →
    slot < checker.variableCount ∨ checker.scratch ≤ slot → expected.slots slot = some type

/--
What is written between two drafts has a shape at every place, from one shape to another,
for every expectation with some shapes at the labels in between and given ones at others.
-/
structure Flow (checker : Checker) (given : Expectation → Prop) (fragments : List Fragment)
    (start finish : Shape) (draft after : Draft) (shapes marks : Nat → Shape) : Prop where
  directives : draft.directives <:+ after.directives
  starts : shapes draft.directives.length = start
  ends : checker.Suits (shapes after.directives.length) finish
  steps : ∀ expected : Expectation, Knows checker expected after → given expected →
    (∀ label, Directive.labels draft.directives ≤ label →
      label < Directive.labels after.directives → expected.marks label = marks label) →
    ∀ {before directive rest}, after.directives.reverse = before ++ directive :: rest →
      draft.directives.length ≤ before.length →
      directive.Steps checker expected before (shapes before.length) (shapes (before.length + 1))
  stands : ∀ fragment ∈ fragments,
    fragment.Stands checker.types (fun place => (shapes place).length) draft after

/-- What is written between two drafts has a shape at every place. -/
def Flows (checker : Checker) (given : Expectation → Prop) (fragments : List Fragment)
    (start finish : Shape) (draft after : Draft) : Prop :=
  ∃ shapes marks, Flow checker given fragments start finish draft after shapes marks

theorem Knows.earlier (knows : Knows chk want after)
    (suffix : draft.directives <:+ after.directives) : Knows chk want draft := by
  intro slot type decl inside
  exact knows slot type (Draft.declared_of_suffix suffix decl) inside

theorem split_of_suffix (suffix : first <:+ second) (split : second.reverse = pre ++ d :: rest)
    (inside : pre.length < first.length) : ∃ further, first.reverse = pre ++ d :: further := by
  have leading : pre ++ [d] <+: second.reverse := ⟨rest, by simp [split]⟩
  have whole : first.reverse <+: second.reverse := reverse_prefix.mpr suffix
  obtain ⟨further, shape⟩ := prefix_of_prefix_length_le leading whole (by simp; omega)
  exact ⟨further, by simp [← shape]⟩

def joined (place : Nat) (earlier later : Nat → Shape) : Nat → Shape :=
  fun other => if other ≤ place then earlier other else later other

theorem Flow.trans (flow : Flow chk given frags start mid first second shapes marks)
    (laterFlow : Flow chk given more mid finish second third laterShapes laterMarks) :
    Flow chk given (frags ++ more) start finish first third
      (joined second.directives.length shapes laterShapes)
      (fun label => if label < labels second.directives then marks label
        else laterMarks label) := by
  have shorter := flow.directives.length_le
  have longer := laterFlow.directives.length_le
  have suited : chk.Suits (shapes second.directives.length)
      (laterShapes second.directives.length) := by
    rw [laterFlow.starts]
    exact flow.ends
  have atEarlier : ∀ {place}, place ≤ second.directives.length →
      joined second.directives.length shapes laterShapes place = shapes place :=
    fun inside => if_pos inside
  have atLater : ∀ {place}, second.directives.length < place →
      joined second.directives.length shapes laterShapes place = laterShapes place :=
    fun beyond => if_neg (Nat.not_le_of_lt beyond)
  -- at the border the shape of the earlier code suits that of the later code
  have suitsLater : ∀ {place}, second.directives.length ≤ place →
      chk.Suits (joined second.directives.length shapes laterShapes place) (laterShapes place) := by
    intro place beyond
    rcases Nat.eq_or_lt_of_le beyond with rfl | beyond
    · rw [atEarlier (Nat.le_refl _)]
      exact suited
    · rw [atLater beyond]
      exact .refl _
  refine ⟨flow.directives.trans laterFlow.directives, ?_, ?_, ?_, ?_⟩
  · rw [atEarlier shorter, flow.starts]
  · exact (suitsLater longer).trans laterFlow.ends
  · intro want knows holds agrees pre d _ split beyond
    by_cases inside : pre.length < second.directives.length
    · obtain ⟨_, earlierSplit⟩ := split_of_suffix laterFlow.directives split inside
      rw [atEarlier (Nat.le_of_lt inside), atEarlier inside]
      refine flow.steps want (knows.earlier laterFlow.directives) holds ?_ earlierSplit beyond
      intro label above below
      have bound := labels_le_of_suffix laterFlow.directives
      rw [agrees label above (by omega), if_pos below]
    · have outside := Nat.le_of_not_lt inside
      rw [atLater (Nat.lt_succ_of_le outside)]
      refine .suited ?_ (suitsLater outside)
      refine laterFlow.steps want knows holds ?_ split outside
      intro label above below
      have bound := labels_le_of_suffix flow.directives
      rw [agrees label (by omega) below, if_neg (by omega)]
  · intro fragment mem
    rcases mem_append.mp mem with isEarlier | isLater
    · refine (flow.stands fragment isEarlier).widen suffix_rfl laterFlow.directives ?_
      intro place _ inside
      rw [atEarlier inside]
    · refine (laterFlow.stands fragment isLater).widen flow.directives suffix_rfl ?_
      intro place beyond _
      exact (suitsLater beyond).length_eq

theorem Flow.single (draft : Draft) (marks : Nat → Shape)
    (steps : ∀ want : Expectation, Knows chk want (draft.wrote d) → given want →
      (∀ label, labels draft.directives ≤ label → label < labels (draft.wrote d).directives →
        want.marks label = marks label) →
      d.Steps chk want draft.directives.reverse start finish) :
    Flow chk given [] start finish draft (draft.wrote d)
      (joined draft.directives.length (fun _ => start) (fun _ => finish)) marks := by
  refine ⟨suffix_cons _ _, if_pos (Nat.le_refl _), ?_, ?_, nofun⟩
  · rw [joined, if_neg (by simp [Draft.wrote])]
    exact .refl finish
  · intro want knows holds agrees pre other rest split _
    have shape : draft.directives.reverse ++ [d] = pre ++ other :: rest := by
      rw [← split]
      simp [Draft.wrote]
    have length := congrArg List.length shape
    simp only [length_append, length_reverse, length_cons, length_nil] at length
    obtain ⟨rfl, tail⟩ := append_inj shape (by rw [length_reverse]; omega)
    cases tail
    rw [length_reverse, joined, if_pos (Nat.le_refl _), joined,
      if_neg (Nat.not_succ_le_self _)]
    exact steps want knows holds agrees

namespace Flows

section

variable {given : Expectation → Prop} {start finish : Shape} {first second third : Draft}

theorem refl (chk : Checker) (given : Expectation → Prop) (shape : Shape) (draft : Draft) :
    Flows chk given [] shape shape draft draft := by
  refine ⟨fun _ => shape, fun _ => [], suffix_rfl, rfl, .refl shape, ?_, nofun⟩
  intro _ _ _ _ _ d _ split _
  have length := congrArg List.length split
  simp at length
  omega

theorem suits (flows : Flows chk given frags start mid first second)
    (suits : chk.Suits mid finish) : Flows chk given frags start finish first second := by
  obtain ⟨shapes, marks, flow⟩ := flows
  exact ⟨shapes, marks, flow.directives, flow.starts, flow.ends.trans suits, flow.steps,
    flow.stands⟩

theorem mono (flows : Flows chk given frags start finish first second)
    (included : ∀ want, known want → given want) :
    Flows chk known frags start finish first second := by
  obtain ⟨shapes, marks, flow⟩ := flows
  exact ⟨shapes, marks, flow.directives, flow.starts, flow.ends,
    fun want knows holds => flow.steps want knows (included want holds), flow.stands⟩

theorem trans (prev : Flows chk given frags start mid first second)
    (later : Flows chk given more mid finish second third) :
    Flows chk given (frags ++ more) start finish first third := by
  obtain ⟨_, _, flow⟩ := prev
  obtain ⟨_, _, laterFlow⟩ := later
  exact ⟨_, _, flow.trans laterFlow⟩

section

variable (flows : Flows chk given frags start mid first second)

include flows

theorem steps (steps : ∀ want : Expectation, Knows chk want (second.wrote d) → given want →
      d.Steps chk want second.directives.reverse mid finish) :
    Flows chk given frags start finish first (second.wrote d) := by
  have both := flows.trans ⟨_, _, .single second (fun _ => [])
    fun want knows holds _ => steps want knows holds⟩
  rwa [append_nil] at both

theorem wrote (passes : ∀ want : Expectation, Knows chk want (second.wrote d) →
      given want → d.Passes chk want mid finish) :
    Flows chk given frags start finish first (second.wrote d) :=
  flows.steps fun want knows holds => .passes (.refl _) (passes want knows holds)

/-- One more directive that passes whatever else is expected. -/
theorem pass (passes : ∀ {want}, d.Passes chk want mid finish) :
    Flows chk given frags start finish first (second.wrote d) :=
  flows.wrote fun _ _ _ => passes

theorem mark (defined : label < labels second.directives)
    (known : ∀ want, given want → want.marks label = mid) :
    Flows chk given frags start mid first (second.wrote (.mark label)) := by
  refine flows.steps fun want _ holds => ?_
  have same := known want holds
  have marked : Directive.Steps chk want second.directives.reverse (.mark label)
      (want.marks label) (want.marks label) :=
    .mark (.refl _) (by rwa [labels_reverse])
  rwa [same] at marked

end

theorem beginTry (flows : Flows chk given frags start [] first second) :
    Flows chk given frags start [] first (second.wrote .beginTry) := by
  have single : Flows chk given [] [] [] second (second.wrote .beginTry) := by
    refine ⟨_, _, .single second (fun _ => []) fun want _ _ agrees => ?_⟩
    have own : ∀ label, labels second.directives ≤ label →
        label < labels second.directives + 2 → want.marks label = [] := by
      intro label above _
      refine agrees label above ?_
      simp only [Draft.wrote, labels_cons, labelCount]
      omega
    refine .beginTry (.refl []) ?_ ?_
    · rw [labels_reverse]
      exact own _ (Nat.le_refl _) (by omega)
    · rw [labels_reverse]
      exact own _ (by omega) (by omega)
  have both := flows.trans single
  rwa [append_nil] at both

theorem label (shape : Shape) (numbered : first.nextLabel = labels first.directives)
    (flows : Flows chk (fun want => given want ∧ want.marks first.nextLabel = shape) frags start
      finish (first.wrote .defineLabel) second) :
    Flows chk given frags start finish first second := by
  obtain ⟨_, marks, flow⟩ := flows
  have more : labels first.directives < labels second.directives := by
    have bound := labels_le_of_suffix flow.directives
    simp only [Draft.wrote, labels_cons, labelCount] at bound
    omega
  have defined : Flow chk (fun want => given want ∧ want.marks first.nextLabel = shape) [] start
      start first (first.wrote .defineLabel) _ fun _ => shape :=
    Flow.single first _ fun _ _ _ _ => .passes (.refl start) (.defineLabel start)
  have whole := defined.trans flow
  refine ⟨_, fun label => if label < labels (first.wrote .defineLabel).directives then
    shape else marks label, whole.directives, whole.starts, whole.ends, ?_, whole.stands⟩
  intro want knows holds agrees
  refine whole.steps want knows ⟨holds, ?_⟩ agrees
  rw [agrees first.nextLabel (by omega) (by omega)]
  exact if_pos (by simp [Draft.wrote, labelCount, numbered])

section

variable (flows : Flows chk given frags start finish first second)

include flows

/-- A draft that differs in its free local variables only is reached as well. -/
theorem congr (same : third.directives = second.directives) :
    Flows chk given frags start finish first third := by
  obtain ⟨shapes, marks, flow⟩ := flows
  have decl : third.declared = second.declared := by rw [Draft.declared, same, Draft.declared]
  refine ⟨shapes, marks, same ▸ flow.directives, flow.starts, same ▸ flow.ends, ?_, ?_⟩
  · intro want knows holds agrees
    rw [same] at agrees ⊢
    refine flow.steps want ?_ holds agrees
    intro slot type known
    exact knows slot type (decl ▸ known)
  · intro fragment mem
    exact (flow.stands fragment mem).widen suffix_rfl (same ▸ suffix_rfl) fun _ _ _ => rfl

theorem released (held : Option Scratch) :
    Flows chk given frags start finish first (second.released held) :=
  flows.congr (by cases held <;> rfl)

theorem taken (type : Ty) (isTemporary : Bool) :
    Flows chk given frags start finish first (second.taken type isTemporary).2 := by
  have decl : Flows chk given frags start finish first (second.wrote (.declareLocal type)) :=
    flows.pass (.declareLocal type finish)
  unfold Draft.taken
  split
  · cases isTemporary <;> exact flows.congr rfl
  · cases isTemporary <;> exact decl.congr rfl

end

theorem ofExpression (code : Code chk.types (.one val) first second)
    (flows : Flows chk given frags start (start.called val.type) first second) :
    Flows chk given (.expression val :: frags) start (start.called val.type) first
      second := by
  obtain ⟨shapes, marks, flow⟩ := flows
  refine ⟨shapes, marks, flow.directives, flow.starts, flow.ends, flow.steps, ?_⟩
  intro fragment mem
  rcases mem_cons.mp mem with rfl | inner
  · refine ⟨first, second, code, ⟨suffix_rfl, flow.directives, suffix_rfl⟩, ?_⟩
    dsimp only
    rw [flow.ends.length_eq, flow.starts, Shape.length_called]
    rfl
  · exact flow.stands fragment inner

theorem ofStatement {around} (sameTypes : around.types = chk.types)
    (code : BodyCode around (.one act) first second)
    (flows : Flows chk given frags [] [] first second) :
    Flows chk given (.statement act :: frags) [] [] first second := by
  obtain ⟨shapes, marks, flow⟩ := flows
  refine ⟨shapes, marks, flow.directives, flow.starts, flow.ends, flow.steps, ?_⟩
  intro fragment mem
  rcases mem_cons.mp mem with rfl | inner
  · refine ⟨around, first, second, sameTypes, code,
      ⟨suffix_rfl, flow.directives, suffix_rfl⟩, ?_, ?_⟩
    · dsimp only
      rw [flow.starts]
      rfl
    · exact flow.ends.length_eq
  · exact flow.stands fragment inner

theorem suffix (flows : Flows chk given frags start finish first second) :
    first.directives <:+ second.directives := by
  obtain ⟨_, _, flow⟩ := flows
  exact flow.directives

end

end Flows

end Emission

end HostScript
