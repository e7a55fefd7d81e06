import HostScript.Proofs.Assembly.Decoding
import HostScript.Proofs.Emission.Shape

namespace HostScript

open List

/-!
# Heights of the stack

`Program.Verifies` states what a verifier of code checks of the heights of the stack, with the
instructions as they are read back from the code.
-/

namespace Op

/-- The entries that an operation takes from the stack. -/
def pops : Op → Operand → Nat
  | .getProperty, .property property => property.params.length + 1
  | .getStaticProperty, .property property => property.params.length
  | .setProperty, .property property => property.params.length + 2
  | .setStaticProperty, .property property => property.params.length + 1
  | .call, .method method => method.params.length
  | .callVirtual, .method method => method.params.length + 1
  | .loadElement, .rank rank => rank + 1
  | .storeElement, .rank rank => rank + 2
  | .pop, _ | .dup, _ | .storeLocal, _ | .loadField, _ | .storeStaticField, _ | .newArray, _
  | .lateGet, _ | .negate, _ | .complement, _ | .convert, _ | .box, _ | .unbox, _
  | .castClass, _ | .jumpIfTrue, _ | .jumpIfFalse, _ => 1
  | .storeField, _ | .lateSet, _ | .lateCall, _ | .add, _ | .subtract, _ | .multiply, _
  | .divide, _ | .remainder, _ | .bitAnd, _ | .bitOr, _ | .equal, _ | .greater, _ | .less, _
  | .stateGet, _ => 2
  | .stateSet, _ => 3
  | _, _ => 0

/-- The entries that an operation puts on the stack. -/
def pushes : Op → Operand → Nat
  | .call, .method method | .callVirtual, .method method => if method.returnsValue then 1 else 0
  | .dup, _ => 2
  | .push, _ | .pushNull, _ | .loadHost, _ | .loadLocal, _ | .loadLocalAddress, _
  | .loadField, _ | .loadStaticField, _ | .getProperty, _ | .getStaticProperty, _
  | .loadElement, _ | .newArray, _ | .lateGet, _ | .lateCall, _ | .add, _ | .subtract, _
  | .multiply, _ | .divide, _ | .remainder, _ | .bitAnd, _ | .bitOr, _ | .equal, _
  | .greater, _ | .less, _ | .negate, _ | .complement, _ | .convert, _ | .box, _ | .unbox, _
  | .castClass, _ | .stateGet, _ => 1
  | _, _ => 0

/-- Whether an operation can go on with the instruction after it. -/
def fallsThrough : Op → Bool
  | .jump | .leave | .endFinally | .ret => false
  | _ => true

theorem decoded {other} (same : ofCode? other.code = some op) : other = op :=
  Option.some.inj ((ofCode?_code other).symm.trans same)

end Op

namespace Program

def Has (prog : Program) (pos : Nat) (op : Op) (operand : Operand) : Prop :=
  (pos, some (op.code, operand)) ∈ prog.scan

def IsBoundary (prog : Program) (pos : Nat) : Prop :=
  ∃ entry ∈ prog.scan, entry.1 = pos

/-- The positions where an instruction leads, unless it fails. -/
inductive Edge (prog : Program) (pos : Nat) (op : Op) (operand : Operand) : Nat → Prop
  | next (present : prog.Has pos op operand) (falls : op.fallsThrough = true) :
      Edge prog pos op operand (pos + Code.size op.code)
  | jump {target} (present : prog.Has pos op operand)
      (isTarget : operand = .position target) (jumps : op ≠ .tryRegion) :
      Edge prog pos op operand target
  /-- What is left in a region leads to its handler first. -/
  | handled {start target} (present : prog.Has pos op operand)
      (leaves : op = .leave) (entered : prog.Has start .tryRegion (.position target))
      (inside : start < pos ∧ pos < target) :
      Edge prog pos op operand target
  /-- The end of a handler leads where its region was left to. -/
  | resumed {source target} (present : prog.Has pos op operand)
      (ends : op = .endFinally) (left : prog.Has source .leave (.position target)) :
      Edge prog pos op operand target

/-- An operand is in its pool; a local variable is one of the program's. -/
def Operand.IsInside (prog : Program) : Operand → Prop
  | .slot number => number < prog.locals.size
  | _ => True

/-- The heights of the stack are right at all positions. -/
structure Verifies (prog : Program) (height : Nat → Nat) : Prop where
  start : height 0 = 0
  operands : ∀ entry ∈ prog.scan, ∃ (op : Op) (operand : Operand),
    entry.2 = some (op.code, operand) ∧ Operand.IsInside prog operand
  edges : ∀ {pos : Nat} {op : Op} {operand : Operand} {target : Nat},
    prog.Edge pos op operand target → prog.IsBoundary target ∧ op.pops operand ≤ height pos ∧
        height target = height pos - op.pops operand + op.pushes operand
  /-- The handler of a failure starts with an empty stack. -/
  raised : ∀ {pos target : Nat}, prog.Has pos .tryRegion (.position target) →
    prog.IsBoundary target ∧ height target = 0
  returns : ∀ {pos : Nat} {operand : Operand}, prog.Has pos .ret operand →
    pos + 1 = prog.code.size ∧ height pos = 0

end Program

namespace Directive

variable {op : Op} {chk : Checker} {want : Expectation} {start finish : Shape}
  {pre : List Directive} {d : Directive} {pos : Nat}

theorem Passes.height (passes : d.Passes chk want start finish)
    (writes : Writes ds pre d byte arg) (found : Op.ofCode? byte = some op) :
    op ≠ .ret ∧ (op = .leave ∨ op = .endFinally → start.length = 0) ∧ op.pops arg ≤ start.length ∧
      (op.fallsThrough → finish.length = start.length - op.pops arg + op.pushes arg) := by
  cases passes with
  | declareLocal | defineLabel => cases writes
  | constant =>
    cases writes with
    | null | constant => cases Op.decoded found; simp [Op.pops, Op.pushes]
  | pop | loadHost | loadLocal | storeLocal | loadLocalAddress | loadField | loadStaticField
  | storeField | storeStaticField | newArray | lateGet | lateSet | lateCall | equal | negate
  | complement | convert | box | unbox | castClass | stateGet | stateSet | getStaticProperty
  | setStaticProperty | jump | leave | beginFinally | endTry =>
    cases writes
    cases Op.decoded found
    simp [Op.pops, Op.pushes, Op.fallsThrough]
  | getProperty | setProperty | loadElement | storeElement =>
    cases writes
    cases Op.decoded found
    simp only [Op.pops, Op.pushes, Shape.length_pushed, length_cons, length_replicate]
    exact ⟨nofun, nofun, by omega, fun _ => by omega⟩
  | call | callVirtual =>
    cases writes
    cases Op.decoded found
    simp only [Op.pops, Op.pushes, Shape.length_pushed, length_cons, Shape.length_called,
      Method.returnsValue_eq, Bool.not_eq_true', decide_eq_false_iff_not, ite_not]
    exact ⟨nofun, nofun, by omega, fun _ => by omega⟩
  | arithmetic _ computes =>
    have known : ∀ op ∈ [Op.add, .subtract, .multiply, .divide, .remainder, .bitAnd, .bitOr],
        op ≠ .ret ∧ ¬(op = .leave ∨ op = .endFinally) ∧ op.pops .absent = 2 ∧
          op.pushes .absent = 1 := by decide
    cases writes
    cases Op.decoded found
    obtain ⟨notRet, notBorder, pops, pushes⟩ := known _ (by
      rcases computes with isMember | ⟨isMember, _⟩
      · exact mem_append_left [Op.bitAnd, .bitOr] isMember
      · exact mem_append_right [Op.add, .subtract, .multiply, .divide, .remainder] isMember)
    simp [notRet, notBorder, pops, pushes]
  | order _ orders =>
    cases writes
    cases Op.decoded found
    rcases orders with rfl | rfl <;> simp [Op.pops, Op.pushes]
  | jumpIf decides =>
    cases writes
    cases Op.decoded found
    rcases decides with rfl | rfl <;> simp [Op.pops, Op.pushes]

section

variable (steps : d.Steps chk want pre start finish)

include steps

theorem Steps.height (writes : Writes ds pre d byte arg) (found : Op.ofCode? byte = some op) :
    op ≠ .ret ∧ (op = .leave ∨ op = .endFinally → start.length = 0) ∧ op.pops arg ≤ start.length ∧
      (op.fallsThrough → finish.length = start.length - op.pops arg + op.pushes arg) := by
  cases steps with
  | passes suits passes =>
    rw [suits.length_eq]
    exact passes.height writes found
  | mark => cases writes
  | beginTry suits =>
    cases writes
    rw [Op.ofCode?_code] at found
    cases found
    simp [suits.length_eq, Op.pops, Op.pushes]

theorem Steps.silent (empty : d.size = 0) : finish.length = start.length := by
  cases steps with
  | passes suits passes =>
    rw [suits.length_eq]
    cases passes with
    | declareLocal | defineLabel => rfl
    | @constant val => cases val <;> cases empty
    | _ => cases empty
  | mark suits => exact suits.length_eq.symm
  | beginTry => cases empty

theorem Steps.isClassed : d.IsClassed := by
  cases steps with
  | passes _ passes =>
    cases passes with
    | jumpIf decides => rcases decides with rfl | rfl <;> rfl
    | _ => trivial
  | mark | beginTry => trivial

end

theorem exists_beginTry (isOpen : part ∈ parts pre) :
    ∃ prev later, pre = prev ++ .beginTry :: later ∧ part.label = labels prev := by
  induction pre using List.reverseRecOn generalizing part with
  | nil => cases isOpen
  | append_singleton pre last ih =>
    have more : ∀ {part : Part}, part ∈ parts pre → ∃ prev later,
        pre ++ [last] = prev ++ .beginTry :: later ∧ part.label = labels prev := by
      intro part mem
      obtain ⟨prev, later, rfl, same⟩ := ih mem
      exact ⟨prev, later ++ [last], by simp, same⟩
    rw [parts_concat] at isOpen
    cases last with
    | beginTry =>
      rcases mem_cons.mp isOpen with rfl | outer
      · exact ⟨pre, [], rfl, rfl⟩
      · exact more outer
    | beginFinally =>
      cases shape : parts pre with
      | nil =>
        rw [shape] at isOpen
        cases isOpen
      | cons _ outer =>
        rw [shape] at isOpen more
        rcases mem_cons.mp isOpen with rfl | mem
        · obtain ⟨prev, later, same, label⟩ := more (mem_cons_self (l := outer))
          exact ⟨prev, later, same, label⟩
        · exact more (mem_cons_of_mem _ mem)
    | endTry => exact more (mem_of_mem_tail isOpen)
    | _ => exact more isOpen

/-- Every directive of a list has a shape before and after it. -/
structure Shaped (checker : Checker) (expected : Expectation) (directives : List Directive)
    (shapes : Nat → Shape) : Prop where
  starts : shapes 0 = []
  ends : (shapes directives.length).length = 0
  steps : ∀ {before directive rest}, directives = before ++ directive :: rest →
    directive.Steps checker expected before (shapes before.length) (shapes (before.length + 1))

/-- The height at a position: that of the first place between directives that has it. -/
def heightAt (directives : List Directive) (shapes : Nat → Shape) (pos : Nat) : Nat :=
  let place? := (List.range (directives.length + 1)).find? fun place =>
    extent (directives.take place) == pos
  (shapes (place?.getD 0)).length

namespace Shaped

variable {shapes : Nat → Shape}

section

variable (shaped : Shaped chk want ds shapes)

include shaped

theorem length_eq_of_extent (pre between after : List Directive)
    (split : ds = pre ++ between ++ after) (empty : extent between = 0) :
    (shapes (pre ++ between).length).length = (shapes pre.length).length := by
  induction between using List.reverseRecOn generalizing after with
  | nil => rw [append_nil]
  | append_singleton between last ih =>
    rw [extent_append, extent_cons] at empty
    have steps := shaped.steps (show ds = (pre ++ between) ++ last :: after by simp [split])
    have silent := steps.silent (by omega)
    have prev := ih (last :: after) (by simp [split]) (by omega)
    rw [← prev, ← silent]
    simp [Nat.add_assoc]

/-- Nothing but directives without code lies between two places of one extent. -/
theorem length_eq_of_prefix (shorter : first <+: second)
    (inside : second <+: ds) (same : extent second = extent first) :
    (shapes second.length).length = (shapes first.length).length := by
  obtain ⟨between, rfl⟩ := shorter
  obtain ⟨after, split⟩ := inside
  rw [extent_append] at same
  exact shaped.length_eq_of_extent first between after split.symm (by omega)

theorem heightAt_extent {pre after} (split : ds = pre ++ after) :
    heightAt ds shapes (extent pre) = (shapes pre.length).length := by
  have inside : pre.length < ds.length + 1 := by
    rw [split, length_append]
    omega
  have taken : ds.take pre.length = pre := by simp [split]
  unfold heightAt
  dsimp only
  cases found : (List.range (ds.length + 1)).find? fun place =>
      extent (ds.take place) == extent pre with
  | none =>
    have absent := find?_eq_none.mp found pre.length (mem_range.mpr inside)
    simp [taken] at absent
  | some place =>
    have same : extent (ds.take place) = extent pre := by
      simpa using find?_some found
    have bound := mem_range.mp (mem_of_find?_eq_some found)
    have length : (ds.take place).length = place := by
      rw [length_take]
      omega
    rw [Option.getD_some, ← length]
    rcases Nat.le_total place pre.length with prev | later
    · have leading : ds.take place <+: pre := taken ▸ take_prefix_take_left prev
      exact (shaped.length_eq_of_prefix leading ⟨after, split.symm⟩ same.symm).symm
    · have leading : pre <+: ds.take place := by
        rw [← taken]
        exact take_prefix_take_left later
      refine shaped.length_eq_of_prefix leading ?_ same
      exact take_prefix _ _

end

end Shaped

theorem Steps.known (steps : d.Steps chk want pre start finish) {byte arg}
    (writes : Writes ds pre d byte arg) :
    (∃ op : Op, byte = op.code) ∧ ∀ num, arg = .slot num → ∃ type, want.slots num = some type := by
  cases steps with
  | passes _ passes =>
    cases passes with
    | declareLocal | defineLabel => cases writes
    | constant => cases writes <;> exact ⟨⟨_, rfl⟩, nofun⟩
    | loadLocal _ known | storeLocal _ known | loadLocalAddress _ known =>
      cases writes
      refine ⟨⟨_, rfl⟩, ?_⟩
      rintro num ⟨⟩
      exact ⟨_, known⟩
    | _ =>
      cases writes
      exact ⟨⟨_, rfl⟩, nofun⟩
  | mark => cases writes
  | beginTry =>
    cases writes
    exact ⟨⟨_, rfl⟩, nofun⟩

theorem Steps.target (steps : (jump byte label).Steps chk want pre start finish)
    (found : Op.ofCode? byte = some op) (tgt : Nat) :
    op ≠ .tryRegion ∧ (want.marks label).length =
        start.length - op.pops (.position tgt) + op.pushes (.position tgt) := by
  cases steps with
  | passes suits passes =>
    rw [suits.length_eq]
    cases passes with
    | jump =>
      cases Op.decoded found
      exact ⟨nofun, rfl⟩
    | jumpIf decides =>
      cases Op.decoded found
      rcases decides with rfl | rfl <;> exact ⟨nofun, rfl⟩
    | leave _ out =>
      cases Op.decoded found
      exact ⟨nofun, by rw [out]; rfl⟩

theorem Steps.of_mark (steps : Steps chk want pre (.mark label) start finish) :
    label < labels pre ∧ start.length = (want.marks label).length := by
  cases steps with
  | passes _ passes => cases passes
  | mark suits defined => exact ⟨defined, suits.length_eq⟩

theorem Steps.of_beginTry (steps : Steps chk want pre .beginTry start finish) :
    want.marks (labels pre) = [] ∧ want.marks (labels pre + 1) = [] := by
  cases steps with
  | passes _ passes => cases passes
  | beginTry _ handler exit => exact ⟨handler, exit⟩

theorem Steps.of_isBorder (steps : d.Steps chk want pre start finish)
    (isBorder : d.isBorder) : start.length = 0 ∧ finish = [] := by
  cases steps with
  | passes suits passes =>
    cases passes with
    | beginFinally | endTry => exact ⟨suits.length_eq, rfl⟩
    | _ => cases isBorder
  | mark => cases isBorder
  | beginTry suits => exact ⟨suits.length_eq, rfl⟩

theorem Writes.byte_eq (writes : Writes ds pre d byte arg)
    (again : Writes ds pre d other otherOperand) : byte = other := by
  cases writes with
  | null =>
    cases again with
    | null => rfl
    | constant notNull => exact absurd rfl notNull
  | constant notNull =>
    cases again with
    | null => exact absurd rfl notNull
    | constant => rfl
  | _ =>
    cases again
    rfl

theorem Lists.exists_of_mem (lists : Lists ds pre rest instructions)
    {instruction? : Option (UInt8 × Operand)} (present : (pos, instruction?) ∈ instructions) :
    ∃ first d second byte arg, rest = first ++ d :: second ∧
      pos = extent (pre ++ first) ∧ instruction? = some (byte, arg) ∧
      0 < d.size ∧ Writes ds (pre ++ first) d byte arg := by
  induction lists with
  | done => cases present
  | @silent pre rest d instructions _ _ ih =>
    obtain ⟨first, other, second, byte, arg, rfl, place, found⟩ := ih present
    exact ⟨d :: first, other, second, byte, arg, rfl, by simpa using place, by simpa using found⟩
  | @wrote pre rest d op arg instructions writes wrote _ ih =>
    rcases mem_cons.mp present with same | later
    · cases same
      exact ⟨[], d, rest, op, arg, rfl, by simp, rfl, writes, by simpa using wrote⟩
    · obtain ⟨first, other, second, byte, arg, rfl, place, found⟩ := ih later
      exact ⟨d :: first, other, second, byte, arg, rfl, by simpa using place, by simpa using found⟩

theorem split_returning (split : leading ++ [last] = pre ++ d :: rest) :
    (pre = leading ∧ d = last ∧ rest = []) ∨ ∃ more, leading = pre ++ d :: more := by
  rcases eq_nil_or_concat rest with rfl | ⟨more, final, rfl⟩
  · obtain ⟨same, tail⟩ := append_inj_left' split rfl, append_inj_right' split rfl
    cases tail
    exact .inl ⟨same.symm, rfl, rfl⟩
  · refine .inr ⟨more, ?_⟩
    have longer : leading ++ [last] = (pre ++ d :: more) ++ [final] := by
      simpa using split
    exact append_inj_left' longer rfl

namespace Shaped

open Assembly (assemble)

variable {leading : List Directive} {shapes : Nat → Shape} {prog : Program}

section

variable (shaped : Shaped chk want leading shapes)

include shaped

theorem ownsMarks : OwnsMarks (leading ++ [.plain Op.ret]) := by
  intro _ _ _ split
  rcases split_returning split with ⟨_, absurd, _⟩ | ⟨_, inside⟩
  · cases absurd
  · exact (shaped.steps inside).of_mark.1

theorem isClassed : ∀ d ∈ leading ++ [.plain Op.ret], d.IsClassed := by
  intro d mem
  obtain ⟨_, _, split⟩ := append_of_mem mem
  rcases split_returning split with ⟨_, rfl, _⟩ | ⟨_, inside⟩
  · trivial
  · exact (shaped.steps inside).isClassed

theorem bare_of_isOpen {pre after}
    (split : leading = pre ++ after) {part} (isOpen : part ∈ parts pre) :
    want.marks part.label = [] ∧ want.marks (part.label + 1) = [] := by
  obtain ⟨prev, later, rfl, same⟩ := exists_beginTry isOpen
  rw [same]
  exact (shaped.steps (show leading = prev ++ .beginTry :: (later ++ after) by
    simp [split])).of_beginTry

theorem marks (marked : Marks (leading ++ [.plain Op.ret]) label pos) :
    ∃ first second, leading = first ++ second ∧ pos = extent first ∧
      (shapes first.length).length = (want.marks label).length := by
  obtain ⟨pre, d, _, split, means⟩ := marked
  rcases split_returning split with ⟨_, rfl, _⟩ | ⟨more, inside⟩
  · cases means
  have steps := shaped.steps inside
  have next : leading = (pre ++ [d]) ++ more := by simp [inside]
  have afterBorder : d.isBorder → want.marks label = [] →
      (shapes (pre ++ [d]).length).length = (want.marks label).length := by
    intro isBorder bare
    rw [length_append, length_singleton, (steps.of_isBorder isBorder).2, bare]
  cases d with
  | mark _ =>
    cases means
    exact ⟨pre, _, inside, rfl, steps.of_mark.2⟩
  | beginFinally | endTry =>
    obtain ⟨_, isOpen, same⟩ := Option.map_eq_some_iff.mp means
    obtain ⟨_, _⟩ := shaped.bare_of_isOpen inside (mem_of_head? isOpen)
    cases same
    exact ⟨_, more, next, by simp, afterBorder rfl (by assumption)⟩
  | _ => cases means

end

section

variable (shaped : Shaped chk want leading shapes)
  (asm : assemble (leading ++ [.plain Op.ret]) = .ok prog)

include shaped asm

theorem lists_scan : Lists (leading ++ [.plain Op.ret]) [] (leading ++ [.plain Op.ret]) prog.scan :=
  Assembly.lists_scanFrom asm shaped.ownsMarks shaped.isClassed (nil_append _).symm
    (Nat.le_of_eq (Assembly.assemble_size asm).symm)

/-- An instruction starts at every place before the return. -/
theorem isBoundary (split : leading = first ++ second) : prog.IsBoundary (extent first) := by
  have whole : leading ++ [.plain Op.ret] = first ++ (second ++ [.plain Op.ret]) := by
    simp [split]
  rcases (shaped.lists_scan asm).boundary whole with found | atEnd
  · exact found
  · simp [split] at atEnd

theorem reached (marked : Marks (leading ++ [.plain Op.ret]) label pos) :
    prog.IsBoundary pos ∧ heightAt leading shapes pos = (want.marks label).length := by
  obtain ⟨_, _, split, rfl, height⟩ := shaped.marks marked
  exact ⟨shaped.isBoundary asm split, (shaped.heightAt_extent split).trans height⟩

variable {pos : Nat}

theorem exists_of_mem_scan {instruction? : Option (UInt8 × Operand)}
    (present : (pos, instruction?) ∈ prog.scan) :
    (pos = extent leading ∧ instruction? = some (Op.ret.code, .absent)) ∨
      ∃ pre d more byte arg, leading = pre ++ d :: more ∧
        pos = extent pre ∧ instruction? = some (byte, arg) ∧ Code.size byte = d.size ∧
        Writes (leading ++ [.plain Op.ret]) pre d byte arg := by
  obtain ⟨pre, d, _, byte, arg, split, rfl, rfl, writes, wrote⟩ :=
    (shaped.lists_scan asm).exists_of_mem present
  rcases split_returning split with ⟨rfl, rfl, _⟩ | ⟨more, inner⟩
  · cases wrote
    exact .inl ⟨rfl, rfl⟩
  · obtain ⟨_, _, _, _, length, again⟩ := Assembly.exists_instruction asm
      shaped.ownsMarks split (shaped.isClassed d (by simp [inner])) writes
    rw [again.byte_eq wrote] at length
    exact .inr ⟨pre, d, more, byte, arg, inner, rfl, rfl, length, wrote⟩

variable {op : Op}

theorem exists_of_has (present : prog.Has pos op arg) (goesOn : ¬(op = .ret ∧ arg = .absent)) :
    ∃ pre d more, leading = pre ++ d :: more ∧ pos = extent pre ∧ Code.size op.code = d.size ∧
      Writes (leading ++ [.plain Op.ret]) pre d op.code arg := by
  rcases shaped.exists_of_mem_scan asm present with
    ⟨_, same⟩ | ⟨pre, d, more, byte, _, inner, place, same, length, wrote⟩
  · injection same with same
    injection same with same absent
    have decoded := Op.ofCode?_code op
    rw [same, Op.ofCode?_code] at decoded
    exact absurd ⟨(Option.some.inj decoded).symm, absent⟩ goesOn
  · cases same
    exact ⟨pre, d, more, inner, place, length, wrote⟩

theorem jumped (present : prog.Has pos op (.position tgt)) (jumps : op ≠ .tryRegion) :
    prog.IsBoundary tgt ∧ heightAt leading shapes tgt =
      heightAt leading shapes pos - op.pops (.position tgt) + op.pushes (.position tgt) := by
  obtain ⟨pre, d, _, inner, rfl, _, wrote⟩ := shaped.exists_of_has asm present nofun
  have steps := shaped.steps inner
  rw [shaped.heightAt_extent inner]
  have found := Op.ofCode?_code op
  generalize op.code = byte at wrote found
  cases wrote with
  | jump marked =>
    obtain ⟨boundary, height⟩ := shaped.reached asm marked
    exact ⟨boundary, height.trans (steps.target found tgt).2⟩
  | beginTry =>
    rw [Op.ofCode?_code] at found
    exact absurd (Option.some.inj found).symm jumps
  | @beginFinally part _ _ opened marked =>
    rw [Op.ofCode?_code] at found
    cases found
    obtain ⟨boundary, height⟩ := shaped.reached asm marked
    have bare := shaped.bare_of_isOpen inner (show part ∈ parts pre by
      rw [opened]
      exact mem_cons_self)
    exact ⟨boundary, by rw [height, bare.2, (steps.of_isBorder rfl).1]; rfl⟩

theorem left (present : prog.Has pos op arg) (own : op = .leave ∨ op = .endFinally) :
    heightAt leading shapes pos = 0 := by
  obtain ⟨_, d, _, inner, rfl, _, wrote⟩ :=
    shaped.exists_of_has asm present (by rcases own with rfl | rfl <;> nofun)
  rw [shaped.heightAt_extent inner]
  exact ((shaped.steps inner).height wrote (Op.ofCode?_code _)).2.1 own

theorem raised (present : prog.Has pos .tryRegion (.position tgt)) :
    prog.IsBoundary tgt ∧ heightAt leading shapes tgt = 0 := by
  obtain ⟨_, d, _, inner, rfl, _, wrote⟩ := shaped.exists_of_has asm present nofun
  have steps := shaped.steps inner
  have found := Op.ofCode?_code .tryRegion
  generalize Op.code .tryRegion = byte at wrote found
  cases wrote with
  | jump => exact absurd rfl (steps.target found tgt).1
  | beginTry marked =>
    obtain ⟨boundary, height⟩ := shaped.reached asm marked
    exact ⟨boundary, by rw [height, steps.of_beginTry.1]; rfl⟩
  | beginFinally =>
    rw [Op.ofCode?_code] at found
    cases found

theorem verifies (inside : ∀ slot type, want.slots slot = some type → slot < prog.locals.size) :
    prog.Verifies (heightAt leading shapes) := by
  refine ⟨?_, ?_, ?_, fun present => shaped.raised asm present, ?_⟩
  · have atStart := shaped.heightAt_extent (nil_append leading).symm
    rw [extent_nil, length_nil, shaped.starts] at atStart
    exact atStart
  · rintro ⟨pos, _⟩ present
    rcases shaped.exists_of_mem_scan asm present with
      ⟨_, rfl⟩ | ⟨pre, d, more, byte, arg, inner, _, rfl, _, wrote⟩
    · exact ⟨.ret, .absent, rfl, trivial⟩
    · obtain ⟨⟨op, rfl⟩, slots⟩ := (shaped.steps inner).known wrote
      refine ⟨op, arg, rfl, ?_⟩
      cases arg with
      | slot num =>
        obtain ⟨type, known⟩ := slots num rfl
        exact inside num type known
      | _ => trivial
  · intro pos op arg _ edge
    have taken : ∀ {op : Op} {arg : Operand}, prog.Has pos op arg →
        op.pops arg ≤ heightAt leading shapes pos := by
      intro op arg present
      by_cases isReturn : op = .ret ∧ arg = .absent
      · rw [isReturn.1]
        exact Nat.zero_le _
      · obtain ⟨pre, d, more, inner, rfl, _, wrote⟩ := shaped.exists_of_has asm present isReturn
        rw [shaped.heightAt_extent inner]
        exact ((shaped.steps inner).height wrote (Op.ofCode?_code op)).2.2.1
    cases edge with
    | next present falls =>
      obtain ⟨pre, d, more, inner, rfl, size, wrote⟩ :=
        shaped.exists_of_has asm present (by rintro ⟨rfl, _⟩; cases falls)
      have next : leading = (pre ++ [d]) ++ more := by simp [inner]
      have place : extent pre + Code.size op.code = extent (pre ++ [d]) := by
        simp [size]
      have height := shaped.heightAt_extent next
      rw [length_append, length_singleton,
        ((shaped.steps inner).height wrote (Op.ofCode?_code op)).2.2.2 falls] at height
      refine ⟨place ▸ shaped.isBoundary asm next, taken present, ?_⟩
      rw [place, height, shaped.heightAt_extent inner]
    | jump present isTarget jumps =>
      subst isTarget
      obtain ⟨boundary, height⟩ := shaped.jumped asm present jumps
      exact ⟨boundary, taken present, height⟩
    | handled present leaves entered =>
      subst leaves
      obtain ⟨boundary, height⟩ := shaped.raised asm entered
      exact ⟨boundary, taken present, by
        rw [height, shaped.left asm present (Or.inl rfl)]; rfl⟩
    | resumed present ends left =>
      subst ends
      obtain ⟨boundary, height⟩ := shaped.jumped asm left nofun
      exact ⟨boundary, taken present, by
        rw [height, shaped.left asm left (Or.inl rfl), shaped.left asm present (Or.inr rfl)]; rfl⟩
  · intro pos arg present
    rcases shaped.exists_of_mem_scan asm present with
      ⟨rfl, _⟩ | ⟨pre, d, more, byte, arg, inner, rfl, same, _, wrote⟩
    · refine ⟨?_, (shaped.heightAt_extent (append_nil leading).symm).trans shaped.ends⟩
      rw [Assembly.assemble_size asm]
      simp
    · cases same
      exact absurd rfl ((shaped.steps inner).height wrote (Op.ofCode?_code .ret)).1

end

end Shaped

end Directive

end HostScript
