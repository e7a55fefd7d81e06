import HostScript.Proofs.Assembly.Layout

namespace HostScript

open List

/-!
# Parts of a program

The borders of protected regions divide directives into parts that lie inside of each other: the
protected part of a region and its handler.
-/

/-- A part that is open: the protected part of a region, or its handler. -/
structure Part where
  label : Nat
  /-- The position where the protected part starts. -/
  start : Nat
  isHandler : Bool
  deriving Repr, DecidableEq

namespace Part

def drafted (part : Part) : Assembly.Region :=
  { handler := part.label, exit := part.label + 1, inHandler := part.isHandler }

def handler (part : Part) : Part :=
  { part with isHandler := true }

end Part

variable {part : Part}

namespace Directive

def partsAfter (labels pos : Nat) (parts : List Part) : Directive → List Part
  | .beginTry => { label := labels, start := pos + 3, isHandler := false } :: parts
  | .beginFinally =>
    match parts with
    | [] => []
    | part :: outer => part.handler :: outer
  | .endTry => parts.tail
  | _ => parts

def partsOfReversed : List Directive → List Part
  | [] => []
  | last :: earlier =>
    last.partsAfter (labels earlier) (extent earlier) (partsOfReversed earlier)

def parts (directives : List Directive) : List Part :=
  partsOfReversed directives.reverse

theorem parts_concat (ds : List Directive) (last : Directive) :
    parts (ds ++ [last]) = last.partsAfter (labels ds) (extent ds) (parts ds) := by
  simp [parts, partsOfReversed]

theorem partsAfter_of_not_isBorder {d : Directive} (inner : d.isBorder = false)
    (labels pos : Nat) (parts : List Part) : d.partsAfter labels pos parts = parts := by
  cases d <;> first | rfl | cases inner

theorem parts_append (ds : List Directive) (inner : ∀ d ∈ more, d.isBorder = false) :
    parts (ds ++ more) = parts ds := by
  induction more using List.reverseRecOn with
  | nil => rw [append_nil]
  | append_singleton more last ih =>
    rw [← append_assoc, parts_concat, partsAfter_of_not_isBorder (inner last (by simp))]
    exact ih fun d mem => inner d (by simp [mem])

section

/-- What is open was begun before, at different places. -/
theorem start_pairwise (ds : List Directive) :
    (∀ part ∈ parts ds, part.start ≤ extent ds ∧ part.label + 1 < labels ds) ∧
      (parts ds).Pairwise fun inner outer => outer.start < inner.start := by
  induction ds using List.reverseRecOn with
  | nil => exact ⟨fun _ mem => absurd mem not_mem_nil, .nil⟩
  | append_singleton ds last ih =>
    obtain ⟨bounded, ordered⟩ := ih
    have wider : ∀ part ∈ parts ds, part.start ≤ extent (ds ++ [last]) ∧
        part.label + 1 < labels (ds ++ [last]) := by
      intro part mem
      have := bounded part mem
      simp only [extent_append, labels_append]
      omega
    by_cases isBorder : last.isBorder
    · rw [parts_concat]
      cases last with
      | beginTry =>
        simp only [partsAfter, mem_cons, forall_eq_or_imp, pairwise_cons]
        refine ⟨⟨by simp [labelCount], wider⟩, fun part mem => ?_, ordered⟩
        have := (bounded part mem).1
        omega
      | beginFinally =>
        simp only [partsAfter]
        split
        · exact ⟨fun _ mem => absurd mem not_mem_nil, .nil⟩
        · next part outer shape =>
          rw [shape] at wider ordered
          simp only [mem_cons, forall_eq_or_imp, pairwise_cons] at wider ordered ⊢
          exact ⟨wider, ordered⟩
      | endTry =>
        exact ⟨fun part mem => wider part (mem_of_mem_tail mem), ordered.sublist (tail_sublist _)⟩
      | _ => cases isBorder
    · rw [parts_concat, partsAfter_of_not_isBorder (by simpa using isBorder)]
      exact ⟨wider, ordered⟩

theorem start_le (mem : part ∈ parts ds) : part.start ≤ extent ds :=
  ((start_pairwise ds).1 part mem).1

theorem le_start_of_later (missing : ∀ other ∈ parts pre, other.start ≠ part.start)
    (mem : part ∈ parts (pre ++ more)) : extent pre + 3 ≤ part.start := by
  induction more using List.reverseRecOn generalizing part with
  | nil =>
    rw [append_nil] at mem
    exact absurd rfl (missing part mem)
  | append_singleton more last ih =>
    rw [← append_assoc, parts_concat] at mem
    by_cases isBorder : last.isBorder
    · cases last with
      | beginTry =>
        rcases mem_cons.mp mem with rfl | prev
        · simp
        · exact ih missing prev
      | beginFinally =>
        simp only [partsAfter] at mem
        split at mem
        · cases mem
        · next innermost _ shape =>
          rw [shape] at ih
          rcases mem_cons.mp mem with rfl | prev
          · exact @ih innermost missing mem_cons_self
          · exact ih missing (mem_cons_of_mem _ prev)
      | endTry => exact ih missing (mem_of_mem_tail mem)
      | _ => cases isBorder
    · rw [partsAfter_of_not_isBorder (by simpa using isBorder)] at mem
      exact ih missing mem

end

end Directive

namespace Assembly

open Draft
open Directive

theorem regions_drafted (ds : List Directive) (clean : (drafted ds).fault = none) :
    (drafted ds).regions = (parts ds).map Part.drafted := by
  induction ds using List.reverseRecOn with
  | nil => rfl
  | append_singleton ds last ih =>
    rw [drafted_concat] at clean ⊢
    have earlierClean := (step_extends _ last).fault clean
    have prev := ih earlierClean
    rw [parts_concat]
    by_cases isBorder : last.isBorder
    · cases last with
      | beginTry =>
        rw [step_beginTry, (drafted_counts ds earlierClean).labels]
        simp only [Draft.jump, Draft.instruction, Draft.byte, partsAfter, prev]
        rfl
      | beginFinally =>
        obtain ⟨handler, exit, outer, opened⟩ := opened_of_clean clean
        rw [step_beginFinally _ opened, regions_mark]
        rw [prev] at opened
        obtain ⟨⟨_, _, _⟩, rest, shape, same, rfl⟩ := map_eq_cons_iff.mp opened
        cases same
        simp only [partsAfter, shape]
        rfl
      | endTry =>
        obtain ⟨handler, exit, outer, entered⟩ := entered_of_clean clean
        rw [step_endTry _ entered, regions_mark]
        rw [prev] at entered
        obtain ⟨_, rest, shape, same, rfl⟩ := map_eq_cons_iff.mp entered
        simp only [partsAfter, shape]
        rfl
      | _ => cases isBorder
    · have inner : last.isBorder = false := by simpa using isBorder
      rw [(step_effect _ last clean).regions inner, prev,
        partsAfter_of_not_isBorder inner]

section

variable {after : List Directive} (asm : assemble ds = .ok prog)

include asm

theorem regions_of_assembled (split : ds = pre ++ after) :
    (drafted pre).regions = (parts pre).map Part.drafted := by
  have finished : finish (drafted ds) = .ok prog := asm
  refine regions_drafted pre ?_
  rw [split] at finished
  exact (drafted_extends pre after).fault (finish_eq_ok finished).1

/-- In the end nothing is open. -/
theorem parts_eq_nil : parts ds = [] := by
  have regions := regions_of_assembled asm (append_nil ds).symm
  have finished : finish (drafted ds) = .ok prog := asm
  have clean := (finish_eq_ok finished).1
  unfold finish at finished
  rw [clean] at finished
  dsimp only at finished
  split at finished
  · next closed =>
    rw [regions] at closed
    simpa using closed
  · cases finished

theorem beginTry_assembled (split : ds = pre ++ .beginTry :: after) :
    ∃ handler, target? ds (labels pre) = some handler ∧
      prog.HasInstruction (extent pre) Op.tryRegion handler := by
  subst split
  obtain ⟨pos, handler, marked, instruction⟩ := assemble_holds asm
  rw [(assemble_counts asm).labels] at marked
  exact ⟨handler, target?_eq_some.mpr marked, pos ▸ instruction⟩

theorem beginFinally_assembled (split : ds = pre ++ .beginFinally :: after) :
    ∃ part outer exit, parts pre = part :: outer ∧ part.isHandler = false ∧
      target? ds part.label = some (extent pre + 3) ∧ target? ds (part.label + 1) = some exit ∧
      prog.HasInstruction (extent pre) Op.leave exit := by
  have regions := regions_of_assembled asm split
  subst split
  obtain ⟨pos, _, exit, outer, tgt, opened, exitMarked, leaving, marked⟩ := assemble_holds asm
  rw [regions] at opened
  obtain ⟨⟨_, _, _⟩, rest, shape, same, _⟩ := map_eq_cons_iff.mp opened
  have defined := ((start_pairwise pre).1 _ (shape ▸ mem_cons_self)).2
  cases same
  have handlerMarked := marked (by
    rw [(assemble_counts asm).labels]
    omega)
  rw [pos] at handlerMarked leaving
  exact ⟨_, rest, tgt, shape, rfl, target?_eq_some.mpr handlerMarked,
    target?_eq_some.mpr exitMarked, leaving⟩

theorem endTry_assembled (split : ds = pre ++ .endTry :: after) :
    ∃ part outer, parts pre = part :: outer ∧ part.isHandler ∧
      target? ds (part.label + 1) = some (extent pre + 1) ∧
      prog.code[extent pre]? = some Op.endFinally.code := by
  have regions := regions_of_assembled asm split
  subst split
  obtain ⟨pos, _, _, outer, entered, ending, marked⟩ := assemble_holds asm
  rw [regions] at entered
  obtain ⟨⟨_, _, _⟩, rest, shape, same, _⟩ := map_eq_cons_iff.mp entered
  have defined := ((start_pairwise pre).1 _ (shape ▸ mem_cons_self)).2
  cases same
  have exitMarked := marked (by
    rw [(assemble_counts asm).labels]
    exact defined)
  rw [pos] at exitMarked ending
  exact ⟨_, rest, shape, rfl, target?_eq_some.mpr exitMarked, ending⟩

variable {inner : List Part}

/-- A part that is open ends further on: a protected part where its handler starts. -/
theorem exists_border (split : ds = pre ++ after) (opened : parts pre = inner ++ part :: outer) :
    ∃ between rest,
      ds = pre ++ between ++ (if part.isHandler then .endTry else .beginFinally) :: rest ∧
      parts (pre ++ between) = part :: outer := by
  induction after generalizing pre inner with
  | nil =>
    rw [append_nil] at split
    rw [← split, parts_eq_nil asm] at opened
    simp at opened
  | cons d after ih =>
    have shifted : ds = (pre ++ [d]) ++ after := by simp [split]
    have further : ∀ inner : List Part, parts (pre ++ [d]) = inner ++ part :: outer →
        ∃ between rest,
          ds = pre ++ between ++ (if part.isHandler then .endTry else .beginFinally) :: rest ∧
          parts (pre ++ between) = part :: outer := by
      intro inner stillOpen
      obtain ⟨between, rest, found, shape⟩ := ih shifted stillOpen
      exact ⟨d :: between, rest, by simpa using found, by simpa using shape⟩
    rw [parts_concat, opened] at further
    by_cases isBorder : d.isBorder
    · cases d with
      | beginTry => exact further (_ :: inner) rfl
      | beginFinally =>
        cases inner with
        | nil =>
          obtain ⟨_, _, _, same, isProtected, _⟩ := beginFinally_assembled asm split
          cases opened.symm.trans same
          exact ⟨[], after, by simpa [isProtected] using split, by simpa using opened⟩
        | cons first inner => exact further (first.handler :: inner) rfl
      | endTry =>
        cases inner with
        | nil =>
          obtain ⟨_, _, same, isHandler, _⟩ := endTry_assembled asm split
          cases opened.symm.trans same
          exact ⟨[], after, by simpa [isHandler] using split, by simpa using opened⟩
        | cons first inner => exact further inner rfl
      | _ => cases isBorder
    · exact further inner (partsAfter_of_not_isBorder (by simpa using isBorder) _ _ _)

theorem exists_handler (split : ds = pre ++ after) (opened : parts pre = inner ++ part :: outer)
    (isProtected : part.isHandler = false) :
    ∃ between rest, ds = pre ++ between ++ .beginFinally :: rest ∧
      parts (pre ++ between) = part :: outer := by
  simpa [isProtected] using exists_border asm split opened

theorem exists_end (split : ds = pre ++ after) (opened : parts pre = inner ++ part :: outer) :
    ∃ between rest, ds = pre ++ between ++ .endTry :: rest ∧
      parts (pre ++ between) = part.handler :: outer := by
  cases isHandler : part.isHandler with
  | true => simpa [Part.handler, ← isHandler] using exists_border asm split opened
  | false =>
    -- where the protected part ends its handler starts, and that ends in turn
    obtain ⟨between, rest, found, shape⟩ := exists_handler asm split opened isHandler
    have entered : parts (pre ++ between ++ [.beginFinally]) = [] ++ part.handler :: outer := by
      rw [parts_concat, shape]
      rfl
    obtain ⟨more, last, ends, handling⟩ :=
      exists_border asm (found.trans (append_cons _ _ _)) entered
    exact ⟨between ++ .beginFinally :: more, last, by simpa [Part.handler] using ends,
      by simpa using handling⟩

theorem handler_le_of_missing (split : ds = pre ++ more ++ rest) (mem : part ∈ parts pre)
    (isProtected : part.isHandler = false) (missing : part ∉ parts (pre ++ more)) :
    ∃ handler, target? ds part.label = some handler ∧ handler ≤ extent (pre ++ more) := by
  induction more using List.reverseRecOn generalizing rest with
  | nil =>
    rw [append_nil] at missing
    exact absurd mem missing
  | append_singleton more last ih =>
    have atLast : ds = (pre ++ more) ++ last :: rest := by simp [split]
    by_cases stillOpen : part ∈ parts (pre ++ more)
    · rw [← append_assoc, parts_concat] at missing
      by_cases isBorder : last.isBorder
      · cases last with
        | beginTry => exact absurd (mem_cons_of_mem _ stillOpen) missing
        | beginFinally =>
          obtain ⟨innermost, outer, _, shape, _, marked, _⟩ := beginFinally_assembled asm atLast
          rw [shape] at stillOpen missing
          rcases mem_cons.mp stillOpen with rfl | further
          · exact ⟨_, marked, by simp [Nat.add_assoc]⟩
          · exact absurd (mem_cons_of_mem _ further) missing
        | endTry =>
          obtain ⟨innermost, outer, shape, isHandler, _⟩ := endTry_assembled asm atLast
          rw [shape] at stillOpen missing
          rcases mem_cons.mp stillOpen with rfl | further
          · rw [isProtected] at isHandler
            cases isHandler
          · exact absurd further missing
        | _ => cases isBorder
      · rw [partsAfter_of_not_isBorder (by simpa using isBorder)] at missing
        exact absurd stillOpen missing
    · obtain ⟨handler, marked, below⟩ := ih atLast stillOpen
      refine ⟨handler, marked, ?_⟩
      simp only [extent_append] at below ⊢
      omega

end

end Assembly

end HostScript
