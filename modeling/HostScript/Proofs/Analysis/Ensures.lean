import HostScript.Analysis.Resolve
import HostScript.Proofs.Machine.Work

namespace HostScript

open Typed (Expr)
open List

/-!
# What an analysis ensures

`Ensures` is a condition on what an analysis gives and how far it has come, should it succeed.
-/

namespace Scopes

/-- All symbols of the tables, visible or hidden. -/
def symbols (scopes : Scopes) : List Symbol :=
  scopes.blocks.flatten ++ scopes.global

variable {scopes : Scopes} {name : Text}

theorem mem_of_find? (found : scopes.find? name = some sym) : sym ∈ scopes.symbols := by
  unfold find? at found
  unfold symbols
  cases inBlocks : scopes.blocks.findSome? fun table => table.find? name with
  | some _ =>
    rw [inBlocks] at found
    cases found
    obtain ⟨table, isBlock, inTable⟩ := exists_of_findSome?_eq_some inBlocks
    exact mem_append_left _ (mem_flatten.mpr ⟨table, isBlock, mem_of_find?_eq_some inTable⟩)
  | none =>
    rw [inBlocks] at found
    exact mem_append_right _ (mem_of_find?_eq_some found)

theorem name_ne_of_find? (missing : scopes.find? name = none) (mem : sym ∈ scopes.symbols) :
    sym.name ≠ name := by
  unfold find? at missing
  cases inBlocks : scopes.blocks.findSome? fun table => table.find? name with
  | some inner =>
    rw [inBlocks] at missing
    cases missing
  | none =>
    rw [inBlocks] at missing
    rcases mem_append.mp mem with inner | isGlobal
    · obtain ⟨table, isBlock, inTable⟩ := mem_flatten.mp inner
      have absent := findSome?_eq_none_iff.mp inBlocks table isBlock
      simpa using find?_eq_none.mp absent sym inTable
    · simpa using find?_eq_none.mp missing sym isGlobal

theorem name_of_find? (found : scopes.find? name = some sym) : sym.name = name := by
  unfold find? at found
  split at found
  · next _ inBlocks =>
    cases found
    obtain ⟨_, _, inTable⟩ := exists_of_findSome?_eq_some inBlocks
    simpa using find?_some inTable
  · simpa using find?_some found

theorem add_eq_ok {table : SymbolTable} (done : table.add sym = .ok changed) :
    changed = table ++ [sym] := by
  unfold SymbolTable.add at done
  split at done
  · cases done
  · exact (Except.ok.inj done).symm

theorem mem_declareGlobal (done : scopes.declareGlobal sym = .ok changed) :
    other ∈ changed.symbols ↔ other ∈ scopes.symbols ∨ other = sym := by
  obtain ⟨_, added, rest⟩ := ok_of_bind done
  cases rest
  simp only [symbols, add_eq_ok added, mem_append, mem_singleton, or_assoc]

theorem mem_declare (done : scopes.declare sym = .ok changed) :
    other ∈ changed.symbols ↔ other ∈ scopes.symbols ∨ other = sym := by
  unfold declare at done
  cases blocks : scopes.blocks with
  | nil =>
    rw [blocks] at done
    obtain ⟨_, added, rest⟩ := ok_of_bind done
    cases rest
    simp only [symbols, blocks, add_eq_ok added, mem_append, mem_singleton, or_assoc]
  | cons table _ =>
    rw [blocks] at done
    obtain ⟨table, added, rest⟩ := ok_of_bind done
    cases rest
    simp only [symbols, blocks, add_eq_ok added, flatten_cons, mem_append, mem_singleton]
    grind

theorem symbols_of_pop {scopes : Scopes} (done : scopes.pop = .ok (table, rest)) :
    scopes.symbols = table ++ rest.symbols := by
  unfold pop at done
  split at done
  · cases done
  · next blocks =>
    cases done
    simp only [symbols, blocks, flatten_cons, append_assoc]

end Scopes

namespace Analysis

/-- Where an analysis succeeds, nothing else has changed and its result meets a condition. -/
def Finds (progress : Progress) (run : Analyzer α) (suits : α → Prop) : Prop :=
  Ensures progress run fun result after => after = progress ∧ suits result

section

variable {run : Analyzer α} {next : α → Analyzer β}

namespace Finds

theorem pure (suited : suits res) : Finds p (Pure.pure res) suits := Ensures.pure ⟨rfl, suited⟩

theorem bind {between post} (started : Finds p first between)
    (continued : ∀ res, between res → Ensures p (next res) post) :
    Ensures p (first >>= next) post :=
  Ensures.bind started fun res _ ⟨same, suited⟩ => same ▸ continued res suited

theorem mono (finds : Finds p run suits) (implies : ∀ res, suits res → weaker res) :
    Finds p run weaker :=
  Ensures.mono finds fun res _ ⟨same, suited⟩ => ⟨same, implies res suited⟩

theorem lift (run : Except CompileFailure α) :
    Finds p (liftM run : Analyzer α) fun res => run = .ok res := by
  intro res _ done
  obtain ⟨_, started, rest⟩ := ok_of_bind done
  cases rest
  exact ⟨rfl, started⟩

end Finds

theorem lookup_finds (name : Text) :
    Finds p (lookup name) fun found => found = p.scopes.find? name := by
  intro _ _ done
  cases done
  exact ⟨rfl, rfl⟩

theorem lookupType_finds (name : Ident) :
    Finds p (lookupType name) fun type =>
      ∃ sym, p.scopes.find? name.name = some (.typeName sym type) := by
  refine (lookup_finds name.name).bind fun found same => ?_
  match found, same with
  | some (.typeName sym type), same => exact Finds.pure ⟨sym, same.symm⟩
  | some (.variable _), _ | some (.field _ _), _ | some (.method _ _), _
  | some (.transform _ _), _ | none, _ => exact .throw _

theorem resolved_finds (off : Nat) (name : Text) (sym : Symbol) :
    Finds p (resolved off name sym) fun expr =>
      expr = .reference off name (some sym) ∧
        ((∃ decl, sym = .variable decl) ∨ ∃ bound field, sym = .field bound field) := by
  cases sym with
  | «variable» decl => exact .pure ⟨rfl, .inl ⟨decl, rfl⟩⟩
  | field bound field => exact .pure ⟨rfl, .inr ⟨bound, field, rfl⟩⟩
  | method _ _ | transform _ _ | typeName _ _ => exact .throw _

theorem reference_finds (off : Nat) (name : Text) :
    Finds p (reference off name) fun expr =>
      ∃ sym, p.scopes.find? name = some sym ∧ expr = .reference off name (some sym) ∧
        ((∃ decl, sym = .variable decl) ∨ ∃ bound field, sym = .field bound field) := by
  refine (lookup_finds name).bind fun found same => ?_
  cases found with
  | none => exact .throw _
  | some sym =>
    exact (resolved_finds off name sym).mono fun _ suited => ⟨sym, same.symm, suited⟩

def Progress.adding (progress : Progress) (decl : Variable) (scopes : Scopes) : Progress where
  scopes
  locals := progress.locals.push decl.type
  persistent :=
    if decl.isPersistent then progress.persistent ++ [decl] else progress.persistent

/--
A declared variable has the next slot, its name meant nothing before, and it was added to
one of the tables.
-/
structure Declares (add : Scopes → Symbol → Except SymbolFault Scopes) (progress : Progress)
    (decl : Variable) (after : Progress) : Prop where
  fresh : progress.scopes.find? decl.name = none
  slot : decl.slot = progress.locals.size
  added : ∃ scopes, add progress.scopes (.variable decl) = .ok scopes ∧
    after = progress.adding decl scopes

theorem takeSlot_ensures (type : Ty) :
    Ensures p (takeSlot type) fun slot after =>
      slot = p.locals.size ∧ after = { p with locals := p.locals.push type } := by
  intro _ _ done
  cases done
  exact ⟨rfl, rfl⟩

theorem addVariable_ensures (add : Scopes → Symbol → Except SymbolFault Scopes) (off : Nat)
    (decl : Variable) :
    Ensures p (addVariable add off decl) fun _ after =>
      ∃ scopes, add p.scopes (.variable decl) = .ok scopes ∧ after =
          { p with
            scopes
            persistent :=
              if decl.isPersistent then p.persistent ++ [decl]
              else p.persistent } := by
  intro _ after done
  obtain ⟨_, _, got, rest⟩ := bind_eq_ok done
  cases got
  cases added : add p.scopes (.variable decl) with
  | error _ =>
    rw [added] at rest
    cases rest
  | ok scopes =>
    rw [added] at rest
    cases rest
    exact ⟨scopes, rfl, rfl⟩

theorem declare_ensures (name : Ident) (type : Ty) (isPersistent : Bool) :
    Ensures p (declare name type isPersistent) fun decl after =>
      decl.name = name.name ∧ decl.type = type ∧ decl.isPersistent = isPersistent ∧
        Declares Scopes.declare p decl after := by
  refine (lookup_finds name.name).bind fun found same => ?_
  cases found with
  | some _ => exact .throw _
  | none =>
    refine (takeSlot_ensures type).bind fun _ _ ⟨isNext, isMiddle⟩ => ?_
    refine (addVariable_ensures Scopes.declare _ _).bind
      fun _ _ ⟨scopes, added, isLast⟩ => .pure ⟨rfl, rfl, rfl, same.symm, isNext, ?_⟩
    subst isMiddle isLast
    exact ⟨scopes, added, rfl⟩

theorem declareAssigned_ensures (off : Nat) (fresh : p.scopes.find? name = none) :
    Ensures p (declareAssigned off name) fun sym after =>
      ∃ decl, sym = .variable decl ∧ decl.name = name ∧ decl.type = .single ∧ decl.isPersistent ∧
        Declares Scopes.declareGlobal p decl after := by
  refine (takeSlot_ensures .single).bind fun _ _ ⟨isNext, isMiddle⟩ => ?_
  refine (addVariable_ensures Scopes.declareGlobal _ _).bind
    fun _ _ ⟨scopes, added, isLast⟩ => .pure ⟨_, rfl, rfl, rfl, rfl, fresh, isNext, ?_⟩
  subst isMiddle isLast
  exact ⟨scopes, added, rfl⟩

theorem assigned_ensures (off : Nat) (name : Text) :
    Ensures p (assigned off name) fun expr after =>
      (after = p ∧ ∃ sym, p.scopes.find? name = some sym ∧ expr = .reference off name (some sym) ∧
        ((∃ decl, sym = .variable decl) ∨ ∃ bound field, sym = .field bound field)) ∨
      ∃ decl, expr = .reference off name (some (.variable decl)) ∧
        decl.name = name ∧ decl.type = .single ∧ decl.isPersistent ∧
        Declares Scopes.declareGlobal p decl after := by
  refine (lookup_finds name).bind fun found same => ?_
  cases found with
  | some sym =>
    exact .mono (resolved_finds off name sym) fun _ after ⟨unchanged, suited⟩ =>
      Or.inl ⟨unchanged, sym, same.symm, suited⟩
  | none =>
    refine (declareAssigned_ensures off same.symm).bind fun sym _ ⟨decl, isVariable, declares⟩ => ?_
    subst isVariable
    exact .pure (.inr ⟨decl, rfl, declares⟩)

theorem openScope_ensures :
    Ensures p openScope fun _ after =>
      after = { p with scopes := p.scopes.push } := by
  intro _ _ done
  cases done
  rfl

theorem closeScope_ensures :
    Ensures p closeScope fun table after =>
      ∃ scopes, p.scopes.pop = .ok (table, scopes) ∧ after = { p with scopes } := by
  intro _ after done
  obtain ⟨_, _, got, rest⟩ := bind_eq_ok done
  cases got
  cases popped : p.scopes.pop with
  | error _ =>
    rw [popped] at rest
    cases rest
  | ok res =>
    rw [popped] at rest
    cases rest
    exact ⟨res.2, rfl, rfl⟩

end

end Analysis

end HostScript
