import HostScript.Proofs.Simulation.Setting
import HostScript.Proofs.Typing.Analysis

namespace HostScript.Meter

open Typed (Rules)

/-!
# A meter

The smallest host with all that scripts can use of one: a field that they read and write, a
method that fails, and a store.
-/

/-- The name of the field that scripts read and write. -/
def levelName : Text := [Text.byte 'l']

def alarmName : Text := [Text.byte 'a']

def floatName : Text := [Text.byte 'f']

def level : Field :=
  { name := levelName, type := .single, label := "level" }

def state : Field :=
  { name := [Text.byte 's'], type := .scriptState, readOnly := true, hasWriter := false,
    label := "state" }

def alarm : Method :=
  { name := alarmName, result := some .void, routine := .host "alarm" }

def dialect : Dialect where
  types := { declarations := [] }
  binding :=
    { symbols := [.field levelName level, .method alarmName alarm, .typeName floatName .single]
      state := some state }
  expand _ _ := []

def host : Host (BitVec 32) where
  types := dialect.types
  readField
    | "level", _ => do return .float .single (← get).host
    | _, _ => do return if (← get).attached then .state else .null
  writeField _ _ value :=
    match value with
    | .float .single bits => modify fun world => { world with host := bits }
    | _ => Act.crash .foreignValue
  readProperty _ _ _ := Act.crash .foreignValue
  writeProperty _ _ _ _ := Act.crash .foreignValue
  invoke _ _ _ := Act.fail (.said alarmName)
  describe _ _ := none

theorem obeys (rules : Rules) : dialect.types.Obeys rules := by
  have empty : ∀ type, dialect.types.declaration type = { base := none } ∨
      dialect.types.declaration type = {} := by
    intro type
    cases type with
    | void | object => exact .inl rfl
    | prim | string | named | array => exact .inr rfl
  constructor
  · intro type _ member
    rcases empty type with same | same <;> rw [same] at member <;> exact nomatch member
  · intro type _ member
    rcases empty type with same | same <;> rw [same] at member <;> exact nomatch member
  · intro type _ member
    rcases empty type with same | same <;> rw [same] at member <;> exact nomatch member
  · intro type _ found
    rcases empty type with same | same <;> rw [same] at found <;> exact nomatch found

/-- A meter is never given an address to keep. -/
theorem discreet : host.Discreet fun _ => True where
  constants := obeys _
  readField label _ _ := by
    intro world plain
    refine ⟨(), le_refl _, ?_, ?_⟩
    · unfold host
      dsimp only
      split <;> exact plain
    · intro val
      unfold host
      dsimp only
      split
      · rintro ⟨⟩
        rfl
      · intro done
        cases Except.ok.inj done
        split <;> rfl
  writeField _ _ val _ _ := by
    intro world plain
    unfold host
    dsimp only
    split
    · exact ⟨(), le_refl _, ⟨trivial, plain.arrays, plain.store⟩, fun _ _ => trivial⟩
    · exact Act.Stays.throw _ world plain
  readProperty _ _ _ _ _ := Act.Stays.throw _
  writeProperty _ _ _ _ _ _ _ := Act.Stays.throw _
  invoke _ _ _ _ _ := Act.Stays.fail _

theorem names_sound : ∀ sym ∈ dialect.binding.symbols, sym.isVariable = false →
    sym.Sound Rules.valued #[] := by
  intro sym member _
  simp only [dialect, List.mem_cons, List.not_mem_nil, or_false] at member
  rcases member with rfl | rfl | rfl
  · exact ⟨rfl, nofun⟩
  · exact ⟨.inl rfl, nofun⟩
  · exact .inr rfl

/-- A script for a meter after analysis; one that is refused counts as empty. -/
def analysed (root : Tree.Block) : Typed.Script :=
  (Analysis.script dialect root).toOption.getD
    { body := .mk 0 [] [], locals := #[], persistent := [] }

def program (root : Tree.Block) : Program :=
  (dialect.program (analysed root)).toOption.getD {}

theorem built_of_isSome (isSome : (dialect.program (analysed root)).toOption.isSome) :
    dialect.program (analysed root) = .ok (program root) := by
  unfold program
  cases built : dialect.program (analysed root) with
  | ok program => rfl
  | error _ =>
    rw [built] at isSome
    cases isSome

/-- A world with a meter and nothing in its store. -/
def world : World (BitVec 32) where
  host := 0

theorem world_isPlain : world.IsPlain fun _ => True where
  host := trivial
  arrays := by
    intro elements member
    exact absurd member (Array.not_mem_empty elements)
  store _ _ found := nomatch found

end HostScript.Meter
