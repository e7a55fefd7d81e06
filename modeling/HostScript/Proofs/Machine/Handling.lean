import HostScript.Proofs.Machine.Turns
import HostScript.Proofs.Meter

namespace HostScript

open Directive (parts extent)
open List

/-!
# Every entered region is handled

An invocation of a nested program takes turns of structured control from its start on.
-/

namespace Turn

variable {program : Program} {inner base : List Open} {after : Nat × List Open}

theorem of_open (turn : Turn program (here, inner ++ part :: base) after) :
    part :: base <:+ after.2 ∨ (∃ pending, part = .handling pending ∧ inner = [] ∧
        program.code[here]? = some Op.endFinally.code ∧ pending.resume base = some after) ∨
      ∃ resumption around,
        Occasion program (here, inner ++ part :: base) resumption (around ++ part :: base) ∧
        resumption.resume (around ++ part :: base) = some after := by
  generalize place : (here, inner ++ part :: base) = origin at turn
  cases turn with
  | goes =>
    cases place
    exact .inl (suffix_append _ _)
  | enters =>
    cases place
    exact .inl ((suffix_append _ _).trans (suffix_cons _ _))
  | resumes occasion resumed =>
    cases occasion with
    | leave instr =>
      cases place
      exact .inr (.inr ⟨_, inner, .leave instr, resumed⟩)
    | failure code within reason =>
      cases place
      exact .inr (.inr ⟨_, inner, .failure code within reason, resumed⟩)
    | completion code pending =>
      cases inner with
      | nil =>
        cases place
        exact .inr (.inl ⟨_, rfl, rfl, code, resumed⟩)
      | cons _ inner =>
        cases place
        exact .inr (.inr ⟨_, inner, .completion code _, resumed⟩)

theorem of_trying (turn : Turn program (here, inner ++ .trying region :: base) after) :
    .trying region :: base <:+ after.2 ∨ ∃ pending opens,
        Occasion program (here, inner ++ .trying region :: base) pending opens ∧
        after = (region.handler, .handling pending :: base) := by
  rcases turn.of_open with stays | ⟨_, absurd, _⟩ | ⟨resumption, _, occasion, resumed⟩
  · exact .inl stays
  · cases absurd
  · rcases Resumption.resume_trying resumed with ⟨inside, same⟩ | ⟨next, same⟩
    · exact .inl ⟨inside, same.symm⟩
    · exact .inr ⟨resumption, _, occasion, Prod.ext next same⟩

/--
From inside of a handler a turn stays there, or ends it and resumes what was pending, or a
failure takes the place of that.
-/
theorem of_handling (turn : Turn program (here, inner ++ .handling pending :: base) after) :
    .handling pending :: base <:+ after.2 ∨
      (inner = [] ∧ program.code[here]? = some Op.endFinally.code ∧
        pending.resume base = some after) ∨
      ∃ reason opens,
        Occasion program (here, inner ++ .handling pending :: base) (.failure reason) opens ∧
        Resumption.resume (.failure reason) base = some after := by
  rcases turn.of_open with stays | ⟨_, same, ends⟩ | ⟨_, _, occasion, resumed⟩
  · exact .inl stays
  · cases same
    exact .inr (.inl ends)
  · rcases Resumption.resume_handling resumed with ⟨inside, same⟩ | ⟨⟨reason, rfl⟩, outside⟩
    · exact .inl ⟨inside, same.symm⟩
    · exact .inr (.inr ⟨reason, _, occasion, outside⟩)

end Turn

/-- Some parts are open from one round on until before another. -/
def Lasts (place : Nat → Nat × List Open) (opens : List Open) (first last : Nat) : Prop :=
  ∀ n, first ≤ n → n < last → opens <:+ (place n).2

theorem Lasts.of_open (opened : opens <:+ (place first).2) (ordered : first ≤ last) :
    Lasts place opens first (last + 1) ∨
      ∃ round, first ≤ round ∧ round < last ∧ Lasts place opens first (round + 1) ∧
        ¬opens <:+ (place (round + 1)).2 := by
  induction ordered with
  | refl =>
    refine .inl fun n above below => ?_
    obtain rfl : n = first := by omega
    exact opened
  | @step last ordered ih =>
    rcases ih with lasts | ⟨round, above, below, lasts, closed⟩
    · by_cases still : opens <:+ (place (last + 1)).2
      · refine .inl fun n above below => ?_
        rcases Nat.lt_or_eq_of_le (Nat.le_of_lt_succ below) with prev | rfl
        · exact lasts n above prev
        · exact still
      · exact .inr ⟨last, ordered, Nat.lt_succ_self last, lasts, still⟩
    · exact .inr ⟨round, above, Nat.lt_succ_of_lt below, lasts, closed⟩

/-- What becomes of a handler up to a round: it still runs, or has ended one way or the other. -/
def Completes (program : Program) (place : Nat → Nat × List Open) (pending : Resumption)
    (base : List Open) (started last : Nat) : Prop :=
  Lasts place (.handling pending :: base) started (last + 1) ∨
    ∃ round, started ≤ round ∧ round < last ∧
      Lasts place (.handling pending :: base) started (round + 1) ∧
      ((program.code[(place round).1]? = some Op.endFinally.code ∧
          (place round).2 = .handling pending :: base ∧
          pending.resume base = some (place (round + 1))) ∨
        ∃ reason opens, Occasion program (place round) (.failure reason) opens ∧
          Resumption.resume (.failure reason) base = some (place (round + 1)))

/-- What becomes of a region that was entered, up to a round: it is still open, or was left for
some reason, with which its handler was started. -/
def Handles (program : Program) (place : Nat → Nat × List Open) (region : Region) (base : List Open)
    (entered last : Nat) : Prop :=
  Lasts place (.trying region :: base) entered (last + 1) ∨
    ∃ round pending opens, entered ≤ round ∧ round < last ∧
      Lasts place (.trying region :: base) entered (round + 1) ∧
      Occasion program (place round) pending opens ∧
      place (round + 1) = (region.handler, .handling pending :: base) ∧
      Completes program place pending base (round + 1) last

section Paths

variable {program : Program} {place : Nat → Nat × List Open} {rounds : Nat}
  (turns : ∀ n < rounds, Turn program (place n) (place (n + 1)))

include turns

theorem completes_of_turns (opened : .handling pending :: base <:+ (place started).2)
    (running : started ≤ rounds) : Completes program place pending base started rounds := by
  rcases Lasts.of_open opened running with lasts | ⟨round, above, below, lasts, closed⟩
  · exact .inl lasts
  · refine .inr ⟨round, above, below, lasts, ?_⟩
    obtain ⟨inner, shape⟩ := lasts round above (Nat.lt_succ_self round)
    have turn := turns round below
    have here : place round = ((place round).1, inner ++ .handling pending :: base) :=
      Prod.ext rfl shape.symm
    rw [here] at turn ⊢
    rcases turn.of_handling with still | ⟨rfl, code, resumed⟩ | replaced
    · exact absurd still closed
    · exact .inl ⟨code, rfl, resumed⟩
    · exact .inr replaced

theorem handles_of_turns (opened : .trying region :: base <:+ (place entered).2)
    (running : entered ≤ rounds) : Handles program place region base entered rounds := by
  rcases Lasts.of_open opened running with lasts | ⟨round, above, below, lasts, closed⟩
  · exact .inl lasts
  · obtain ⟨inner, shape⟩ := lasts round above (Nat.lt_succ_self round)
    have turn := turns round below
    have here : place round = ((place round).1, inner ++ .trying region :: base) :=
      Prod.ext rfl shape.symm
    rw [here] at turn
    rcases turn.of_trying with still | ⟨pending, opens, _, led⟩
    · exact absurd still closed
    · refine .inr ⟨round, pending, opens, above, below, lasts, ?_, led, ?_⟩
      · rwa [here]
      · exact completes_of_turns turns (led ▸ suffix_rfl) below

end Paths

namespace Machine

def reached (host : Host H) (program : Program) (world : World H) (rounds : Nat) :
    Configuration H :=
  (runFor host program {} rounds (start program world)).2

/-- An invocation without bounds has not ended after some rounds. -/
def IsRunning (host : Host H) (program : Program) (world : World H) (rounds : Nat) : Prop :=
  (runFor host program {} rounds (start program world)).1 = none

section

variable {host : Host H} {program : Program} {world : World H} {rounds : Nat}

theorem runFor_succ (running : (runFor host program {} rounds cfg).1 = none) :
    runFor host program {} (rounds + 1) cfg =
      match cycle host program {} (runFor host program {} rounds cfg).2 with
      | .continues after => (none, after)
      | .ends ending after => (some ending, after) := by
  induction rounds generalizing cfg with
  | zero => rfl
  | succ rounds ih =>
    rw [runFor]
    rw [runFor] at running
    conv_rhs => rw [runFor]
    cases round : cycle host program {} cfg with
    | continues after =>
      rw [round] at running
      exact ih running
    | ends ending after =>
      rw [round] at running
      cases running

theorem IsRunning.earlier (running : IsRunning host program world rounds) (le : fewer ≤ rounds) :
    IsRunning host program world fewer := by
  unfold IsRunning
  rcases ended : runFor host program {} fewer (start program world) with
    ⟨_ | ending, after⟩
  · rfl
  · have long := (runFor_mono ended (rounds - fewer)).1
    rw [Nat.add_sub_cancel' le] at long
    rw [IsRunning, long] at running
    cases running

theorem IsRunning.cycle_reached (running : IsRunning host program world (rounds + 1)) :
    cycle host program {} (reached host program world rounds) =
      .continues (reached host program world (rounds + 1)) := by
  have shape := runFor_succ (running.earlier (Nat.le_succ rounds))
  rw [IsRunning, shape] at running
  rw [reached, reached, shape]
  cases round : cycle host program {} (runFor host program {} rounds (start program world)).2 with
  | continues after => rfl
  | ends _ after =>
    rw [round] at running
    cases running

end

end Machine

open Machine (reached)

/-- An invocation of a nested program is under structured control up to a round. -/
structure IsControlled (directives : List Directive) (program : Program) (host : Host H)
    (world : World H) (rounds : Nat) (place : Nat → Nat × List Open) : Prop where
  /-- The parts around the next instruction are those that the stacks of the machine tell. -/
  isAt : ∀ n ≤ rounds, (reached host program world n).frame.next = (place n).1 ∧
    IsAt directives (reached host program world n).frame (place n).2
  /-- Control goes on, enters a region, or resumes something. -/
  turns : ∀ n < rounds, Turn program (place n) (place (n + 1))
  /-- Each region that is entered is handled, once. -/
  handles : ∀ n ≤ rounds, ∀ region base, (place n).2 = .trying region :: base →
    Handles program place region base n rounds
  /-- The end of a handler finds what it has to resume. -/
  completions : ∀ n ≤ rounds, program.code[(place n).1]? = some Op.endFinally.code →
    (reached host program world n).frame.completions ≠ []
  /-- Outside of all regions both stacks are empty. -/
  outside : ∀ n ≤ rounds, ∀ before after, directives = before ++ after →
    (place n).1 = extent before → parts before = [] →
      (reached host program world n).frame.regions = [] ∧
        (reached host program world n).frame.completions = []
  /-- An invocation that ends with a failure has left all regions. -/
  halts : ∀ ending, (Machine.runFor host program {} (rounds + 1) (Machine.start program world)).1 =
      some ending → Halt program (place rounds) ending

theorem Follows.exists_pending {round : Round H}
    (follows : Follows directives program (here, opens) round)
    (code : program.code[here]? = some Op.endFinally.code) :
    ∃ pending outer, opens = .handling pending :: outer := by
  have different : ∀ {op : Op}, program.code[here]? = some op.code → op = .endFinally := by
    intro op present
    have same := Option.some.inj (present.symm.trans code)
    have found := congrArg Op.ofCode? same
    rw [Op.ofCode?_code, Op.ofCode?_code] at found
    exact Option.some.inj found
  have occasioned : ∀ {resumption : Resumption} {around : List Open},
      Occasion program (here, opens) resumption around →
      ∃ pending outer, opens = .handling pending :: outer := by
    intro resumption around occasion
    cases occasion with
    | leave instr => cases different instr.code
    | failure present within =>
      obtain rfl := different present
      rcases within with within | within <;> cases within
    | completion present => exact ⟨_, _, rfl⟩
  cases round with
  | continues next =>
    obtain ⟨after, _, turn⟩ := follows
    generalize (next.frame.next, after) = there at turn
    cases turn with
    | goes present within =>
      obtain rfl := different present
      rcases within with within | within <;> cases within
    | enters instr => cases different instr.code
    | resumes occasion _ => exact occasioned occasion
  | ends _ _ =>
    cases follows with
    | returns present => cases different present
    | fails occasion _ => exact occasioned occasion
    | runsOut missing => rw [missing] at code; cases code

theorem Directive.parts_of_extent (same : first ++ rest = second ++ others)
    (extents : extent first = extent second) : parts first = parts second := by
  have longer : ∀ {shorter more : List Directive}, extent shorter = extent (shorter ++ more) →
      parts (shorter ++ more) = parts shorter := by
    intro shorter more extents
    rw [Directive.extent_append] at extents
    refine (Directive.parts_of_empty fun d mem => ?_).1
    obtain ⟨_, _, rfl⟩ := append_of_mem mem
    rw [Directive.extent_append, Directive.extent_cons] at extents
    omega
  rcases append_eq_append_iff.mp same with ⟨more, rfl, _⟩ | ⟨more, rfl, _⟩
  · exact (longer extents).symm
  · exact longer extents.symm

section

variable {directives : List Directive} {program : Program}
  (nested : Directive.isNested directives) (assembled : Assembly.assemble directives = .ok program)

include nested assembled

theorem isAt_reached (host : Host H) (world : World H) (rounds : Nat)
    (running : Machine.IsRunning host program world rounds) :
    ∃ opens, IsAt directives (reached host program world rounds).frame opens := by
  induction rounds with
  | zero => exact ⟨[], ⟨[], directives, rfl, rfl, .nil⟩, rfl, rfl⟩
  | succ rounds ih =>
    obtain ⟨opens, isAt⟩ := ih (running.earlier (Nat.le_succ rounds))
    have round := isAt.round assembled host nested
    rw [running.cycle_reached] at round
    obtain ⟨after, isAtNext, _⟩ := round
    exact ⟨after, isAtNext⟩

theorem nested_isControlled
    (host : Host H) (world : World H) (rounds : Nat)
    (running : Machine.IsRunning host program world rounds) :
    ∃ place, IsControlled directives program host world rounds place := by
  have everywhere : ∀ n, ∃ opens, n ≤ rounds →
      IsAt directives (reached host program world n).frame opens := by
    intro n
    by_cases within : n ≤ rounds
    · obtain ⟨opens, isAt⟩ := isAt_reached nested assembled host world n (running.earlier within)
      exact ⟨opens, fun _ => isAt⟩
    · exact ⟨[], fun isWithin => absurd isWithin within⟩
  choose opens isAt using everywhere
  have follows : ∀ n ≤ rounds, Follows directives program
      ((reached host program world n).frame.next, opens n)
      (Machine.cycle host program {} (reached host program world n)) :=
    fun n within => (isAt n within).round assembled host nested
  have turns : ∀ n < rounds, Turn program
      ((reached host program world n).frame.next, opens n)
      ((reached host program world (n + 1)).frame.next, opens (n + 1)) := by
    intro n within
    have round := follows n (Nat.le_of_lt within)
    rw [(running.earlier within).cycle_reached] at round
    obtain ⟨after, isAtNext, turn⟩ := round
    rwa [isAtNext.isIn.unique (isAt (n + 1) within).isIn] at turn
  refine ⟨fun n => ((reached host program world n).frame.next, opens n),
    fun n within => ⟨rfl, isAt n within⟩, turns, ?_, ?_, ?_, ?_⟩
  · intro n within _ _ entered
    exact handles_of_turns turns (entered ▸ List.suffix_rfl) within
  · intro n within code
    obtain ⟨_, _, shape⟩ := (follows n within).exists_pending code
    rw [(isAt n within).isIn.completions, shape]
    exact List.cons_ne_nil _ _
  · intro n within _ after split position outside
    obtain ⟨⟨_, _, otherSplit, otherPosition, agrees⟩, isIn⟩ := isAt n within
    rw [Directive.parts_of_extent (otherSplit.symm.trans split)
      (otherPosition.symm.trans position), outside] at agrees
    generalize opens n = opened at agrees isIn
    cases agrees
    exact ⟨isIn.regions, isIn.completions⟩
  · intro _ ended
    have round := follows rounds (Nat.le_refl rounds)
    rw [Machine.runFor_succ running] at ended
    rw [reached] at round
    cases led : Machine.cycle host program {}
        (Machine.runFor host program {} rounds (Machine.start program world)).2 with
    | continues after =>
      rw [led] at ended
      cases ended
    | ends _ after =>
      rw [led] at ended round
      cases ended
      exact round

end

/-- Two regions: a jump leaves both, but the handler of the inner one fails. -/
def Meter.nestedRegions : List Directive :=
  [.defineLabel, .beginTry, .beginTry, .jump Op.leave 0, .beginFinally, .plain Op.pop, .endTry,
    .beginFinally, .plain Op.nop, .endTry, .mark 0, .plain Op.ret]

theorem Meter.nestedRegions_isControlled :
    ∃ program, Directive.isNested nestedRegions = true ∧
      Assembly.assemble nestedRegions = .ok program ∧
      Machine.IsRunning host program world 5 ∧
      ∃ place, IsControlled nestedRegions program host world 5 place :=
  have nested : Directive.isNested nestedRegions = true := by decide +kernel
  ⟨_, nested, rfl, rfl, nested_isControlled nested rfl host world 5 rfl⟩

end HostScript
