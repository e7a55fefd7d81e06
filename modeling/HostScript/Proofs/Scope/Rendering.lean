import HostScript.Proofs.Scope.Runs

namespace HostScript

/-!
# Rendering

A point is drawn by the point script, with the sample at the same relative place of the signal
on the panel.
-/

theorem Panel.get_set (panel : Panel) (dial other : Dial) (bits : Nat) :
    (panel.set dial bits).get other = if other = dial then bits else panel.get other := by
  have elsewhere : ∀ settings : List (Dial × Nat), other ≠ dial →
      (settings.filter fun entry => entry.1 != dial).lookup other = settings.lookup other := by
    intro settings differs
    induction settings with
    | nil => rfl
    | cons entry _ ih =>
      obtain ⟨held, _⟩ := entry
      by_cases isDial : held = dial
      · have unlike : (other == held) = false := beq_false_of_ne (isDial ▸ differs)
        simp [isDial ▸ unlike, List.lookup_cons, isDial, ih]
      · simp [isDial, List.lookup_cons, ih]
  unfold get set
  rw [List.lookup_cons]
  by_cases same : other = dial
  · simp [same]
  · rw [beq_false_of_ne same, if_neg same]
    exact congrArg (Option.getD · 0) (elsewhere _ same)

namespace Scope

variable {samples : Array Nat} {size point count : Nat}

/-- The sample that belongs to a point: a silent signal has none. -/
def sampleOf (samples : Array Nat) (point count : Nat) : Nat :=
  samples.getD (point * samples.size / count) 0

/-- Below the bound the product of 64 bits does not wrap. -/
theorem samplePlace_eq (isPoint : point < count) (small : count * size < 2 ^ 63) :
    samplePlace size point count = (point * size / count : Nat) := by
  unfold samplePlace
  split
  · next same => rw [same, Nat.mul_div_cancel _ (by omega)]
  · have le : point * size ≤ count * size := Nat.mul_le_mul_right _ (by omega)
    have whole : (BitVec.ofNat 64 (point * size)).toInt = (point * size : Nat) := by
      rw [BitVec.toInt_eq_toNat_bmod, BitVec.toNat_ofNat, Nat.mod_eq_of_lt (by omega),
        Int.bmod_eq_of_le] <;> omega
    rw [whole]
    rfl

theorem place_lt (isPoint : point < count) (nonempty : 0 < size) : point * size / count < size :=
  Nat.div_lt_of_lt_mul (Nat.mul_lt_mul_of_pos_right isPoint nonempty)

theorem sampleAt?_eq (isPoint : point < count) (small : count * samples.size < 2 ^ 63) :
    sampleAt? samples point count = some (sampleOf samples point count) := by
  unfold sampleAt? sampleOf
  split
  · next isEmpty => simp [Array.isEmpty_iff.mp isEmpty]
  · next notEmpty =>
    have inside := place_lt isPoint (Nat.pos_of_ne_zero fun isZero =>
      notEmpty (Array.isEmpty_iff_size_eq_zero.mpr isZero))
    simp only [samplePlace_eq isPoint small]
    rw [if_neg (Int.not_lt.mpr (Int.natCast_nonneg _)), Int.toNat_natCast,
      Array.getD_eq_getD_getElem?, Array.getElem?_eq_getElem inside]
    rfl

/-- The scope with a point and its sample on the panel. -/
def facing (scope : Scope) (samples : Array Nat) (count point : Nat) : Scope :=
  (scope.turn fun panel => panel.set .place (placeOf point count)).turn fun panel =>
    panel.set .sample (sampleOf samples point count)

/-- Points in order from one on, each as the panel shows it after its invocation. -/
inductive Draws (samples : Array Nat) (count : Nat) : Nat → Scope → List Point → Scope → Prop
  | nil (point : Nat) (scope : Scope) : Draws samples count point scope [] scope
  | cons {point : Nat} {scope after last : Scope} {points : List Point}
      (ran : (scope.facing samples count point).invoke .point false (.pointScript point) =
        some (none, after))
      (rest : Draws samples count (point + 1) after points last) :
      Draws samples count point scope (pointOf after.panel :: points) last

/-- Points were drawn from one on: all that there are, or those before an invocation that fails. -/
def Renders (samples : Array Nat) (count first : Nat) (scope : Scope) (points : List Point)
    (failure : Option ScopeFailure) (done : Scope) : Prop :=
  ∃ last, Draws samples count first scope points last ∧
    match failure with
    | none => first + points.length = count ∧ done = last
    | some failure => first + points.length < count ∧
      (last.facing samples count (first + points.length)).invoke .point false
        (.pointScript (first + points.length)) = some (some failure, done)

/-- Points were drawn from one on, and then comes one whose invocation never ends. -/
def Sticks (samples : Array Nat) (count first : Nat) (scope : Scope) : Prop :=
  ∃ points last, Draws samples count first scope points last ∧ first + points.length < count ∧
    (last.facing samples count (first + points.length)).Hangs .point false

theorem Renders.cons {scope after}
    (ran : (scope.facing samples count point).invoke .point false (.pointScript point) =
      some (none, after))
    (rest : Renders samples count (point + 1) after points fail done) :
    Renders samples count point scope (pointOf after.panel :: points) fail done := by
  obtain ⟨last, draws, ends⟩ := rest
  refine ⟨last, .cons ran draws, ?_⟩
  rw [List.length_cons, Nat.add_comm _ 1, ← Nat.add_assoc]
  exact ends

theorem Sticks.cons {scope after}
    (ran : (scope.facing samples count point).invoke .point false (.pointScript point) =
      some (none, after))
    (rest : Sticks samples count (point + 1) after) : Sticks samples count point scope := by
  obtain ⟨points, last, draws, ends⟩ := rest
  refine ⟨pointOf after.panel :: points, last, .cons ran draws, ?_⟩
  rw [List.length_cons, Nat.add_comm _ 1, ← Nat.add_assoc]
  exact ends

theorem renderFrom_renders (small : count * samples.size < 2 ^ 63) (rest : Nat) (le : rest ≤ count)
    (scope : Scope) :
    (∀ points failure done, renderFrom samples count rest scope = some (points, failure, done) →
      Renders samples count (count - rest) scope points failure done) ∧
    (renderFrom samples count rest scope = none → Sticks samples count (count - rest) scope) := by
  induction rest generalizing scope with
  | zero =>
    refine ⟨fun _ _ _ rendered => ?_, fun never => by cases never⟩
    cases rendered
    exact ⟨scope, .nil _ _, rfl, rfl⟩
  | succ left ih =>
    have isPoint : count - (left + 1) < count := by omega
    unfold renderFrom
    simp only [sampleAt?_eq isPoint small]
    split
    · next never =>
      refine ⟨fun _ _ _ impossible => (by cases impossible), fun _ => ?_⟩
      exact ⟨[], scope, .nil _ _, isPoint, hangs_of_invoke never⟩
    · next failed =>
      refine ⟨fun _ _ _ rendered => ?_, fun impossible => by cases impossible⟩
      cases rendered
      exact ⟨scope, .nil _ _, isPoint, failed⟩
    · next after ran =>
      obtain ⟨renders, sticks⟩ := ih (by omega) after
      rw [show count - left = count - (left + 1) + 1 by omega] at renders sticks
      refine ⟨fun _ _ _ rendered => ?_, fun never => ?_⟩
      · obtain ⟨_, rest, same⟩ := Option.map_eq_some_iff.mp rendered
        cases same
        exact .cons ran (renders _ _ _ rest)
      · exact .cons ran (sticks (Option.map_eq_none_iff.mp never))

theorem render_renders {scope}
    (counted : (Binary.single.truncate (scope.panel.get .count)).toNat = count)
    (room : count ≤ mostPoints) (small : count * samples.size < 2 ^ 63) :
    (∀ points failure done, scope.render samples false = some (points, failure, done) →
      Renders samples count 0 scope points failure done) ∧
    (scope.render samples false = none → Sticks samples count 0 scope) := by
  unfold render
  dsimp only
  rw [counted, if_neg (Nat.not_lt.mpr room), if_neg Bool.false_ne_true]
  split
  · next isNone =>
    refine ⟨fun _ _ _ rendered => ?_, fun never => by cases never⟩
    cases rendered
    exact ⟨scope, .nil _ _, isNone.symm, rfl⟩
  · simpa using renderFrom_renders small count (Nat.le_refl count) scope

/-- The failure of an invocation says what was being done. -/
theorem invoke_fails {scope : Scope}
    (failed : scope.invoke kind isCancelled ctx = some (some fail, after)) :
    ∃ cause, fail = .within ctx cause := by
  unfold invoke at failed
  split at failed
  · cases failed
  · split at failed
    · cases failed
    · cases failed
      exact ⟨_, rfl⟩
    · cases failed

theorem Renders.fails (renders : Renders samples count first scope points (some fail) done) :
    ∃ cause, fail = .within (.pointScript (first + points.length)) cause := by
  obtain ⟨_, -, -, failed⟩ := renders
  exact invoke_fails failed

/-- Rendering draws every point from its own sample, at places that ascend from the first, up to
the first invocation that fails, and returns unless one never ends. -/
theorem rendering_in_order (scope : Scope) (samples : Array Nat) (count : Nat)
    (counted : (Binary.single.truncate (scope.panel.get .count)).toNat = count)
    (room : count ≤ mostPoints) (small : count * samples.size < 2 ^ 63) :
    (∀ point < count, samplePlace samples.size point count = (point * samples.size / count : Nat) ∧
      (samples.size ≠ 0 → point * samples.size / count < samples.size)) ∧
    (∀ first later, first ≤ later → later < count →
      samplePlace samples.size first count ≤ samplePlace samples.size later count) ∧
    (0 < count → samplePlace samples.size 0 count = 0) ∧
    (∀ (before : Scope) (point : Nat) (dial : Dial),
      (before.facing samples count point).panel.get dial =
        if dial = .sample then samples.getD (point * samples.size / count) 0
        else if dial = .place then placeOf point count
        else before.panel.get dial) ∧
    (count = 1 → placeOf 0 count = 0) ∧
    (∀ points failure done, scope.render samples false = some (points, failure, done) →
      Renders samples count 0 scope points failure done ∧
      ∀ reason, failure = some reason →
        ∃ cause, reason = .within (.pointScript points.length) cause) ∧
    (scope.render samples false = none → Sticks samples count 0 scope) ∧
    (0 < count → scope.render samples true = some ([], some (.cause .cancelled), scope)) := by
  obtain ⟨renders, sticks⟩ := render_renders counted room small
  refine ⟨fun point isPoint => ⟨samplePlace_eq isPoint small, ?_⟩, fun first later le isPoint => ?_,
    fun positive => ?_, fun before point dial => ?_, ?_, fun points failure done rendered => ?_,
    sticks, fun positive => ?_⟩
  · exact fun nonempty => place_lt isPoint (Nat.pos_of_ne_zero nonempty)
  · rw [samplePlace_eq (by omega) small, samplePlace_eq isPoint small]
    exact Int.ofNat_le.mpr (Nat.div_le_div_right (Nat.mul_le_mul_right _ le))
  · rw [samplePlace_eq positive small, Nat.zero_mul, Nat.zero_div]
    rfl
  · show ((before.panel.set _ _).set _ _).get dial = _
    rw [Panel.get_set, Panel.get_set]
    rfl
  · rintro rfl
    rfl
  · refine ⟨renders points failure done rendered, ?_⟩
    rintro reason rfl
    simpa using (renders points _ done rendered).fails
  · unfold render
    dsimp only
    rw [counted, if_neg (by omega), if_neg (by omega), if_pos rfl]

/-- A scope with a limit of operations, a number of points, and a point script. -/
def plotting (limit count : Nat) : Scope :=
  ((start .empty limit 0 []).setScript .point (List.map Text.byte ['x', '=', 'v', ';'])).2.turn
    fun panel => panel.set .count (Binary.single.ofInt count)

/-- What an invocation reports of its ending. -/
def answerOf (context : ScopeFault) : Ending → Option ScopeFailure
  | .error failure => some (.within context (failure.map ScopeFault.run))
  | .ok _ => none

/-- An invocation answers as soon as some count of rounds ends it. -/
theorem invoke_of_runFor {scope : Scope} {function : Function}
    (found : scope.function? kind = some function)
    (ended : (Machine.runFor Panel.host function.program { limit := function.limit, isCancelled }
      rounds (Machine.start function.program scope.world)).1 = some ending) (ctx : ScopeFault) :
    ∃ after, scope.invoke kind isCancelled ctx = some (answerOf ctx ending, after) := by
  obtain ⟨number, script, isThere⟩ := Option.bind_eq_some_iff.mp found
  rcases ran : Machine.runFor Panel.host function.program { limit := function.limit, isCancelled }
    rounds (Machine.start function.program scope.world) with ⟨answer, last⟩
  rw [ran] at ended
  cases ended
  have invoked : function.invoke Panel.host isCancelled scope.world =
      function.reported (some ending) last := by
    unfold Function.invoke
    rw [Machine.run_eq_some_iff.mpr ⟨rounds, ran⟩]
  obtain ⟨metrics, session⟩ := scope.session.invoke_of_found isThere invoked
  unfold invoke
  simp only [script, session]
  cases ending <;> exact ⟨_, rfl⟩

/-- The ending of the first invocation of the point script, within some rounds. -/
def firstEnding (scope : Scope) (samples : Array Nat) (count rounds : Nat) : Option Ending :=
  ((scope.facing samples count 0).function? .point).bind fun function =>
    (Machine.runFor Panel.host function.program { limit := function.limit } rounds
      (Machine.start function.program (scope.facing samples count 0).world)).1

theorem invoke_first {scope : Scope}
    (ended : scope.firstEnding samples count rounds = some ending) :
    ∃ after, (scope.facing samples count 0).invoke .point false (.pointScript 0) =
      some (answerOf (.pointScript 0) ending, after) := by
  obtain ⟨_, found, ran⟩ := Option.bind_eq_some_iff.mp ended
  exact invoke_of_runFor found ran _

/-- A point is drawn by a script from the first of two samples. -/
theorem single_rendered :
    ∃ points done, (plotting 0 1).render #[5, 7] false = some (points, none, done) ∧
      points.length = 1 := by
  have counted : (Binary.single.truncate ((plotting 0 1).panel.get .count)).toNat = 1 := by
    decide +kernel
  have ended : (plotting 0 1).firstEnding #[5, 7] 1 30 = some (.ok ()) := by decide +kernel
  obtain ⟨after, ran⟩ := invoke_first ended
  obtain ⟨-, -, -, -, -, renders, -, -⟩ :=
    rendering_in_order (plotting 0 1) #[5, 7] 1 counted (by decide) (by decide)
  have rendered : (plotting 0 1).render #[5, 7] false =
      some ([pointOf after.panel], none, after) := by
    have sample : sampleAt? #[5, 7] 0 1 = some (sampleOf #[5, 7] 0 1) :=
      sampleAt?_eq Nat.zero_lt_one (by decide)
    unfold facing at ran
    simp [render, counted, mostPoints, renderFrom, sample, ran, answerOf]
  obtain ⟨⟨_, -, all, -⟩, -⟩ := renders _ none _ rendered
  exact ⟨_, _, rendered, (Nat.zero_add _).symm.trans all⟩

/-- Without room for the points, the failure of the first invocation is not what comes back. -/
theorem crowded_not_rendered :
    let scope := plotting 1 (2 ^ 62)
    (Binary.single.truncate (scope.panel.get .count)).toNat = 2 ^ 62 ∧
      (∃ failure after, (scope.facing #[] (2 ^ 62) 0).invoke .point false (.pointScript 0) =
        some (some failure, after)) ∧
      ∀ points failure done, scope.render #[] false = some (points, failure, done) →
        ¬Renders #[] (2 ^ 62) 0 scope points failure done := by
  have ended : (plotting 1 (2 ^ 62)).firstEnding #[] (2 ^ 62) 2 =
      some (.error (Machine.stopped .limitExceeded)) := by decide +kernel
  refine ⟨by decide +kernel, ⟨_, invoke_first ended⟩,
    fun points failure done rendered renders => ?_⟩
  have noRoom : ((plotting 1 (2 ^ 62)).render #[] false).map (·.2.1) =
      some (some (.cause .noRoom)) := by
    decide +kernel
  rw [rendered] at noRoom
  obtain rfl : failure = some (.cause .noRoom) := Option.some.inj noRoom
  obtain ⟨_, same⟩ := renders.fails
  cases same

end Scope

end HostScript
