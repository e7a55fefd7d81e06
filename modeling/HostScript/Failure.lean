import HostScript.Text.Basic

/-!
# Failures

A failure is a cause seen through what was being done when it arose.
-/

namespace HostScript

/-- Stages of the pipeline to which a failure can be assigned. -/
inductive Stage where
  | undefined
  | lexical
  | syntactic
  | semantic
  | execution
  /-- A stage that only a caller knows. -/
  | unlisted
  deriving Repr, DecidableEq

def Stage.text : Stage → Text
  | .undefined | .unlisted => "undefined error"
  | .lexical => "lex error"
  | .syntactic => "syntax error"
  | .semantic => "semantic error"
  | .execution => "runtime error"

/-- A cause with the contexts and classifications around it. -/
inductive Failure (Reason : Type) where
  | cause (reason : Reason)
  | within (context : Reason) (inner : Failure Reason)
  /-- A negative offset stands for no position in the source. -/
  | classified (stage : Stage) (offset : Int) (inner : Failure Reason)
  deriving Repr, DecidableEq

namespace Failure

/-- No position in the source. -/
def noOffset : Int :=
  -1

def located (stage : Stage) (offset : Nat) (reason : Reason) : Failure Reason :=
  .classified stage offset (.cause reason)

/-- What stands before a classified cause. -/
def heading (stage : Stage) (offset : Int) : Text :=
  if offset < 0 then Text.join [stage.text, ": "]
  else Text.join [stage.text, " at offset ", Text.integer offset, ": "]

def text (word : Reason → Text) : Failure Reason → Text
  | .cause reason => word reason
  | .within context inner => Text.join [word context, ": ", text word inner]
  | .classified stage offset inner => heading stage offset ++ text word inner

def stage : Failure Reason → Stage
  | .cause _ => .undefined
  | .within _ inner => stage inner
  | .classified stage _ _ => stage

def offset : Failure Reason → Int
  | .cause _ => noOffset
  | .within _ inner => offset inner
  | .classified _ offset _ => offset

def isClassified : Failure Reason → Bool
  | .cause _ => false
  | .within _ inner => isClassified inner
  | .classified _ _ _ => true

def stages : Failure Reason → List Stage
  | .cause _ => []
  | .within _ inner => stages inner
  | .classified stage _ inner => stage :: stages inner

def classifiedCause? : Failure Reason → Option (Failure Reason)
  | .cause _ => none
  | .within _ inner => classifiedCause? inner
  | .classified _ _ inner => some inner

def root : Failure Reason → Reason
  | .cause reason => reason
  | .within _ inner => root inner
  | .classified _ _ inner => root inner

/-- Adds a context; a classified failure keeps its classification outside. -/
def extend (context : Reason) : Failure Reason → Failure Reason
  | .classified stage offset inner => .classified stage offset (.within context inner)
  | failure => .within context failure

def classifyUnless (stage : Stage) (offset : Int) (context : Reason)
    (failure : Failure Reason) : Failure Reason :=
  if failure.isClassified then failure
  else .classified stage offset (.within context failure)

def map (f : α → β) : Failure α → Failure β
  | .cause reason => .cause (f reason)
  | .within context inner => .within (f context) (map f inner)
  | .classified stage offset inner => .classified stage offset (map f inner)

end Failure

end HostScript
