import GraphqlCrud.Compilation.Phase
import GraphqlCrud.Lint.Standard
/-!
Runs. A run takes a compilation through its phases. Observers are told before and after every phase;
they keep notes, and they may change the compilation or stop the run like a phase. A run ends with
the first event that stops it.
-/
namespace GraphqlCrud

/-- How far a run has come: its compilation, and the notes of its observers. -/
structure Progress (κ : Type) where
  compilation : Compilation
  notes : κ

/-- Something that happens in a run, and may stop it. -/
abbrev Event (κ : Type) := Progress κ → Progress κ × Option Stop

namespace Event

variable {κ : Type}

def idle : Event κ := fun p => (p, none)

/-- Events in their order, up to the first that stops the run. -/
def inTurn : List (Event κ) → Event κ
  | [], p => (p, none)
  | event :: rest, p =>
    match event p with
    | (p, some stop) => (p, some stop)
    | (p, none) => inTurn rest p

@[simp] theorem inTurn_nil (p : Progress κ) : inTurn [] p = (p, none) := rfl

theorem inTurn_append (first second : List (Event κ)) (p : Progress κ) :
    inTurn (first ++ second) p = inTurn [inTurn first, inTurn second] p := by
  induction first generalizing p with
  | nil => simp [inTurn]; rcases inTurn second p with ⟨q, _ | stop⟩ <;> rfl
  | cons event rest ih =>
    rcases h : event p with ⟨q, _ | stop⟩
    · have := ih q
      simp_all [inTurn]
    · simp [inTurn, h]

end Event

structure Observer (κ : Type) where
  before : String → Event κ := fun _ => Event.idle
  after : String → Event κ := fun _ => Event.idle

namespace Phase

def event {κ : Type} (phase : Phase) : Event κ := fun p =>
  let (compilation, stop) := phase.run p.compilation
  ({ p with compilation }, stop)

/-- The phase between what its observers do before and after it. -/
def observed {κ : Type} (observers : List (Observer κ)) (phase : Phase) : Event κ :=
  Event.inTurn [
    Event.inTurn (observers.map (·.before phase.name)),
    phase.event,
    Event.inTurn (observers.map (·.after phase.name))]

end Phase

/-- The set-up of runs: the lints of their validation, the phases after the planning, and the
observers. -/
structure Pipeline (κ : Type) where
  lints : List Lint := Lint.standard
  laterPhases : List Phase := []
  observers : List (Observer κ) := []

namespace Pipeline

variable {κ : Type}

def phases (p : Pipeline κ) : List Phase :=
  Phase.validate p.lints :: Phase.analyze :: p.laterPhases

def run (p : Pipeline κ) (document : Schema.Document) (config : Config) (notes : κ) :
    Progress κ × Option Stop :=
  Event.inTurn (p.phases.map (Phase.observed p.observers))
    { compilation := { document, config }, notes }

end Pipeline

/-- The compilation of a schema with its options by the standard phases alone. -/
def compile (document : Schema.Document) (config : Config) : Except Stop Compilation :=
  match ({} : Pipeline Unit).run document config () with
  | (progress, none) => .ok progress.compilation
  | (_, some stop) => .error stop

end GraphqlCrud
